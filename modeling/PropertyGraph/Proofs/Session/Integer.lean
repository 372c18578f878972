import PropertyGraph.Proofs.Command.Integer
import PropertyGraph.Proofs.Document.Acceptance
import PropertyGraph.Proofs.Session
import PropertyGraph.Proofs.Value.Number

/-! One integer on two ways into an empty store: in a command that creates a node with it, and in
a document with such a node that is imported. -/

namespace PropertyGraph

open Json Json.Source

variable {label key text path : String} {id : Nat} {l : NumberLiteral} {v : Value} {s : Source}
  {files : FileTree}

/-! ### Stores with one node -/

/-- The store with one node that has one property. -/
def Store.lone (label : String) (id : Nat) (key : String) (v : Value) : Store :=
  empty.insertNode ⟨⟨label, id⟩, .ofList [(key, v)]⟩

/-- The property can be told from the store. -/
theorem Store.value_of_lone_eq {i j : Nat} {w : Value}
    (h : lone label i key v = lone label j key w) : v = w := by
  have hnodes : (lone label i key v).nodes = (lone label j key w).nodes := congrArg _ h
  simp only [lone, insertNode, empty, Array.push_inj_right, Option.some.injEq, Node.mk.injEq]
    at hnodes
  have hvalues := congrArg (fun b => OrderedMap.get? b key) hnodes.2
  simpa only [OrderedMap.get?_singleton, if_true, Option.some.injEq] using hvalues

theorem Store.lone_ne_empty : lone label id key v ≠ empty := by
  intro h
  have hnodes : (lone label id key v).nodes = #[] := congrArg _ h
  simp [lone, insertNode, empty] at hnodes

theorem checkNodeProperties_lone (hkey : Token.isName key = true) (hne : key ≠ "id")
    (hv : v.IsFinite) : checkNodeProperties (.ofList [(key, v)]) = .ok () := by
  have hnonempty : key ≠ "" := by
    rintro rfl
    cases hkey
  refine checkNodeProperties_eq_ok_iff.2 ⟨?_, by rw [OrderedMap.get?_singleton, if_neg hne]⟩
  intro name w hw
  rw [OrderedMap.get?_singleton, Option.ite_none_right_eq_some] at hw
  obtain ⟨rfl, ⟨⟩⟩ := hw
  exact ⟨hnonempty, hv⟩

/-! ### The command -/

namespace Session

/-- A node without an id gets the first one. -/
theorem changing_createNode (settings : Settings) (hkey : Token.isName key = true)
    (hne : key ≠ "id") (hv : v.IsFinite) :
    (⟨settings, .empty⟩ : Session).changing (.answerCreateNode label (.ofList [(key, v)])) =
      ⟨.ok (.nodeCreated ⟨label, 1⟩), ⟨settings, .lone label 1 key v⟩⟩ := by
  have hid : takeId (.ofList [(key, v)]) = .ok (none, .ofList [(key, v)]) := by
    rw [takeId, OrderedMap.get?_singleton, if_neg hne]
  have hcreate : (Change.createNode label none (.ofList [(key, v)])).run .empty =
      .ok ⟨label, 1⟩ (.lone label 1 key v) :=
    Change.run_createNode_eq_ok_iff.2 ⟨checkNodeProperties_lone hkey hne hv, rfl, rfl, rfl, rfl⟩
  have hrun : (Change.answerCreateNode label (.ofList [(key, v)])).run .empty =
      .ok (.nodeCreated ⟨label, 1⟩) (.lone label 1 key v) :=
    Change.run_require_bind_eq_ok_iff.2 ⟨_, hid, Change.run_bind_eq_ok_iff.2 ⟨_, _, hcreate, rfl⟩⟩
  rw [changing, hrun]

/-- An integer of the signed 64 bits is stored, negative zero as zero. Another one is a fault. -/
theorem execute_creation (settings : Settings) (hlabel : Token.isName label = true)
    (hkey : Token.isName key = true) (hne : key ≠ "id") (h : l.IsInteger) :
    (⟨settings, .empty⟩ : Session).execute (creation label key l) =
      .done (if l.IsSigned then
        ⟨.ok (.nodeCreated ⟨label, 1⟩),
          ⟨settings, .lone label 1 key (.integer (.ofInt l.toInt))⟩⟩
      else ⟨.error (.command (.fault (integerFault l))), ⟨settings, .empty⟩⟩) := by
  rw [execute, Command.read_creation hlabel hkey h]
  by_cases hsigned : l.IsSigned
  · have hfinite : (Value.integer (.ofInt l.toInt)).IsFinite := Value.objection?_eq_none_iff.1 rfl
    simp only [if_pos hsigned, run, changing_createNode settings hkey hne hfinite]
    rfl
  · simp only [if_neg hsigned]
    rfl

end Session

/-! ### The document -/

theorem Json.Source.Fields.room_eq {names : List String} {room : Nat} {f : Fields}
    (h : s.fields? names (room + 1) = some f) : f.room = room := by
  cases s with
  | object members =>
    obtain ⟨given, -, rfl⟩ := Option.map_eq_some_iff.1 h
    rfl
  | array items =>
    rw [fields?, Option.ite_none_right_eq_some] at h
    cases h.2
    rfl
  | _ => cases h

/-- The tree of a node entry with one property, which is a number. -/
def NodeEntry.IsLone (room : Nat) (label : String) (id : Nat) (key : String) (l : NumberLiteral)
    (s : Source) : Prop :=
  ∃ f, s.fields? ["type", "id", "properties"] room = some f ∧
    f.required "type" text? = some label ∧ f.required "id" word64? = some id ∧
    f.get? "properties" = some (.object [(some key, .number l)])

/-- The tree of a document with such an entry and no other one. -/
def Document.IsLone (label : String) (id : Nat) (key : String) (l : NumberLiteral) (s : Source) :
    Prop :=
  ∃ f, s.fields? ["nodes", "relationships"] nestingLimit = some f ∧
    (∃ node, f.get? "nodes" = some (.array [node]) ∧
      NodeEntry.IsLone (f.room - 1) label id key l node) ∧
    (f.get? "relationships" = none ∨ f.get? "relationships" = some (.array []))

theorem NodeEntry.ofSource?_of_isLone {room : Nat} (h : IsLone (room + 2) label id key l s) :
    ofSource? (room + 2) s =
      l.value?.map fun n => ⟨label, id, .ofList [(key, .number n)]⟩ := by
  obtain ⟨f, hf, htype, hid, hproperties⟩ := h
  rw [ofSource?, hf]
  simp only [Option.bind_eq_bind, Option.bind_some, htype, hid]
  rw [Fields.optional, hproperties, Fields.room_eq hf]
  cases hvalue : l.value? <;> simp [mapOf?, json?, hvalue]

theorem Document.ofSource?_of_isLone (h : IsLone label id key l s) :
    ofSource? nestingLimit s =
      l.value?.map fun n => ⟨[⟨label, id, .ofList [(key, .number n)]⟩], []⟩ := by
  obtain ⟨f, hf, ⟨node, hnodes, hnode⟩, hrelationships⟩ := h
  have hroom : f.room = 126 := Fields.room_eq hf
  have hentry := NodeEntry.ofSource?_of_isLone (hroom ▸ hnode)
  have hempty : f.optional "relationships" [] (fun room s =>
      s.listOf? RelationshipEntry.ofSource? room) = some [] := by
    rcases hrelationships with hnone | hnil
    · rw [Fields.optional, hnone]
    · rw [Fields.optional, hnil, hroom]
      rfl
  rw [ofSource?, hf]
  simp only [Option.bind_eq_bind, Option.bind_some, hempty]
  rw [Fields.optional, hnodes, hroom]
  cases hvalue : l.value? <;> simp [listOf?, hentry, hvalue]

theorem Document.toStore_lone {n : JsonNumber} (hkey : Token.isName key = true) (hne : key ≠ "id")
    (hid : id ≤ greatestId) (hn : n.Fits) :
    (⟨[⟨label, id, .ofList [(key, .number n)]⟩], []⟩ : Document).toStore =
      .ok (.lone label id key (.ofNumber n)) := by
  have hfinite := (Value.ofNumber_of_fits hn).2
  have hbag : Bag.ofJsonMap (.ofList [(key, .number n)]) = .ok (.ofList [(key, .ofNumber n)]) := by
    have hentries : (OrderedMap.ofList [(key, Json.number n)]).entries = [(key, .number n)] := rfl
    rw [Bag.ofJsonMap, hentries, Bag.ofEntries, Value.ofJson,
      Value.objection?_eq_none_iff.2 hfinite]
    rfl
  have hrecover : Store.empty.recoverNode ⟨⟨label, id⟩, .ofList [(key, .ofNumber n)]⟩ =
      .ok (.lone label id key (.ofNumber n)) := by
    rw [Store.recoverNode_eq, checkId_eq_ok_iff.2 hid, checkNodeProperties_lone hkey hne hfinite]
    rfl
  have hadd : addNode .empty ⟨label, id, .ofList [(key, .number n)]⟩ =
      .ok (.lone label id key (.ofNumber n)) := by
    rw [addNode, NodeEntry.node, hbag]
    exact hrecover
  rw [toStore, List.foldlM_cons, hadd]
  rfl

/-- A document is refused only if its integer stands for no number. -/
theorem Store.ofText_lone (hkey : Token.isName key = true) (hne : key ≠ "id")
    (hid : id ≤ greatestId) (hread : Source.read text = some s)
    (hs : Document.IsLone label id key l s) :
    ofText text = match l.taken? with
      | none => .error .malformed
      | some v => .ok (.lone label id key v) := by
  have hdocument : Document.read text =
      l.value?.map fun n => ⟨[⟨label, id, .ofList [(key, .number n)]⟩], []⟩ := by
    rw [Document.read, hread]
    exact Document.ofSource?_of_isLone hs
  rw [ofText, hdocument, NumberLiteral.taken?]
  cases hvalue : l.value? with
  | none => rfl
  | some n =>
    have hstore : _ = Except.ok (lone label id key (.ofNumber n)) :=
      Document.toStore_lone hkey hne hid (NumberLiteral.fits_of_value? hvalue)
    simp only [Option.map_some, hstore]
    rfl

/-- What importing such a document comes to. -/
theorem Session.importFrom_lone (settings : Settings) (hkey : Token.isName key = true)
    (hne : key ≠ "id") (hid : id ≤ greatestId) (hread : Source.read text = some s)
    (hs : Document.IsLone label id key l s) (hfile : files.read path = .text text) :
    ((⟨settings, .empty⟩ : Session).run (.importFrom path)).resultAmong files =
      match l.taken? with
      | none => ⟨.error (.document .malformed), ⟨settings, .empty⟩⟩
      | some v => ⟨.ok (.imported path 1 0), ⟨settings, .lone label id key v⟩⟩ := by
  have hrun : ((⟨settings, .empty⟩ : Session).run (.importFrom path)).resultAmong files =
      (⟨settings, .empty⟩ : Session).replacing
        (((storeOf (files.read path)).map fun store =>
          (Output.imported path store.nodeCount store.relationshipCount, store)).mapError
            .document) := rfl
  rw [hrun, hfile, storeOf, Store.ofText_lone hkey hne hid hread hs]
  cases l.taken? <;> rfl

/-! ### Both ways -/

/-- Both fail, or both leave one node with the same property behind. -/
def Outcome.StoresAlike (label key : String) (a b : Outcome) : Prop :=
  (a.Failed ∧ b.Failed) ∨
    ∃ i j v, a.session.store = .lone label i key v ∧ b.session.store = .lone label j key v

/-- A failure that leaves an empty store behind, or the store with one node. -/
inductive Outcome.Leaves (label key : String) : Outcome → Option Value → Prop where
  | failed (e : QueryError) (settings : Settings) :
    Leaves label key ⟨.error e, ⟨settings, .empty⟩⟩ none
  | stored (output : Output) (settings : Settings) (id : Nat) (v : Value) :
    Leaves label key ⟨.ok output, ⟨settings, .lone label id key v⟩⟩ (some v)

theorem Outcome.storesAlike_iff {a b : Outcome} {x y : Option Value}
    (ha : a.Leaves label key x) (hb : b.Leaves label key y) :
    a.StoresAlike label key b ↔ x = y := by
  constructor
  · rintro (⟨⟨e, ha'⟩, e', hb'⟩ | ⟨i, j, v, ha', hb'⟩)
    · cases ha with
      | stored => cases ha'
      | failed =>
        cases hb with
        | stored => cases hb'
        | failed => rfl
    · cases ha with
      | failed => exact absurd ha'.symm Store.lone_ne_empty
      | stored =>
        cases hb with
        | failed => exact absurd hb'.symm Store.lone_ne_empty
        | stored => rw [Store.value_of_lone_eq ha', Store.value_of_lone_eq hb']
  · rintro rfl
    cases ha with
    | failed e =>
      cases hb with
      | failed e' => exact .inl ⟨⟨e, rfl⟩, e', rfl⟩
    | stored _ _ i v =>
      cases hb with
      | stored _ _ j => exact .inr ⟨i, j, v, rfl, rfl⟩

namespace Session

/-- The two ways come to the same if the integer is one of the signed 64 bits but not negative
zero, or so long that it stands for no number of a document. Negative zero is an integer in a
command and a double in a document. Where the command is refused, the document is taken over with
a double in the place of the integer. -/
theorem creation_importFrom_alike_iff (settings : Settings) (hlabel : Token.isName label = true)
    (hkey : Token.isName key = true) (hne : key ≠ "id") (hl : l.IsInteger) (hid : id ≤ greatestId)
    (hread : Source.read text = some s) (hs : Document.IsLone label id key l s)
    (hfile : files.read path = .text text) :
    let made := ((⟨settings, .empty⟩ : Session).execute (creation label key l)).resultAmong files
    let imported := ((⟨settings, .empty⟩ : Session).run (.importFrom path)).resultAmong files
    (made.StoresAlike label key imported ↔
      (l.IsSigned ∧ ¬ l.IsNegativeZero) ∨ l.taken? = none) ∧
    made = (if l.IsSigned then
        ⟨.ok (.nodeCreated ⟨label, 1⟩),
          ⟨settings, .lone label 1 key (.integer (.ofInt l.toInt))⟩⟩
      else ⟨.error (.command (.fault (integerFault l))), ⟨settings, .empty⟩⟩) ∧
    imported = (match l.taken? with
      | none => ⟨.error (.document .malformed), ⟨settings, .empty⟩⟩
      | some v => ⟨.ok (.imported path 1 0), ⟨settings, .lone label id key v⟩⟩) ∧
    (l.IsSigned → ¬ l.IsNegativeZero → l.taken? = some (.integer (.ofInt l.toInt))) ∧
    (l.IsNegativeZero → l.taken? = some (.float (.ofRank true 0))) ∧
    (¬ l.IsSigned → ∀ v, l.taken? = some v →
      ∃ x, v = .float x ∧ (l.toInt.natAbs < 2 ^ 64 → x = .ofInt l.toInt)) ∧
    (l.whole.length ≤ 307 → l.taken? ≠ none) ∧ (310 ≤ l.whole.length → l.taken? = none) := by
  intro made imported
  have hmade : made = _ := congrArg (Job.resultAmong · files)
    (execute_creation settings hlabel hkey hne hl)
  have himported : imported = _ := importFrom_lone settings hkey hne hid hread hs hfile
  have hleft : made.Leaves label key
      (if l.IsSigned then some (.integer (.ofInt l.toInt)) else none) := by
    rw [hmade]
    split
    · exact .stored ..
    · exact .failed ..
  have hright : imported.Leaves label key l.taken? := by
    rw [himported]
    cases l.taken? with
    | none => exact .failed ..
    | some v => exact .stored ..
  refine ⟨(Outcome.storesAlike_iff hleft hright).trans (NumberLiteral.signed_eq_taken?_iff hl),
    hmade, himported, NumberLiteral.taken?_of_signed hl,
    NumberLiteral.taken?_of_negative_zero hl,
    fun hsigned _ => NumberLiteral.exists_float_of_taken? hl hsigned,
    NumberLiteral.taken?_ne_none hl, NumberLiteral.taken?_eq_none hl⟩

/-- The integer `2 ^ 63 + 1`. -/
def large : NumberLiteral := .ofInt 9223372036854775809

theorem toInt_large : large.toInt = 9223372036854775809 := NumberLiteral.toInt_ofInt _

/-- The text of a document with one person, whose number is written like this. -/
def personText (number : String) : String :=
  "\x7b\"nodes\":[\x7b\"type\":\"Person\",\"id\":1,\"properties\":\x7b\"n\":" ++ number ++
    "\x7d\x7d]\x7d"

def personEntry (l : NumberLiteral) : Source := .object
  [(some "type", .string (some "Person")), (some "id", .number ⟨false, ['1'], [], none⟩),
    (some "properties", .object [(some "n", .number l)])]

def personSource (l : NumberLiteral) : Source := .object [(some "nodes", .array [personEntry l])]

theorem isLone_personEntry (room : Nat) (l : NumberLiteral) :
    NodeEntry.IsLone (room + 1) "Person" 1 "n" l (personEntry l) := by
  refine ⟨⟨[("type", .string (some "Person")), ("id", .number ⟨false, ['1'], [], none⟩),
    ("properties", .object [(some "n", .number l)])], room⟩, ?_, rfl, ?_, ?_⟩
  · simp [personEntry, fields?, knownMembers?]
  · have hone : (⟨false, ['1'], [], none⟩ : NumberLiteral).value? = some (.integer 1) := by decide
    simp [Fields.required, Fields.get?, List.lookup_cons, word64?, hone]
  · simp [Fields.get?, List.lookup_cons]

theorem isLone_personSource (l : NumberLiteral) :
    Document.IsLone "Person" 1 "n" l (personSource l) := by
  refine ⟨⟨[("nodes", .array [personEntry l])], 126⟩, ?_,
    ⟨personEntry l, ?_, isLone_personEntry 124 l⟩, .inl ?_⟩
  · simp [personSource, fields?, knownMembers?, nestingLimit]
  · simp [Fields.get?]
  · simp [Fields.get?, List.lookup_cons]

def graphFile (content : String) : FileTree := ⟨.ofList [(["graph.json"], some content)], []⟩

theorem read_graphFile (content : String) :
    (graphFile content).read "graph.json" = .text content := by
  have hparts : FilePath.parts "graph.json" = ["graph.json"] := by decide +kernel
  have hsize : "graph.json".utf8ByteSize = 10 := by decide +kernel
  have hplace : (graphFile content).locate "graph.json" = some ["graph.json"] := by
    rw [FileTree.locate, hparts]
    simp [FileTree.walk, FileTree.isDirectory, graphFile, FilePath.isIdle, FileTree.pathLimit,
      FileTree.nameLimit, hsize]
  rw [FileTree.read, hplace]
  rfl

/-- The text is that of a tree, which is read back from it. -/
theorem read_personText_large :
    Source.read (personText "9223372036854775809") = some (personSource large) := by
  have htext : personText "9223372036854775809" = (Json.object [("nodes", .array
      [.object [("type", .string "Person"), ("id", .number (.integer 1)),
        ("properties", .object [("n", .number (.integer 9223372036854775809))])]])]).compact := by
    decide +kernel
  have hperson : (Json.object [("type", .string "Person"), ("id", .number (.integer 1)),
      ("properties", .object [("n", .number (.integer 9223372036854775809))])]).IsFinite :=
    .cons (.string _) (.cons (.integer _) (.cons (.cons (.integer _) .nil) .nil))
  have hnodes := List.forall_mem_singleton.2 hperson
  rw [htext, compact, read_write .compact (.cons (.array hnodes) .nil)]
  rfl

theorem creation_importFrom_alike_iff_large :
    let files := graphFile (personText "9223372036854775809")
    let made := ((⟨{}, .empty⟩ : Session).execute (creation "Person" "n" large)).resultAmong files
    let imported := ((⟨{}, .empty⟩ : Session).run (.importFrom "graph.json")).resultAmong files
    ¬ made.StoresAlike "Person" "n" imported ∧ made.session.store = .empty ∧
      imported.session.store = .lone "Person" 1 "n" (.float (.ofInt 9223372036854775809)) := by
  have hinteger : large.IsInteger := NumberLiteral.isInteger_ofInt _
  have hsigned : ¬ large.IsSigned := by
    rw [NumberLiteral.IsSigned, toInt_large]
    decide
  have htaken : large.taken? = some (.float (.ofInt 9223372036854775809)) := by
    rw [← toInt_large]
    exact NumberLiteral.taken?_of_word hinteger (by rw [toInt_large]; decide) hsigned
  obtain ⟨halike, hmade, himported, -⟩ := creation_importFrom_alike_iff {} rfl rfl (by decide)
    hinteger (by decide) read_personText_large (isLone_personSource large)
    (read_graphFile (personText "9223372036854775809"))
  rw [if_neg hsigned] at hmade
  rw [htaken] at himported
  refine ⟨?_, by rw [hmade], by rw [himported]⟩
  rw [halike, htaken]
  simp [hsigned]

/-- Negative zero becomes a double in a document, and `2 ^ 63 + 1`, which is refused in a command,
another number. -/
theorem imported_integers_altered :
    Command.read "CREATE NODE Person \x7bn: -0\x7d" =
      .ok (.createNode "Person" (.ofList [("n", .integer 0)])) ∧
    Store.ofText (personText "-0") =
      .ok (.lone "Person" 1 "n" (.float (.ofRank true 0))) ∧
    Command.read "CREATE NODE Person \x7bn: 9223372036854775809\x7d" =
      .error (.fault (.integerTooLarge "9223372036854775809")) ∧
    Store.ofText (personText "9223372036854775809") =
      .ok (.lone "Person" 1 "n" (.float (.ofInt 9223372036854775809))) ∧
    (Value.float (.ofInt 9223372036854775809)).rational? = some 9223372036854775808 := by
  decide +kernel

end Session

end PropertyGraph
