import Mathlib.Algebra.Group.Nat.Defs
import PropertyGraph.Command.Statement
import PropertyGraph.Proofs.Command.Clause

/-! Statements. The rules of the grammar tell which lexemes say a command; what is read from
their text settles to the command again. -/

namespace PropertyGraph

/-! ### Grammar -/

namespace NodeKey

/-- A label followed by an id. -/
def plainLexemes (k : NodeKey) : List Lexeme := [.name k.label, .natural k.id]

/-- A label with the id in parentheses. -/
def lexemes (k : NodeKey) : List Lexeme :=
  [.name k.label, .symbol "(", .keyword "ID", .symbol "=", .natural k.id, .symbol ")"]

end NodeKey

/-- The lexemes of an arrow around those that stand in its brackets. -/
inductive ArrowWritten : Direction → List Lexeme → List Lexeme → Prop where
  | outgoing (xs : List Lexeme) :
    ArrowWritten .outgoing xs (.symbol "-[" :: (xs ++ [.symbol "]->"]))
  | incoming (xs : List Lexeme) :
    ArrowWritten .incoming xs (.symbol "<-[" :: (xs ++ [.symbol "]-"]))

/-- The lexemes of some parts one after the other. -/
inductive ListWritten {α : Type} (p : α → List Lexeme → Prop) : List α → List Lexeme → Prop where
  | nil : ListWritten p [] []
  | cons {a : α} {rest : List α} {xs ys : List Lexeme} : p a xs → ListWritten p rest ys →
    ListWritten p (a :: rest) (xs ++ ys)

inductive Step.Written : Step → List Lexeme → Prop where
  | intro {kind label : String} {d : Direction} {xs : List Lexeme} :
    ArrowWritten d [.name kind] xs → Written ⟨kind, d, some label⟩ (xs ++ [.name label])

/-- A name that may be left out, a colon and a tag. -/
def taggedLexemes (name : Option String) (tag : String) : List Lexeme :=
  (name.map Lexeme.name).toList ++ [.symbol ":", .name tag]

def NodeSlot.lexemes (n : NodeSlot) : List Lexeme :=
  .symbol "(" :: (taggedLexemes n.name n.label ++ [.symbol ")"])

inductive SegmentWritten : RelationshipSlot × NodeSlot → List Lexeme → Prop where
  | intro {name : Option String} {kind : String} {d : Direction} {n : NodeSlot}
    {xs : List Lexeme} : ArrowWritten d (taggedLexemes name kind) xs →
    SegmentWritten (⟨name, kind, d⟩, n) (xs ++ n.lexemes)

/-- An empty block may be left out. -/
inductive Bag.OptionalBlockWritten : Bag → List Lexeme → Prop where
  | absent : OptionalBlockWritten ∅ []
  | given {b : Bag} {xs : List Lexeme} : b.BlockWritten xs → OptionalBlockWritten b xs

/-- The keyword of a direction. -/
def Direction.word : Direction → String
  | .outgoing => "OUTGOING"
  | .incoming => "INCOMING"
  | .both => "BOTH"

namespace Command

def endsLexemes (source target : NodeKey) : List Lexeme :=
  .keyword "FROM" :: (source.lexemes ++ .keyword "TO" :: target.lexemes)

def kindLexemes : Option String → List Lexeme
  | none => []
  | some kind => [.keyword "WITH", .keyword "RELATIONSHIP", .name kind]

/-- The direction in which neighbours are looked for is outgoing if none is given. -/
inductive DirectionWritten : Direction → List Lexeme → Prop where
  | absent : DirectionWritten .outgoing []
  | given (d : Direction) : DirectionWritten d [.keyword "DIRECTION", .keyword d.word]

/-- The ids in a command. -/
def ids : Command → List Nat
  | .createRelationship _ source target _ | .updateRelationship _ source target _ =>
    [source.id, target.id]
  | .getNode key | .getNeighbors key _ _ | .updateNode key _ | .deleteNode key
  | .traverse key _ _ => [key.id]
  | .deleteRelationship id => [id]
  | .createNode .. | .findMatches .. | .exportTo _ | .importFrom _ => []

/-- The lexemes of a command. -/
inductive Written : Command → List Lexeme → Prop where
  | createNode {label : String} {b : Bag} {xs : List Lexeme} : b.OptionalBlockWritten xs →
    Written (.createNode label b) (.keyword "CREATE" :: .keyword "NODE" :: .name label :: xs)
  | createRelationship {kind : String} {source target : NodeKey} {b : Bag} {xs : List Lexeme} :
    b.OptionalBlockWritten xs → Written (.createRelationship kind source target b)
      (.keyword "CREATE" :: .keyword "RELATIONSHIP" :: .name kind ::
        (endsLexemes source target ++ xs))
  | getNode {key : NodeKey} :
    Written (.getNode key) (.keyword "GET" :: .keyword "NODE" :: key.plainLexemes)
  | getNeighbors {key : NodeKey} {kind : Option String} {d : Direction} {xs : List Lexeme} :
    DirectionWritten d xs → Written (.getNeighbors key kind d)
      (.keyword "GET" :: .keyword "NEIGHBORS" :: (key.plainLexemes ++ (kindLexemes kind ++ xs)))
  | updateNode {key : NodeKey} {b : Bag} {xs : List Lexeme} : b.BlockWritten xs →
    Written (.updateNode key b) (.keyword "UPDATE" :: .keyword "NODE" :: (key.plainLexemes ++ xs))
  | deleteNode {key : NodeKey} :
    Written (.deleteNode key) (.keyword "DELETE" :: .keyword "NODE" :: key.plainLexemes)
  | updateRelationship {kind : String} {source target : NodeKey} {b : Bag} {xs : List Lexeme} :
    b.BlockWritten xs → Written (.updateRelationship kind source target b)
      (.keyword "UPDATE" :: .keyword "RELATIONSHIP" :: .name kind ::
        (endsLexemes source target ++ xs))
  | deleteRelationship {id : Nat} : Written (.deleteRelationship id)
      [.keyword "DELETE", .keyword "RELATIONSHIP", .natural id]
  | traverse {start : NodeKey} {first : Step} {rest : List Step} {c : Condition}
    {xs ys zs : List Lexeme} : first.Written xs → ListWritten Step.Written rest ys →
    c.ClauseWritten zs → Written (.traverse start (first :: rest) c)
      (.keyword "TRAVERSE" :: (start.lexemes ++ (xs ++ (ys ++ zs))))
  | findMatches {t : Template} {c : Condition} {xs ys : List Lexeme} :
    ListWritten SegmentWritten t.segments xs → c.ClauseWritten ys → Written (.findMatches t c)
      (.keyword "MATCH" :: (t.start.lexemes ++ (xs ++ ys)))
  | exportTo {path : String} : Written (.exportTo path)
      [.keyword "EXPORT", .keyword "TO", .keyword "JSON", .text path]
  | importFrom {path : String} : Written (.importFrom path)
      [.keyword "IMPORT", .keyword "FROM", .keyword "JSON", .text path]

end Command

/-! ### Reading parts -/

namespace Draft

variable {xs ys more : List Lexeme} {s : List Char}

theorem settleId_eq {ds : List Char} (h : Digits.toNat ds < 2 ^ 64) :
    settleId ds = .ok (Digits.toNat ds) := if_pos h

theorem plainRef?_lexemes {k : NodeKey} (hid : k.id < 2 ^ 64)
    (h : Spelled (k.plainLexemes ++ more) s) :
    ∃ r rest, plainRef? s = some (r, rest) ∧ r.settle = .ok k ∧ Spelled more rest := by
  obtain ⟨t, hlabel, ht⟩ := Token.word?_name h
  obtain ⟨ds, rest, hds, hk, hmore⟩ := Token.digits?_natural ht
  refine ⟨⟨k.label, ds⟩, rest, by simp [plainRef?, hlabel, hds], ?_, hmore⟩
  rw [Ref.settle, settleId_eq (hk ▸ hid), hk]
  rfl

theorem ref?_lexemes {k : NodeKey} (hid : k.id < 2 ^ 64) (h : Spelled (k.lexemes ++ more) s) :
    ∃ r rest, ref? s = some (r, rest) ∧ r.settle = .ok k ∧ Spelled more rest := by
  obtain ⟨t, hlabel, h⟩ := Token.word?_name h
  obtain ⟨u, hopen, h⟩ := Token.symbol?_self h
  obtain ⟨v, hword, h⟩ := Token.afterFolded?_keyword h
  obtain ⟨w, hequals, h⟩ := Token.symbol?_self h
  obtain ⟨ds, x, hds, hk, h⟩ := Token.digits?_natural h
  obtain ⟨rest, hclose, hmore⟩ := Token.symbol?_self h
  refine ⟨⟨k.label, ds⟩, rest, ?_, ?_, hmore⟩
  · rw [ref?]
    simp only [hlabel, hopen, hword, hequals, hds, hclose, Option.bind_eq_bind, Option.bind_some]
  · rw [Ref.settle, settleId_eq (hk ▸ hid), hk]
    rfl

theorem ends?_lexemes {source target : NodeKey} (hsource : source.id < 2 ^ 64)
    (htarget : target.id < 2 ^ 64) (h : Spelled (Command.endsLexemes source target ++ more) s) :
    ∃ a b rest, ends? s = some ((a, b), rest) ∧ a.settle = .ok source ∧ b.settle = .ok target ∧
      Spelled more rest := by
  obtain ⟨t, hfrom, h⟩ := Token.keyword?_self h
  rw [List.append_eq, List.append_assoc] at h
  obtain ⟨a, u, ha, hsettle, h⟩ := ref?_lexemes hsource h
  obtain ⟨v, hto, h⟩ := Token.keyword?_self h
  obtain ⟨b, rest, hb, hsettle', hmore⟩ := ref?_lexemes htarget h
  exact ⟨a, b, rest, by simp [ends?, hfrom, ha, hto, hb], hsettle, hsettle', hmore⟩

/-! ### Arrows -/

theorem arrow?_written {α : Type} {inside : List Char → Option (α × List Char)} {a : α}
    {d : Direction} (hd : ArrowWritten d xs ys)
    (hinside : ∀ {s : List Char} {more : List Lexeme}, Spelled (xs ++ more) s →
      ∃ rest, inside s = some (a, rest) ∧ Spelled more rest)
    (h : Spelled (ys ++ more) s) :
    ∃ rest, arrow? inside s = some ((a, d), rest) ∧ Spelled more rest := by
  cases hd with
  | outgoing =>
    rw [List.cons_append, List.append_assoc] at h
    obtain ⟨t, hopen, h⟩ := Token.symbol?_self h
    obtain ⟨u, hu, h⟩ := hinside h
    obtain ⟨rest, hclose, hmore⟩ := Token.symbol?_self h
    exact ⟨rest, by simp [arrow?, hopen, hu, hclose], hmore⟩
  | incoming =>
    rw [List.cons_append, List.append_assoc] at h
    have hnone : Token.symbol? "-[" s = none := Token.symbol?_other h rfl rfl
    obtain ⟨t, hopen, h⟩ := Token.symbol?_self h
    obtain ⟨u, hu, h⟩ := hinside h
    obtain ⟨rest, hclose, hmore⟩ := Token.symbol?_self h
    exact ⟨rest, by simp [arrow?, hnone, hopen, hu, hclose], hmore⟩

theorem atArrow_written {d : Direction} (hd : ArrowWritten d xs ys)
    (h : Spelled (ys ++ more) s) : atArrow s = true := by
  cases hd with
  | outgoing =>
    obtain ⟨t, hopen, -⟩ := Token.symbol?_self h
    rw [atArrow, hopen]
    rfl
  | incoming =>
    obtain ⟨t, hopen, -⟩ := Token.symbol?_self h
    rw [atArrow, hopen, Option.isSome_some, Bool.or_true]

/-- No arrow stands next. -/
def NoArrow (more : List Lexeme) : Prop :=
  ∀ x ∈ more.head?, x.leads '-' = false ∧ x.leads '<' = false

theorem atArrow_eq_false (hmore : NoArrow more) (h : Spelled more s) : atArrow s = false := by
  rw [atArrow, Token.symbol?_eq_none h rfl fun x hx => (hmore x hx).1,
    Token.symbol?_eq_none h rfl fun x hx => (hmore x hx).2]
  rfl

/-- Parts that start with an arrow are read as long as an arrow follows. -/
theorem readAll_written {α : Type} {p : α → List Lexeme → Prop}
    {read : List Char → Option (α × List Char)}
    {readAll : Nat → List Char → Option (List α × List Char)}
    (hall : ∀ fuel s, readAll (fuel + 1) s =
      if atArrow s then do
        let (x, s) ← read s
        let (xs, s) ← readAll fuel s
        some (x :: xs, s)
      else some ([], s))
    (hread : ∀ {a : α} {xs more : List Lexeme} {s : List Char}, p a xs → Spelled (xs ++ more) s →
      atArrow s = true ∧ xs ≠ [] ∧ ∃ rest, read s = some (a, rest) ∧ Spelled more rest)
    {as : List α} (has : ListWritten p as xs) (hmore : NoArrow more) {fuel : Nat}
    (hfuel : xs.length < fuel) (h : Spelled (xs ++ more) s) :
    ∃ rest, readAll fuel s = some (as, rest) ∧ Spelled more rest := by
  induction has generalizing fuel s with
  | nil =>
    match fuel with
    | fuel + 1 => exact ⟨s, by rw [hall, atArrow_eq_false hmore h]; rfl, h⟩
  | @cons a as xs ys ha _ ih =>
    match fuel with
    | fuel + 1 =>
      rw [List.append_assoc] at h
      obtain ⟨harrow, hne, t, ht, h⟩ := hread ha h
      have hpos := List.length_pos_iff.2 hne
      rw [List.length_append] at hfuel
      have hrestfuel : ys.length < fuel := by omega
      obtain ⟨rest, hrest, hend⟩ := ih hrestfuel h
      exact ⟨rest, by simp [hall, harrow, ht, hrest], hend⟩

theorem ArrowWritten.ne_nil {d : Direction} (hd : ArrowWritten d xs ys) : ys ≠ [] := by
  cases hd <;> exact List.cons_ne_nil _ _

theorem step?_written {x : Step} (hx : x.Written xs) (h : Spelled (xs ++ more) s) :
    atArrow s = true ∧ xs ≠ [] ∧ ∃ rest, step? s = some (x, rest) ∧ Spelled more rest := by
  cases hx with
  | intro hd =>
    rw [List.append_assoc] at h
    refine ⟨atArrow_written hd h, List.append_ne_nil_of_left_ne_nil (ArrowWritten.ne_nil hd) _, ?_⟩
    obtain ⟨t, ht, h⟩ := arrow?_written hd (fun h => Token.word?_name h) h
    obtain ⟨rest, hrest, hmore⟩ := Token.word?_name h
    exact ⟨rest, by simp [step?, ht, hrest], hmore⟩

theorem steps?_written {steps : List Step} (hsteps : ListWritten Step.Written steps xs)
    (hmore : NoArrow more) (h : Spelled (xs ++ more) s) :
    ∃ rest, steps? (s.length + 1) s = some (steps, rest) ∧ Spelled more rest :=
  readAll_written (fun _ _ => rfl) step?_written hsteps hmore
    (Nat.lt_succ_of_le h.length_left_le) h

theorem tagged?_lexemes {name : Option String} {tag : String}
    (h : Spelled (taggedLexemes name tag ++ more) s) :
    ∃ rest, tagged? s = some ((name, tag), rest) ∧ Spelled more rest := by
  cases name with
  | none =>
    have hnone : Token.word? s = none := by
      refine Token.word?_eq_none h fun c hc => ?_
      have hcolon : c = ':' := (Option.some.inj (eq_of_beq hc)).symm
      rw [hcolon]
      rfl
    obtain ⟨t, hcolon, h⟩ := Token.symbol?_self h
    obtain ⟨rest, hrest, hmore⟩ := Token.word?_name h
    exact ⟨rest, by simp [tagged?, hnone, hcolon, hrest], hmore⟩
  | some x =>
    obtain ⟨t, hname, h⟩ := Token.word?_name h
    obtain ⟨u, hcolon, h⟩ := Token.symbol?_self h
    obtain ⟨rest, hrest, hmore⟩ := Token.word?_name h
    exact ⟨rest, by simp [tagged?, hname, hcolon, hrest], hmore⟩

theorem nodeSlot?_lexemes {n : NodeSlot} (h : Spelled (n.lexemes ++ more) s) :
    ∃ rest, nodeSlot? s = some (n, rest) ∧ Spelled more rest := by
  rw [NodeSlot.lexemes, List.cons_append, List.append_assoc] at h
  obtain ⟨t, hopen, h⟩ := Token.symbol?_self h
  obtain ⟨u, hu, h⟩ := tagged?_lexemes h
  obtain ⟨rest, hclose, hmore⟩ := Token.symbol?_self h
  exact ⟨rest, by simp [nodeSlot?, hopen, hu, hclose], hmore⟩

theorem segment?_written {x : RelationshipSlot × NodeSlot} (hx : SegmentWritten x xs)
    (h : Spelled (xs ++ more) s) :
    atArrow s = true ∧ xs ≠ [] ∧ ∃ rest, segment? s = some (x, rest) ∧ Spelled more rest := by
  cases hx with
  | intro hd =>
    rw [List.append_assoc] at h
    refine ⟨atArrow_written hd h, List.append_ne_nil_of_left_ne_nil (ArrowWritten.ne_nil hd) _, ?_⟩
    obtain ⟨t, ht, h⟩ := arrow?_written hd (fun h => tagged?_lexemes h) h
    obtain ⟨rest, hrest, hmore⟩ := nodeSlot?_lexemes h
    exact ⟨rest, by simp [segment?, ht, hrest], hmore⟩

theorem segments?_written {segments : List (RelationshipSlot × NodeSlot)}
    (hsegments : ListWritten SegmentWritten segments xs) (hmore : NoArrow more)
    (h : Spelled (xs ++ more) s) :
    ∃ rest, segments? (s.length + 1) s = some (segments, rest) ∧ Spelled more rest :=
  readAll_written (fun _ _ => rfl) segment?_written hsegments hmore
    (Nat.lt_succ_of_le h.length_left_le) h

/-! ### Optional parts -/

/-- What may follow a statement: nothing, or a semicolon. -/
def Ends (more : List Lexeme) : Prop := more = [] ∨ more = [.symbol ";"]

theorem Ends.leads (hmore : Ends more) {c : Char} (hc : c ≠ ';') :
    ∀ x ∈ more.head?, x.leads c = false := by
  rcases hmore with rfl | rfl
  · nofun
  · rintro _ ⟨⟩
    simpa [Lexeme.leads] using hc.symm

theorem Ends.closed (hmore : Ends more) : Closed more := by
  rcases hmore with rfl | rfl
  · nofun
  · rintro _ ⟨⟩
    exact ⟨_, rfl⟩

theorem Ends.noArrow (hmore : Ends more) : NoArrow more := fun x hx =>
  ⟨hmore.leads (by decide) x hx, hmore.leads (by decide) x hx⟩

theorem optionalBlock_written {b : Bag} (hb : b.OptionalBlockWritten xs) (hmore : Ends more)
    (h : Spelled (xs ++ more) s) :
    ∃ ps rest, blockIfAny? s = some (ps, rest) ∧ settleBag ∅ ps = .ok b ∧ Spelled more rest := by
  cases hb with
  | absent =>
    have hnone : Token.symbol? "\x7b" s = none :=
      Token.symbol?_eq_none h rfl (hmore.leads (by decide))
    exact ⟨[], s, by rw [blockIfAny?, hnone], rfl, h⟩
  | given hb => exact blockIfAny?_written hb h

/-- A WHERE clause that is left out leaves the end of the statement. -/
theorem noArrow_clause {c : Condition} (hc : c.ClauseWritten xs) (hmore : Ends more) :
    NoArrow (xs ++ more) := by
  cases hc with
  | absent => exact hmore.noArrow
  | given =>
    rintro _ ⟨⟩
    exact ⟨rfl, rfl⟩

theorem direction?_word (d : Direction) (h : Spelled (.keyword d.word :: more) s) :
    ∃ rest, direction? s = some (d, rest) ∧ Spelled more rest := by
  have hword : d.word = d.name := by cases d <;> rfl
  rw [hword] at h
  obtain ⟨rest, hrest, hmore⟩ := Token.keyword?_self h
  refine ⟨rest, ?_, hmore⟩
  cases d with
  | outgoing => simp [direction?, hrest]
  | incoming =>
    have houtgoing : Token.keyword? Direction.outgoing.name s = none :=
      Token.keyword?_other h rfl (by decide)
    simp [direction?, houtgoing, hrest]
  | both =>
    have houtgoing : Token.keyword? Direction.outgoing.name s = none :=
      Token.keyword?_other h rfl (by decide)
    have hincoming : Token.keyword? Direction.incoming.name s = none :=
      Token.keyword?_other h rfl (by decide)
    simp [direction?, houtgoing, hincoming, hrest]

theorem directionClause?_written {d : Direction} (hd : Command.DirectionWritten d xs)
    (hmore : Ends more) (h : Spelled (xs ++ more) s) :
    ∃ rest, directionClause? s = some (d, rest) ∧ Spelled more rest := by
  cases hd with
  | absent => exact ⟨s, by rw [directionClause?, keyword?_closed hmore.closed h rfl], h⟩
  | given =>
    obtain ⟨t, ht, h⟩ := Token.keyword?_self h
    obtain ⟨rest, hrest, hmore⟩ := direction?_word d h
    exact ⟨rest, by simp [directionClause?, ht, hrest], hmore⟩

theorem kindFilter?_lexemes {kind : Option String} {d : Direction}
    (hd : Command.DirectionWritten d xs) (hmore : Ends more)
    (h : Spelled (Command.kindLexemes kind ++ (xs ++ more)) s) :
    ∃ rest, kindFilter? s = some (kind, rest) ∧ Spelled (xs ++ more) rest := by
  cases kind with
  | none =>
    have hnone : Token.keyword? "WITH" s = none := by
      cases hd with
      | absent => exact keyword?_closed hmore.closed h rfl
      | given => exact Token.keyword?_other h rfl (by decide)
    exact ⟨s, by rw [kindFilter?, hnone], h⟩
  | some kind =>
    obtain ⟨t, hwith, h⟩ := Token.keyword?_self h
    obtain ⟨u, hword, h⟩ := Token.keyword?_self h
    obtain ⟨rest, hrest, hmore⟩ := Token.word?_name h
    exact ⟨rest, by simp [kindFilter?, hwith, hword, hrest], hmore⟩

theorem path?_text {path : String} (h : Spelled (.text path :: more) s) :
    ∃ rest, Token.path? s = some (path, rest) ∧ Spelled more rest := by
  obtain ⟨rest, hrest, hmore⟩ := Token.quoted?_text h
  exact ⟨rest, by rw [Token.path?, hrest]; rfl, hmore⟩

/-! ### Reading statements -/

/-- What is read settles to the command, and the text of the lexemes behind it is left. -/
def Says (c : Command) (more : List Lexeme) (read : Option (Draft × List Char)) : Prop :=
  ∃ d rest, read = some (d, rest) ∧ d.settle = .ok c ∧ Spelled more rest

/-- The kind and the ends that follow the keyword of a relationship. -/
theorem relationship_lexemes {kind : String} {source target : NodeKey}
    (hsource : source.id < 2 ^ 64) (htarget : target.id < 2 ^ 64)
    (h : Spelled (.keyword "RELATIONSHIP" :: .name kind ::
      (Command.endsLexemes source target ++ more)) s) :
    Token.keyword? "NODE" s = none ∧ ∃ t u a b rest, Token.keyword? "RELATIONSHIP" s = some t ∧
      Token.word? t = some (kind, u) ∧ ends? u = some ((a, b), rest) ∧ a.settle = .ok source ∧
      b.settle = .ok target ∧ Spelled more rest := by
  refine ⟨Token.keyword?_other h rfl (by decide), ?_⟩
  obtain ⟨t, hword, h⟩ := Token.keyword?_self h
  obtain ⟨u, hkind, h⟩ := Token.word?_name h
  obtain ⟨a, b, rest, hends, ha, hb, hmore⟩ := ends?_lexemes hsource htarget h
  exact ⟨t, u, a, b, rest, hword, hkind, hends, ha, hb, hmore⟩

theorem create?_node {label : String} {b : Bag} (hb : b.OptionalBlockWritten xs)
    (hmore : Ends more) (h : Spelled (.keyword "NODE" :: .name label :: (xs ++ more)) s) :
    Says (.createNode label b) more (create? s) := by
  obtain ⟨t, hnode, h⟩ := Token.keyword?_self h
  obtain ⟨u, hlabel, h⟩ := Token.word?_name h
  obtain ⟨ps, rest, hps, hsettle, hend⟩ := optionalBlock_written hb hmore h
  refine ⟨.createNode label ps, rest, by simp [create?, hnode, hlabel, hps], ?_, hend⟩
  rw [Draft.settle, hsettle]
  rfl

theorem create?_relationship {kind : String} {source target : NodeKey} {b : Bag}
    (hsource : source.id < 2 ^ 64) (htarget : target.id < 2 ^ 64)
    (hb : b.OptionalBlockWritten xs) (hmore : Ends more)
    (h : Spelled (.keyword "RELATIONSHIP" :: .name kind ::
      (Command.endsLexemes source target ++ (xs ++ more))) s) :
    Says (.createRelationship kind source target b) more (create? s) := by
  obtain ⟨hnode, t, u, x, y, v, hword, hkind, hends, hx, hy, h⟩ :=
    relationship_lexemes hsource htarget h
  obtain ⟨ps, rest, hps, hsettle, hend⟩ := optionalBlock_written hb hmore h
  refine ⟨.createRelationship kind x y ps, rest, ?_, ?_, hend⟩
  · simp [create?, hnode, hword, hkind, hends, hps]
  · rw [Draft.settle, hx, hy, hsettle]
    rfl

theorem update?_relationship {kind : String} {source target : NodeKey} {b : Bag}
    (hsource : source.id < 2 ^ 64) (htarget : target.id < 2 ^ 64) (hb : b.BlockWritten xs)
    (h : Spelled (.keyword "RELATIONSHIP" :: .name kind ::
      (Command.endsLexemes source target ++ (xs ++ more))) s) :
    Says (.updateRelationship kind source target b) more (update? s) := by
  obtain ⟨hnode, t, u, x, y, v, hword, hkind, hends, hx, hy, h⟩ :=
    relationship_lexemes hsource htarget h
  obtain ⟨ps, rest, hps, hsettle, hend⟩ := block?_written hb h
  refine ⟨.updateRelationship kind x y ps, rest, ?_, ?_, hend⟩
  · simp [update?, hnode, hword, hkind, hends, hps]
  · rw [Draft.settle, hx, hy, hsettle]
    rfl

variable {key : NodeKey} (hid : key.id < 2 ^ 64)
include hid

theorem get?_node (h : Spelled (.keyword "NODE" :: (key.plainLexemes ++ more)) s) :
    Says (.getNode key) more (get? s) := by
  obtain ⟨t, hnode, h⟩ := Token.keyword?_self h
  obtain ⟨r, rest, hr, hsettle, hend⟩ := plainRef?_lexemes hid h
  refine ⟨.getNode r, rest, by simp [get?, hnode, hr], ?_, hend⟩
  rw [Draft.settle, hsettle]
  rfl

theorem get?_neighbors {kind : Option String} {d : Direction}
    (hd : Command.DirectionWritten d xs) (hmore : Ends more)
    (h : Spelled (.keyword "NEIGHBORS" ::
      (key.plainLexemes ++ (Command.kindLexemes kind ++ (xs ++ more)))) s) :
    Says (.getNeighbors key kind d) more (get? s) := by
  have hnode : Token.keyword? "NODE" s = none := Token.keyword?_other h rfl (by decide)
  obtain ⟨t, hword, h⟩ := Token.keyword?_self h
  obtain ⟨r, u, hr, hsettle, h⟩ := plainRef?_lexemes hid h
  obtain ⟨v, hkind, h⟩ := kindFilter?_lexemes hd hmore h
  obtain ⟨rest, hdirection, hend⟩ := directionClause?_written hd hmore h
  refine ⟨.getNeighbors r kind d, rest, ?_, ?_, hend⟩
  · simp [get?, hnode, hword, hr, hkind, hdirection]
  · rw [Draft.settle, hsettle]
    rfl

theorem update?_node {b : Bag} (hb : b.BlockWritten xs)
    (h : Spelled (.keyword "NODE" :: (key.plainLexemes ++ (xs ++ more))) s) :
    Says (.updateNode key b) more (update? s) := by
  obtain ⟨t, hnode, h⟩ := Token.keyword?_self h
  obtain ⟨r, u, hr, hsettle, h⟩ := plainRef?_lexemes hid h
  obtain ⟨ps, rest, hps, hsettle', hend⟩ := block?_written hb h
  refine ⟨.updateNode r ps, rest, by simp [update?, hnode, hr, hps], ?_, hend⟩
  rw [Draft.settle, hsettle, ok_bind, hsettle']
  rfl

theorem delete?_node (h : Spelled (.keyword "NODE" :: (key.plainLexemes ++ more)) s) :
    Says (.deleteNode key) more (delete? s) := by
  obtain ⟨t, hnode, h⟩ := Token.keyword?_self h
  obtain ⟨r, rest, hr, hsettle, hend⟩ := plainRef?_lexemes hid h
  refine ⟨.deleteNode r, rest, by simp [delete?, hnode, hr], ?_, hend⟩
  rw [Draft.settle, hsettle]
  rfl

theorem traverse?_written {first : Step} {steps : List Step} {c : Condition}
    {ys zs : List Lexeme} (hfirst : first.Written xs) (hsteps : ListWritten Step.Written steps ys)
    (hc : c.ClauseWritten zs) (hmore : Ends more)
    (h : Spelled (key.lexemes ++ (xs ++ (ys ++ (zs ++ more)))) s) :
    Says (.traverse key (first :: steps) c) more (traverse? s) := by
  obtain ⟨r, t, hr, hsettle, h⟩ := ref?_lexemes hid h
  obtain ⟨-, -, u, hu, h⟩ := step?_written hfirst h
  obtain ⟨v, hv, h⟩ := steps?_written hsteps (noArrow_clause hc hmore) h
  obtain ⟨chain, rest, hchain, hsettle', hend⟩ := clause?_written hc hmore.closed h
  refine ⟨.traverse r (first :: steps) chain, rest, ?_, ?_, hend⟩
  · simp [traverse?, hr, hu, hv, hchain]
  · rw [Draft.settle, hsettle, ok_bind, hsettle']
    rfl

omit hid

theorem delete?_relationship {id : Nat} (hid : id < 2 ^ 64)
    (h : Spelled (.keyword "RELATIONSHIP" :: .natural id :: more) s) :
    Says (.deleteRelationship id) more (delete? s) := by
  have hnode : Token.keyword? "NODE" s = none := Token.keyword?_other h rfl (by decide)
  obtain ⟨t, hword, h⟩ := Token.keyword?_self h
  obtain ⟨ds, rest, hds, rfl, hend⟩ := Token.digits?_natural h
  refine ⟨.deleteRelationship ds, rest, by simp [delete?, hnode, hword, hds], ?_, hend⟩
  rw [Draft.settle, settleId_eq hid]
  rfl

theorem match?_written {t : Template} {c : Condition} {ys : List Lexeme}
    (ht : ListWritten SegmentWritten t.segments xs) (hc : c.ClauseWritten ys) (hmore : Ends more)
    (h : Spelled (t.start.lexemes ++ (xs ++ (ys ++ more))) s) :
    Says (.findMatches t c) more (match? s) := by
  obtain ⟨u, hu, h⟩ := nodeSlot?_lexemes h
  obtain ⟨v, hv, h⟩ := segments?_written ht (noArrow_clause hc hmore) h
  obtain ⟨chain, rest, hchain, hsettle, hend⟩ := clause?_written hc hmore.closed h
  refine ⟨.findMatches t chain, rest, by simp [match?, hu, hv, hchain], ?_, hend⟩
  rw [Draft.settle, hsettle]
  rfl

theorem export?_lexemes {path : String}
    (h : Spelled (.keyword "TO" :: .keyword "JSON" :: .text path :: more) s) :
    Says (.exportTo path) more (export? s) := by
  obtain ⟨t, hto, h⟩ := Token.keyword?_self h
  obtain ⟨u, hjson, h⟩ := Token.keyword?_self h
  obtain ⟨rest, hpath, hend⟩ := path?_text h
  exact ⟨.exportTo path, rest, by simp [export?, hto, hjson, hpath], rfl, hend⟩

theorem import?_lexemes {path : String}
    (h : Spelled (.keyword "FROM" :: .keyword "JSON" :: .text path :: more) s) :
    Says (.importFrom path) more (import? s) := by
  obtain ⟨t, hfrom, h⟩ := Token.keyword?_self h
  obtain ⟨u, hjson, h⟩ := Token.keyword?_self h
  obtain ⟨rest, hpath, hend⟩ := path?_text h
  exact ⟨.importFrom path, rest, by simp [import?, hfrom, hjson, hpath], rfl, hend⟩

/-! ### Reading commands -/

/-- Among readers with different keywords the one with the keyword that is written is taken. -/
theorem findSome?_keyword {w : String} {ys : List Lexeme} {c : Command}
    {read : List Char → Option (Draft × List Char)}
    {table : List (String × (List Char → Option (Draft × List Char)))}
    (h : Spelled (.keyword w :: ys) s)
    (hread : ∀ {t : List Char}, Spelled ys t → Says c more (read t)) (hmem : (w, read) ∈ table)
    (hkeywords : ∀ e ∈ table, Token.isKeyword e.1 = true)
    (hnodup : (table.map Prod.fst).Nodup) :
    Says c more (table.findSome? fun (w, read) => (Token.keyword? w s).bind read) := by
  induction table with
  | nil => cases hmem
  | cons e table ih =>
    obtain ⟨v, reader⟩ := e
    obtain ⟨hv, hkeywords⟩ := List.forall_mem_cons.1 hkeywords
    obtain ⟨hnew, hnodup⟩ := List.nodup_cons.1 hnodup
    rcases List.mem_cons.1 hmem with heq | hlater
    · cases heq
      obtain ⟨t, hword, ht⟩ := Token.keyword?_self h
      obtain ⟨d, rest, hd, hsettle, hend⟩ := hread ht
      exact ⟨d, rest, by simp [hword, hd], hsettle, hend⟩
    · have hne : w ≠ v := by
        rintro rfl
        exact hnew (List.mem_map.2 ⟨_, hlater, rfl⟩)
      have hnone : Token.keyword? v s = none := Token.keyword?_other h hv hne
      simp only [List.findSome?_cons, hnone, Option.bind_none]
      exact ih hlater hkeywords hnodup

theorem statement?_keyword {w : String} {ys : List Lexeme} {c : Command}
    (read : List Char → Option (Draft × List Char)) (hw : (w, read) ∈ openings)
    (h : Spelled ((.keyword w :: ys) ++ more) s)
    (hread : ∀ {t : List Char}, Spelled (ys ++ more) t → Says c more (read t)) :
    Says c more (statement? s) :=
  findSome?_keyword h hread hw (by simp [openings]; decide) (by simp [openings])

theorem statement?_congr {t : List Char} (h : Blank.skip s = Blank.skip t) :
    statement? s = statement? t := by
  simp only [statement?, Token.keyword?, h]

theorem statement?_written {c : Command} (hc : c.Written xs) (hids : ∀ n ∈ c.ids, n < 2 ^ 64)
    (hmore : Ends more) (h : Spelled (xs ++ more) s) : Says c more (statement? s) := by
  cases hc with
  | createNode hb =>
    exact statement?_keyword create? (by simp [openings]) h fun h => create?_node hb hmore h
  | @createRelationship kind source target _ _ hb =>
    have hsource : source.id < 2 ^ 64 := hids _ (.head _)
    have htarget : target.id < 2 ^ 64 := hids _ (.tail _ (.head _))
    refine statement?_keyword create? (by simp [openings]) h fun h => ?_
    simp only [List.cons_append, List.append_assoc] at h
    exact create?_relationship hsource htarget hb hmore h
  | getNode =>
    exact statement?_keyword get? (by simp [openings]) h fun h => get?_node (hids _ (.head _)) h
  | getNeighbors hd =>
    refine statement?_keyword get? (by simp [openings]) h fun h => ?_
    simp only [List.cons_append, List.append_assoc] at h
    exact get?_neighbors (hids _ (.head _)) hd hmore h
  | updateNode hb =>
    refine statement?_keyword update? (by simp [openings]) h fun h => ?_
    simp only [List.cons_append, List.append_assoc] at h
    exact update?_node (hids _ (.head _)) hb h
  | deleteNode =>
    refine statement?_keyword delete? (by simp [openings]) h fun h => ?_
    exact delete?_node (hids _ (.head _)) h
  | @updateRelationship kind source target _ _ hb =>
    have hsource : source.id < 2 ^ 64 := hids _ (.head _)
    have htarget : target.id < 2 ^ 64 := hids _ (.tail _ (.head _))
    refine statement?_keyword update? (by simp [openings]) h fun h => ?_
    simp only [List.cons_append, List.append_assoc] at h
    exact update?_relationship hsource htarget hb h
  | deleteRelationship =>
    refine statement?_keyword delete? (by simp [openings]) h fun h => ?_
    exact delete?_relationship (hids _ (.head _)) h
  | traverse hfirst hsteps hc =>
    refine statement?_keyword traverse? (by simp [openings]) h fun h => ?_
    simp only [List.append_assoc] at h
    exact traverse?_written (hids _ (.head _)) hfirst hsteps hc hmore h
  | findMatches ht hc =>
    refine statement?_keyword match? (by simp [openings]) h fun h => ?_
    simp only [List.append_assoc] at h
    exact match?_written ht hc hmore h
  | exportTo => exact statement?_keyword export? (by simp [openings]) h export?_lexemes
  | importFrom => exact statement?_keyword import? (by simp [openings]) h import?_lexemes

/-- Nothing is left behind a statement but the semicolon. -/
theorem afterSemicolon_eq_nil (hmore : Ends more) (h : Spelled more s) : afterSemicolon s = [] := by
  rcases hmore with rfl | rfl
  · cases h
    rfl
  · obtain ⟨rest, hrest, hend⟩ := Token.symbol?_self h
    cases hend
    rw [afterSemicolon, hrest]
    rfl

end Draft

end PropertyGraph
