import PropertyGraph.CommandLine.Report
import PropertyGraph.Proofs.Record

/-! What the cell of an entity says. The four names that identify nodes or relationships are left
out of the properties that a cell lists, whichever of the two it is about, and an object with an
`id` is taken for a node. So the cell of a node leaves out the properties `from` and `to`, and a
relationship with a property `id` is shown as a node. All other cells say what the entity is
and list its properties in order. -/

namespace PropertyGraph

/-! ### Members but for some names -/

/-- The members of a bag whose names are not among the given ones. -/
def Bag.membersBut (names : List String) (b : Bag) : List (String × Json) :=
  (Bag.members b).filter fun (name, _) => !names.contains name

namespace Bag

variable {b : Bag} {names more : List String} {name : String} {j : Json}

theorem mem_membersBut_iff : (name, j) ∈ membersBut names b ↔
    (∃ v, OrderedMap.get? b name = some v ∧ v.toJson = j) ∧ name ∉ names := by
  rw [membersBut, List.mem_filter, mem_members_iff]
  simp

theorem filter_membersBut (h : names ⊆ more) :
    ((membersBut names b).filter fun (name, _) => !more.contains name) = membersBut more b := by
  rw [membersBut, List.filter_filter, membersBut]
  refine List.filter_congr fun (name, _) _ => Bool.and_eq_left_iff_imp.2 ?_
  simpa using mt (@h name)

theorem membersBut_sublist (h : names ⊆ more) :
    (membersBut more b).Sublist (membersBut names b) :=
  filter_membersBut h ▸ List.filter_sublist

/-- Leaving out more names makes a difference exactly if there is a property of one of them. -/
theorem membersBut_eq_iff (h : names ⊆ more) : membersBut more b = membersBut names b ↔
    ∀ name ∈ more, name ∉ names → OrderedMap.get? b name = none := by
  rw [← filter_membersBut h, List.filter_eq_self]
  constructor
  · intro hall name hmore hname
    by_contra hne
    obtain ⟨v, hv⟩ := Option.ne_none_iff_exists'.1 hne
    have hout := hall (name, v.toJson) (mem_membersBut_iff.2 ⟨⟨v, hv, rfl⟩, hname⟩)
    simp [hmore] at hout
  · rintro hnone ⟨name, j⟩ hmem
    obtain ⟨⟨v, hv, -⟩, hname⟩ := mem_membersBut_iff.1 hmem
    have hmore : name ∉ more := by
      intro hmore
      cases hv.symm.trans (hnone name hmore hname)
    simpa using hmore

end Bag

/-! ### Texts of members -/

namespace Cell

/-- A head, and the object of the members if there are any. -/
def listing (head : String) : List (String × Json) → String
  | [] => head
  | members => head ++ " " ++ (Json.object members).compact

/-- Fewer members make a shorter text. -/
theorem length_membersChars_add_le {l m : List (String × Json)} (h : l.Sublist m) :
    (Json.Layout.compact.membersChars 1 l).length + m.length ≤
      (Json.Layout.compact.membersChars 1 m).length + l.length := by
  induction h with
  | slnil => exact Nat.le_refl _
  | cons _ _ ih =>
    simp only [Json.Layout.membersChars, List.length_cons, List.length_append]
    omega
  | cons_cons _ _ ih =>
    simp only [Json.Layout.membersChars, List.length_cons, List.length_append]
    omega

theorem length_listing (head : String) (members : List (String × Json)) :
    (listing head members).length = head.length +
      if members = [] then 0 else 2 + (Json.Layout.compact.membersChars 1 members).length := by
  cases members with
  | nil => rfl
  | cons m rest =>
    have hblank : " ".length = 1 := rfl
    rw [listing, if_neg (List.cons_ne_nil m rest), String.length_append, String.length_append,
      hblank, Json.compact, Json.write, String.length_ofList]
    · simp only [Json.Layout.chars, Json.Layout.membersChars, Json.Layout.newline,
        List.length_cons, List.length_append, List.length_nil, Nat.zero_add]
      omega
    · exact List.cons_ne_nil m rest

/-- A text that lists fewer members is another text. -/
theorem listing_eq_iff {head : String} {l m : List (String × Json)} (h : l.Sublist m) :
    listing head l = listing head m ↔ l = m := by
  refine ⟨fun heq => ?_, fun heq => heq ▸ rfl⟩
  have hlength := congrArg String.length heq
  rw [length_listing, length_listing] at hlength
  have hle := length_membersChars_add_le h
  refine h.eq_of_length_le ?_
  by_cases hm : m = []
  · simp [hm]
  by_cases hl : l = []
  · rw [if_pos hl, if_neg hm] at hlength
    omega
  · rw [if_neg hl, if_neg hm] at hlength
    omega

end Cell

/-! ### Cells of entities -/

theorem compact_ofNat (n : Nat) : (Json.ofNat n).compact = toString n := by
  rw [Json.ofNat, Json.compact, Json.write, Json.Layout.chars, Json.numberChars, Digits.ofInt,
    if_neg (by omega), Int.natAbs_natCast]
  rfl

namespace Bag

theorem lookup_membersBut {names : List String} {name : String} (h : name ∉ names) (b : Bag) :
    (membersBut names b).lookup name = (OrderedMap.get? b name).map Value.toJson := by
  rw [membersBut, members, OrderedMap.get?]
  induction b.entries with
  | nil => rfl
  | cons e rest ih =>
    obtain ⟨k, v⟩ := e
    by_cases hk : k = name
    · subst hk
      simp [OrderedMap.find?, h]
    · have hne : (name == k) = false := beq_eq_false_iff_ne.2 (Ne.symm hk)
      rw [OrderedMap.find?, if_neg hk, ← ih]
      by_cases hout : k ∈ names <;> simp [hout, hne, List.lookup_cons]

end Bag

namespace Cell

variable {n : Node} {r : Relationship}

theorem ofJson_object {members : List (String × Json)} {head : String}
    (h : head? members = some head) : ofJson (.object members) =
      listing head (members.filter fun (name, _) => !identifying.contains name) := by
  rw [ofJson, h]
  dsimp only
  cases members.filter fun (name, _) => !identifying.contains name <;> rfl

/-- The cell of a node says its identity and lists the properties that are not called like
anything that identifies a node or a relationship. -/
theorem ofJson_node (n : Node) : ofJson n.record =
    listing n.key.display (Bag.membersBut identifying n.properties) := by
  have hhead : head? ([("id", .ofNat n.key.id), ("type", .string n.label)] ++
      Bag.membersBut ["id", "type"] n.properties) = some n.key.display := by
    simp [head?, List.lookup_cons, compact_ofNat, Json.plain, NodeKey.display, Node.label]
  refine (ofJson_object hhead).trans ?_
  rw [List.filter_append, Bag.filter_membersBut (by decide)]
  rfl

/-- The kind and the ends of a relationship. -/
def arrow (r : Relationship) : String :=
  "[" ++ r.kind ++ "] " ++ toString r.source.id ++ " -> " ++ toString r.target.id

/-- What the cell of a relationship says first. -/
def relationshipHead (r : Relationship) : String :=
  match OrderedMap.get? r.properties "id" with
  | none => arrow r
  | some v => r.kind ++ ":" ++ v.toJson.compact

theorem ofJson_relationship (r : Relationship) : ofJson r.record =
    listing (relationshipHead r) (Bag.membersBut identifying r.properties) := by
  have hmembers : "id" ∉ ["type", "from", "to"] := by decide
  have hid := Bag.lookup_membersBut hmembers r.properties
  have hhead : head? ([("type", .string r.kind), ("from", .ofNat r.source.id),
      ("to", .ofNat r.target.id)] ++ Bag.membersBut ["type", "from", "to"] r.properties) =
        some (relationshipHead r) := by
    simp only [head?, relationshipHead, List.cons_append, List.nil_append, List.lookup_cons, hid]
    cases OrderedMap.get? r.properties "id" with
    | none => simp [compact_ofNat, Json.plain, arrow]
    | some v => simp [Json.plain]
  refine (ofJson_object hhead).trans ?_
  rw [List.filter_append, Bag.filter_membersBut (by decide)]
  rfl

theorem append_cons_ne_cons_append {α : Type} {c d : α} (h : c ≠ d) (l a b : List α) :
    l ++ c :: a ≠ d :: (l ++ b) := by
  induction l with
  | nil =>
    intro heq
    exact h (List.cons.inj heq).1
  | cons e l ih =>
    intro heq
    obtain ⟨rfl, htail⟩ := List.cons.inj heq
    exact ih htail

theorem exists_listing_eq (head : String) (members : List (String × Json)) :
    ∃ rest, listing head members = head ++ rest := by
  cases members with
  | nil => exact ⟨"", (String.append_empty).symm⟩
  | cons m rest => exact ⟨_, String.append_assoc⟩

/-- The cell of a relationship with a property `id` does not say that it is one. -/
theorem listing_ne_listing_arrow (r : Relationship) (v : Json) (l m : List (String × Json)) :
    listing (r.kind ++ ":" ++ v.compact) l ≠ listing (arrow r) m := by
  obtain ⟨a, ha⟩ := exists_listing_eq (r.kind ++ ":" ++ v.compact) l
  obtain ⟨b, hb⟩ := exists_listing_eq (arrow r) m
  rw [ha, hb]
  intro heq
  have hchars := congrArg String.toList heq
  simp only [arrow, String.toList_append, List.append_assoc] at hchars
  exact append_cons_ne_cons_append (by decide) r.kind.toList _ _ hchars

/-- Cells of the entities of a store. The cell of a node says its identity and lists its
properties but `type`, `from` and `to`; so it leaves something out exactly if the node has a
property `from` or `to`. The cell of a relationship says its kind and its ends and lists its
properties but for `type`, `from` and `to`, unless it has a property `id`: then the cell is one
of a node with that id, and the ends are not said. -/
theorem ofJson_record {s : Store} (h : s.Reachable) :
    (∀ n ∈ s.nodeList,
      ofJson n.record =
        listing n.key.display (Bag.membersBut ["type", "from", "to"] n.properties) ∧
      (ofJson n.record = listing n.key.display (Bag.membersBut ["type"] n.properties) ↔
        OrderedMap.get? n.properties "from" = none ∧
          OrderedMap.get? n.properties "to" = none)) ∧
    ∀ r ∈ s.relationshipList,
      (∀ v, OrderedMap.get? r.properties "id" = some v → ofJson r.record =
        listing (r.kind ++ ":" ++ v.toJson.compact)
          (Bag.membersBut ["id", "type", "from", "to"] r.properties)) ∧
      (ofJson r.record = listing (arrow r) (Bag.membersBut ["type", "from", "to"] r.properties) ↔
        OrderedMap.get? r.properties "id" = none) := by
  have hid : ∀ b : Bag, OrderedMap.get? b "id" = none → Bag.membersBut identifying b =
      Bag.membersBut ["type", "from", "to"] b := by
    intro b hnone
    refine (Bag.membersBut_eq_iff (by decide)).2 fun name hmem hout => ?_
    obtain rfl : name = "id" := by simp_all [identifying]
    exact hnone
  constructor
  · intro n hn
    rw [ofJson_node, hid _ (h.invariant.node_storable hn).no_id]
    refine ⟨rfl, ?_⟩
    rw [listing_eq_iff (Bag.membersBut_sublist (by decide)), Bag.membersBut_eq_iff (by decide)]
    simp
  · intro r _
    rw [ofJson_relationship, relationshipHead]
    cases hget : OrderedMap.get? r.properties "id" with
    | none =>
      refine ⟨?_, iff_of_true (by rw [hid _ hget]) rfl⟩
      rintro _ ⟨⟩
    | some v =>
      refine ⟨?_, iff_of_false (listing_ne_listing_arrow r _ _ _) (by simp)⟩
      rintro _ ⟨⟩
      rfl

/-- The node there whose property `from` its cell leaves out. -/
def misleadingNode : Node := ⟨⟨"Person", 2⟩, .ofList [("from", .integer 5)]⟩

theorem ofJson_record_misleading :
    (misleadingNode ∈ Store.misleading.nodeList ∧
      Store.misleadingRelationship ∈ Store.misleading.relationshipList) ∧
    ofJson misleadingNode.record = listing misleadingNode.key.display
      (Bag.membersBut ["type", "from", "to"] misleadingNode.properties) ∧
    ofJson Store.misleadingRelationship.record =
      listing ("KNOWS" ++ ":" ++ (Value.integer 99).toJson.compact)
        (Bag.membersBut ["id", "type", "from", "to"] Store.misleadingRelationship.properties) := by
  obtain ⟨hnodes, hrelationships⟩ := ofJson_record Store.reachable_misleading
  have hnode : misleadingNode ∈ Store.misleading.nodeList := by decide
  exact ⟨⟨hnode, Store.live_misleadingRelationship⟩, (hnodes _ hnode).1,
    (hrelationships _ Store.live_misleadingRelationship).1 _ rfl⟩

/-- A node whose cell leaves out a property, and a relationship whose cell is that of a node. -/
theorem misleading_cells : Store.misleading.Reachable ∧
    misleadingNode ∈ Store.misleading.nodeList ∧
    ofJson misleadingNode.record = "Person:2" ∧
    listing misleadingNode.key.display (Bag.membersBut ["type"] misleadingNode.properties) =
      "Person:2 \x7b\"from\":5\x7d" ∧
    Store.misleadingRelationship ∈ Store.misleading.relationshipList ∧
    ofJson Store.misleadingRelationship.record = "KNOWS:99" ∧
    listing (arrow Store.misleadingRelationship)
        (Bag.membersBut ["type", "from", "to"] Store.misleadingRelationship.properties) =
      "[KNOWS] 1 -> 2 \x7b\"id\":99\x7d" := by
  exact ⟨Store.reachable_misleading, by decide +kernel⟩

end Cell

end PropertyGraph
