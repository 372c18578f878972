import PropertyGraph.Json.Shape
import PropertyGraph.Proofs.Except
import PropertyGraph.Proofs.Json.Reading
import PropertyGraph.Proofs.OrderedMap

/-! Written structures are read back. An object whose members are the fields of a
structure, in any number and each once, is read as these fields; lists and maps are read
back if their items are. -/

namespace PropertyGraph

namespace Json

namespace Source

variable {room : Nat}

theorem word64?_ofNat {n : Nat} (h : n < 2 ^ 64) : word64? room (ofJson (.ofNat n)) = some n := by
  have hword : (n : Int) < UInt64.size := Int.ofNat_lt.2 h
  rw [Json.ofNat, ofJson, word64?, NumberLiteral.value?_ofInt (by omega) (by omega)]
  simp only [Int.natCast_nonneg, hword, and_self, if_true, Int.toNat_natCast]

theorem knownMembers?_ofMembers {names : List String} {ms : List (String × Json)}
    (hnames : ∀ m ∈ ms, m.1 ∈ names) (hnodup : (ms.map Prod.fst).Nodup) :
    knownMembers? names (ofMembers ms) = some (ms.map fun (k, x) => (k, ofJson x)) := by
  induction ms with
  | nil => rfl
  | cons m rest ih =>
    obtain ⟨k, x⟩ := m
    obtain ⟨hname, hrest⟩ := List.forall_mem_cons.1 hnames
    rw [List.map_cons, List.nodup_cons] at hnodup
    have hnew : ((rest.map fun (k, x) => (k, ofJson x)).any (·.1 == k)) = false := by
      rw [List.any_eq_false]
      intro e he
      obtain ⟨m, hm, rfl⟩ := List.mem_map.1 he
      rw [beq_iff_eq]
      intro hk
      exact hnodup.1 (List.mem_map.2 ⟨m, hm, hk⟩)
    rw [ofMembers, knownMembers?, ih hrest hnodup.2]
    simp only [Option.bind_eq_bind, Option.bind_some, if_pos hname, hnew, Bool.false_eq_true,
      if_false, List.map_cons]

/-- A structure that is written as an object has its fields. -/
theorem fields?_ofJson (names : List String) {ms : List (String × Json)}
    (hnames : ms.map Prod.fst = names) (hnodup : names.Nodup) :
    fields? names (room + 1) (ofJson (.object ms)) =
      some ⟨ms.map fun (k, x) => (k, ofJson x), room⟩ := by
  subst hnames
  rw [ofJson, fields?, knownMembers?_ofMembers (fun m => List.mem_map_of_mem) hnodup]
  rfl

theorem listOf?_ofItems {α : Type} {read : Nat → Source → Option α} {toJson : α → Json}
    {items : List α} (h : ∀ a ∈ items, read room (ofJson (toJson a)) = some a) :
    listOf? read (room + 1) (.array (ofItems (items.map toJson))) = some items := by
  rw [listOf?]
  induction items with
  | nil => rfl
  | cons a rest ih =>
    obtain ⟨ha, hrest⟩ := List.forall_mem_cons.1 h
    rw [List.map_cons, ofItems, List.mapM_cons, ha, ih hrest]
    rfl

theorem mapM_ofMembers {l : List (String × Json)}
    (h : ∀ e ∈ l, json? room (ofJson e.2) = some e.2) :
    (ofMembers l).mapM (fun (key, s) => do
      let key ← key
      let x ← json? room s
      some (key, x)) = some l := by
  induction l with
  | nil => rfl
  | cons e rest ih =>
    obtain ⟨he, hrest⟩ := List.forall_mem_cons.1 h
    rw [ofMembers, List.mapM_cons, ih hrest]
    simp only [he, Option.bind_eq_bind, Option.bind_some]
    rfl

theorem mapOf?_ofMembers {m : OrderedMap String Json}
    (h : ∀ e ∈ m.entries, json? room (ofJson e.2) = some e.2) :
    mapOf? json? (room + 1) (.object (ofMembers m.entries)) = some m := by
  rw [mapOf?, mapM_ofMembers h, Option.bind_eq_bind, Option.bind_some, m.ofList_entries]

/-! ### What was written -/

theorem ofItems_eq_map (items : List Json) : ofItems items = items.map ofJson := by
  induction items with
  | nil => rfl
  | cons x rest ih => rw [ofItems, ih, List.map_cons]

theorem ofMembers_eq_map (ms : List (String × Json)) :
    ofMembers ms = ms.map fun (k, x) => (some k, ofJson x) := by
  induction ms with
  | nil => rfl
  | cons m rest ih => rw [ofMembers, ih, List.map_cons]

/-- A list that is read from a written one has an item for each that was written. -/
theorem forall₂_of_listOf? {α β : Type} {read : Nat → Source → Option β} {toJson : α → Json}
    {items : List α} {out : List β}
    (h : listOf? read (room + 1) (.array (ofItems (items.map toJson))) = some out) :
    List.Forall₂ (fun a b => read room (ofJson (toJson a)) = some b) items out := by
  rw [listOf?, ofItems_eq_map, List.map_map] at h
  exact List.forall₂_map_left_iff.1 (forall₂_of_mapM_eq_some h)

theorem keys_eq_of_forall₂ {α β : Type} {l : List (String × α)} {out : List (String × β)}
    (h : List.Forall₂ (fun e e' => e'.1 = e.1) l out) : out.map Prod.fst = l.map Prod.fst := by
  induction h with
  | nil => rfl
  | cons he _ ih => rw [List.map_cons, List.map_cons, he, ih]

/-- A map that is read from a written one has a value for each name that was written. -/
theorem forall₂_of_mapOf? {m out : OrderedMap String Json}
    (h : mapOf? json? (room + 1) (.object (ofMembers m.entries)) = some out) :
    List.Forall₂ (fun e e' => e'.1 = e.1 ∧ json? room (ofJson e.2) = some e'.2)
      m.entries out.entries := by
  rw [mapOf?, Option.bind_eq_bind, Option.bind_eq_some_iff] at h
  obtain ⟨es, hes, h⟩ := h
  rw [ofMembers_eq_map] at hes
  have hread : List.Forall₂ (fun e e' => e'.1 = e.1 ∧ json? room (ofJson e.2) = some e'.2)
      m.entries es := by
    refine (List.forall₂_map_left_iff.1 (forall₂_of_mapM_eq_some hes)).imp fun e e' he => ?_
    simp only [Option.bind_eq_bind, Option.bind_eq_some_iff, Option.some.injEq] at he
    obtain ⟨key, rfl, x, hx, rfl⟩ := he
    exact ⟨rfl, hx⟩
  have hkeys := keys_eq_of_forall₂ (hread.imp fun _ _ he => he.1)
  have hentries : (OrderedMap.ofList es).entries = es :=
    OrderedMap.entries_insertAll (hkeys ▸ m.nodup)
  cases h
  rw [hentries]
  exact hread

end Source

end Json

end PropertyGraph
