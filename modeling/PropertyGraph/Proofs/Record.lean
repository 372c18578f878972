import PropertyGraph.Proofs.Entity
import PropertyGraph.Record

/-! What a record shows and what a condition reads. Under a name that identifies nothing both
have the property of that name. The id of a node is in its record too, and since no node carries
a property `id` both have the id. The record of a relationship has no place for its id: under
the name `id` it shows the property, if there is one, and a condition reads the id all the
same. -/

namespace PropertyGraph

/-! ### Members of a record -/

theorem Bag.mem_members_iff {b : Bag} {name : String} {j : Json} :
    (name, j) ∈ Bag.members b ↔ ∃ v, OrderedMap.get? b name = some v ∧ v.toJson = j := by
  simp only [Bag.members, List.mem_map, OrderedMap.get?_eq_some_iff, Prod.exists, Prod.mk.injEq]
  constructor
  · rintro ⟨_, v, hmem, rfl, hj⟩
    exact ⟨v, hmem, hj⟩
  · rintro ⟨v, hmem, hj⟩
    exact ⟨name, v, hmem, rfl, hj⟩

namespace Entity

variable {s : Store} {e : Entity} {name : String} {j : Json}

def bag : Entity → Bag
  | .node n => n.properties
  | .relationship r => r.properties

/-- What a record starts with. -/
def head : Entity → List (String × Json)
  | .node n => [("id", .ofNat n.key.id), ("type", .string n.label)]
  | .relationship r =>
    [("type", .string r.kind), ("from", .ofNat r.source.id), ("to", .ofNat r.target.id)]

theorem record_eq (e : Entity) : e.record = withProperties e.head e.bag := by cases e <;> rfl

/-- The record of the entity has the value under the name. -/
def Shows (e : Entity) (name : String) (j : Json) : Prop :=
  ∃ members, e.record = .object members ∧ (name, j) ∈ members

/-- A record shows its head, and the properties whose names are not in the head. -/
theorem shows_iff : e.Shows name j ↔ (name, j) ∈ e.head ∨ name ∉ e.head.map Prod.fst ∧
    ∃ v, OrderedMap.get? e.bag name = some v ∧ v.toJson = j := by
  rw [Shows, record_eq, withProperties]
  simp only [Json.object.injEq, exists_eq_left', List.mem_append, List.mem_filter,
    Bag.mem_members_iff]
  simp [and_comm]

theorem shows_iff_of_not_mem (hname : name ∉ e.head.map Prod.fst) :
    e.Shows name j ↔ ∃ v, OrderedMap.get? e.bag name = some v ∧ v.toJson = j := by
  have hhead : (name, j) ∉ e.head := fun h => hname (List.mem_map.2 ⟨_, h, rfl⟩)
  rw [shows_iff, or_iff_right hhead, and_iff_right hname]

theorem property?_eq_get? (hname : name ≠ "id") :
    e.property? name = OrderedMap.get? e.bag name := by
  cases e with
  | node n => rw [property?, if_neg hname, Option.or_none, bag]
  | relationship r => rw [property?, if_neg hname, bag]

/-- The record of a node shows its id. -/
theorem shows_id_iff {n : Node} : (node n).Shows "id" j ↔ Json.ofNat (node n).id = j := by
  simp [shows_iff, head, id, eq_comm]

/-- An id in a record is the id as a value. -/
theorem toJson_ofNat {id : Nat} (h : id ≤ greatestId) :
    (Value.integer (.ofNat id)).toJson = .ofNat id := by
  rw [Value.toJson, toInt_ofNat_of_le h, Json.ofNat]

/-- What a condition finds under a name is the value that it compares. -/
theorem eval_comparison {env : Environment} {x : String} (hx : env x = some e) {v : Value}
    (hv : e.property? name = some v) (op : Operator) (w : Value) :
    (Condition.comparison x name op w).eval env = op.holds v w := by
  rw [Condition.eval, hx, Option.bind_some, hv]

/-! ### Agreement -/

/-- Records and conditions agree. Under every name but `type`, `from` and `to`, and but `id` on
a relationship, the record of an entity of the store shows just what the name denotes, and a
condition on it is about the value that is shown. Under `id` the record of a relationship shows
the property of that name, and conditions have its own id there. -/
theorem shows_iff_property? (h : s.Reachable) (he : e.Live s) :
    (∀ name, name ∉ ["type", "from", "to"] → (name = "id" → ∃ n, e = .node n) → ∀ j,
      (e.Shows name j ↔ ∃ v, e.property? name = some v ∧ v.toJson = j) ∧
      (e.Shows name j → ∀ env x, env x = some e → ∃ v, v.toJson = j ∧
        ∀ op w, (Condition.comparison x name op w).eval env = op.holds v w)) ∧
    ∀ r, e = .relationship r →
      (∀ j, e.Shows "id" j ↔ ∃ v, OrderedMap.get? r.properties "id" = some v ∧ v.toJson = j) ∧
      e.property? "id" = some (.integer (.ofNat r.id)) := by
  constructor
  · intro name hname hid j
    have hshows : e.Shows name j ↔ ∃ v, e.property? name = some v ∧ v.toJson = j := by
      by_cases heq : name = "id"
      · subst heq
        obtain ⟨n, rfl⟩ := hid rfl
        rw [shows_id_iff, he.property?_id h.invariant, ← toJson_ofNat (he.id_le h.invariant)]
        simp
      · have hhead : name ∉ e.head.map Prod.fst := by
          simp only [List.mem_cons, List.not_mem_nil, or_false, not_or] at hname
          cases e <;> simp [head, hname, heq]
        rw [shows_iff_of_not_mem hhead, property?_eq_get? heq]
    refine ⟨hshows, fun hshown env x hx => ?_⟩
    obtain ⟨v, hv, hj⟩ := hshows.1 hshown
    exact ⟨v, hj, eval_comparison hx hv⟩
  · rintro r rfl
    exact ⟨fun j => shows_iff_of_not_mem (by simp [head]), he.property?_id h.invariant⟩

theorem shows_iff_property?_misleading :
    ((relationship Store.misleadingRelationship).Live .misleading ∧
      ((relationship Store.misleadingRelationship).Shows "id" (.ofNat 99) ↔
        ∃ v, OrderedMap.get? Store.misleadingRelationship.properties "id" = some v ∧
          v.toJson = .ofNat 99) ∧
      (relationship Store.misleadingRelationship).property? "id" =
        some (.integer (.ofNat 1))) ∧
    ∃ n, n.key = ⟨"Person", 2⟩ ∧ (node n).Live .misleading ∧ (node n).Shows "id" (.ofNat 2) ∧
      (∃ v, (node n).property? "id" = some v ∧ v.toJson = .ofNat 2) ∧
      ∀ env x, env x = some (node n) → ∃ v, v.toJson = .ofNat 2 ∧
        ∀ op w, (Condition.comparison x "id" op w).eval env = op.holds v w := by
  obtain ⟨hshows, hid⟩ := (shows_iff_property? Store.reachable_misleading
    Store.live_misleadingRelationship).2 _ rfl
  refine ⟨⟨Store.live_misleadingRelationship, hshows _, hid⟩,
    ⟨⟨"Person", 2⟩, .ofList [("from", .integer 5)]⟩, rfl, ?_⟩
  have hlive : (node ⟨⟨"Person", 2⟩, .ofList [("from", .integer 5)]⟩).Live Store.misleading := by
    decide
  have hshown : (node ⟨⟨"Person", 2⟩, .ofList [("from", .integer 5)]⟩).Shows "id" (.ofNat 2) :=
    shows_id_iff.2 rfl
  obtain ⟨hiff, heval⟩ := (shows_iff_property? Store.reachable_misleading hlive).1 "id"
    (by decide) (fun _ => ⟨_, rfl⟩) (.ofNat 2)
  exact ⟨hlive, hshown, hiff.1 hshown, heval hshown⟩

/-- The record of a relationship may show under `id` what no condition on it is about. -/
theorem shows_id_of_property : Store.misleading.Reachable ∧
    (relationship Store.misleadingRelationship).Live .misleading ∧
    (relationship Store.misleadingRelationship).Shows "id" (.ofNat 99) ∧
    ¬ ∃ v, (relationship Store.misleadingRelationship).property? "id" = some v ∧
      v.toJson = .ofNat 99 := by
  refine ⟨Store.reachable_misleading, Store.live_misleadingRelationship, ⟨_, rfl, ?_⟩, ?_⟩
  · exact .tail _ (.tail _ (.tail _ (.head _)))
  · rintro ⟨v, hv, hj⟩
    cases hv
    cases hj

end Entity

end PropertyGraph
