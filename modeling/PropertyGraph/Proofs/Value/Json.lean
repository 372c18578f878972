import PropertyGraph.Document
import PropertyGraph.Proofs.Except
import PropertyGraph.Proofs.Json.Reading
import PropertyGraph.Proofs.Value.Storable

/-! Values in JSON and back. A value that may be stored is read again from its JSON as it
was, of the same kind at every depth of its arrays: an integer stays an integer, and a
float a float with the same sign and rank. So is a bag, with its properties in order. The
text of a value gives the value again exactly if its arrays do not nest too deep and the
text of each float in it gives that float. -/

namespace PropertyGraph

/-- The text of the double is read as the double. -/
def Double.Rereads (x : Double) : Prop :=
  Json.read (Json.compact (.number (.float x))) = some (.number (.float x))

theorem Double.rereads_iff {x : Double} (hx : x.isFinite = true) :
    x.Rereads ↔ (Json.NumberLiteral.ofDouble x).value? = some (.float x) := by
  rw [Rereads, Json.read, Json.compact, Json.Source.read_write .compact (.float hx)]
  simp [Json.Source.ofJson, Json.Source.json?]

namespace Value

theorem int64?_toInt (n : Int64) : int64? n.toInt = some n := by
  rw [int64?, if_pos ⟨n.le_toInt, n.toInt_lt⟩, Int64.ofInt_toInt]

mutual

theorem ofJson_toJson : (v : Value) → v.IsFinite → ofJson v.toJson = .ok v
  | .text s, _ => by rw [toJson, ofJson]
  | .integer n, _ => by
    have hfinite : (Value.integer n).objection? = none := rfl
    simp only [toJson, ofJson, ofNumber, int64?_toInt, hfinite]
  | .float x, h => by
    simp only [toJson, if_pos (isFinite_float_iff.1 h), ofJson, ofNumber,
      objection?_eq_none_iff.2 h]
  | .boolean b, _ => by rw [toJson, ofJson]
  | .array items, h => by
    rw [toJson, ofJson, itemsOfJson_itemsToJson items (isFinite_array_iff.1 h)]
    rfl

theorem itemsOfJson_itemsToJson : (items : List Value) → (∀ v ∈ items, v.IsFinite) →
    itemsOfJson (itemsToJson items) = .ok items
  | [], _ => by rw [itemsToJson, itemsOfJson]
  | v :: rest, h => by
    obtain ⟨hv, hrest⟩ := List.forall_mem_cons.1 h
    rw [itemsToJson, itemsOfJson, ofJson_toJson v hv, itemsOfJson_itemsToJson rest hrest]
    rfl

end

/-! ### Text -/

mutual

/-- How deep arrays nest in the value. -/
def depth : Value → Nat
  | .array items => depthOfItems items + 1
  | _ => 0

def depthOfItems : List Value → Nat
  | [] => 0
  | v :: rest => max v.depth (depthOfItems rest)

end

/-- No float stands inside the value. -/
def IsFloatFree (v : Value) : Prop := ∀ x : Double, ¬ Within (.float x) v

theorem isFloatFree_array_iff {items : List Value} :
    IsFloatFree (.array items) ↔ ∀ v ∈ items, IsFloatFree v := forall_within_array_iff

mutual

def decFloatFree : (v : Value) → Decidable v.IsFloatFree
  | .text _ | .integer _ | .boolean _ => isTrue nofun
  | .float x => isFalse fun h => h x (.self _)
  | .array items =>
    @decidable_of_iff _ (∀ v ∈ items, v.IsFloatFree) isFloatFree_array_iff.symm
      (decItemsFloatFree items)

def decItemsFloatFree : (items : List Value) → Decidable (∀ v ∈ items, v.IsFloatFree)
  | [] => isTrue nofun
  | v :: rest =>
    @decidable_of_iff _ (v.IsFloatFree ∧ ∀ w ∈ rest, w.IsFloatFree) List.forall_mem_cons.symm
      (@instDecidableAnd _ _ (decFloatFree v) (decItemsFloatFree rest))

end

instance : DecidablePred IsFloatFree := decFloatFree

mutual

theorem isFinite_toJson : (v : Value) → v.toJson.IsFinite
  | .text s => .string s
  | .integer n => .integer n.toInt
  | .float x => by
    rw [toJson]
    split
    · next hx => exact .float hx
    · exact .null
  | .boolean b => .boolean b
  | .array items => .array (isFinite_itemsToJson items)

theorem isFinite_itemsToJson : (items : List Value) → ∀ x ∈ itemsToJson items, x.IsFinite
  | [] => nofun
  | v :: rest => by
    rw [itemsToJson, List.forall_mem_cons]
    exact ⟨isFinite_toJson v, isFinite_itemsToJson rest⟩

end

/-- The text of each float in the value gives that float. -/
def Rereads (v : Value) : Prop := ∀ x : Double, Within (.float x) v → x.Rereads

theorem rereads_float_iff {x : Double} : Rereads (.float x) ↔ x.Rereads := by
  constructor
  · intro h
    exact h x (.self _)
  · intro h y hy
    cases hy with
    | self => exact h

theorem rereads_array_iff {items : List Value} :
    Rereads (.array items) ↔ ∀ v ∈ items, Rereads v := forall_within_array_iff

theorem IsFloatFree.rereads {v : Value} (h : v.IsFloatFree) : v.Rereads :=
  fun x hx => absurd hx (h x)

section

open Json Source

mutual

/-- The tree of a value stands for the value if there is room for its arrays. -/
theorem json?_ofJson_toJson : (v : Value) → v.Rereads → {room : Nat} → v.depth ≤ room →
    json? room (Source.ofJson v.toJson) = some v.toJson
  | .text s, _, _, _ => rfl
  | .integer n, _, _, _ => by
    have hmin : -2 ^ 63 ≤ n.toInt := n.le_toInt
    have hmax : n.toInt < 2 ^ 63 := n.toInt_lt
    rw [toJson, Source.ofJson, json?, NumberLiteral.value?_ofInt hmin (by omega)]
    rfl
  | .float x, h, _, _ => by
    rw [toJson]
    split
    · next hx =>
      rw [Source.ofJson, json?, (Double.rereads_iff hx).1 (rereads_float_iff.1 h)]
      rfl
    · rfl
  | .boolean b, _, _, _ => rfl
  | .array items, h, room + 1, hroom => by
    rw [depth] at hroom
    rw [toJson, Source.ofJson, json?,
      jsonItems?_ofItems_itemsToJson items (rereads_array_iff.1 h) (by omega)]
    rfl

theorem jsonItems?_ofItems_itemsToJson : (items : List Value) → (∀ v ∈ items, v.Rereads) →
    {room : Nat} → depthOfItems items ≤ room →
    jsonItems? room (ofItems (itemsToJson items)) = some (itemsToJson items)
  | [], _, _, _ => rfl
  | v :: rest, h, room, hroom => by
    obtain ⟨hv, hrest⟩ := List.forall_mem_cons.1 h
    rw [depthOfItems] at hroom
    rw [itemsToJson, ofItems, jsonItems?, json?_ofJson_toJson v hv (by omega),
      jsonItems?_ofItems_itemsToJson rest hrest (by omega)]
    rfl

end

mutual

/-- If the tree of a value gives the value again, there is room for its arrays and its floats
are reread. -/
theorem legible_of_json? : (v : Value) → v.IsFinite → {room : Nat} → {j : Json} →
    json? room (Source.ofJson v.toJson) = some j → ofJson j = .ok v → v.depth ≤ room ∧ v.Rereads
  | .text s, _, _, _, _, _ => ⟨Nat.zero_le _, nofun⟩
  | .integer n, _, _, _, _, _ => ⟨Nat.zero_le _, nofun⟩
  | .boolean b, _, _, _, _, _ => ⟨Nat.zero_le _, nofun⟩
  | .float x, hx, _, j, hj, hv => by
    rw [isFinite_float_iff] at hx
    rw [toJson, if_pos hx, Source.ofJson, json?] at hj
    obtain ⟨n, hn, rfl⟩ := Option.map_eq_some_iff.1 hj
    obtain ⟨y, rfl⟩ := NumberLiteral.value?_eq_float (NumberLiteral.ofDouble_spec hx).2.1 hn
    have hy : y = x := by
      simp only [ofJson, ofNumber] at hv
      split at hv
      · cases hv
      · cases hv
        rfl
    exact ⟨Nat.zero_le _, rereads_float_iff.2 ((Double.rereads_iff hx).2 (hy ▸ hn))⟩
  | .array items, hitems, 0, j, hj, _ => by
    rw [toJson, Source.ofJson, json?] at hj
    cases hj
  | .array items, hitems, room + 1, j, hj, hv => by
    rw [toJson, Source.ofJson, json?] at hj
    obtain ⟨js, hjs, rfl⟩ := Option.map_eq_some_iff.1 hj
    have hvs : itemsOfJson js = .ok items := by
      rw [ofJson] at hv
      cases hjs : itemsOfJson js with
      | error why =>
        rw [hjs] at hv
        cases hv
      | ok vs =>
        rw [hjs] at hv
        cases hv
        rfl
    obtain ⟨hdepth, hrereads⟩ :=
      legible_of_jsonItems? items (isFinite_array_iff.1 hitems) hjs hvs
    rw [depth, rereads_array_iff]
    exact ⟨Nat.succ_le_succ hdepth, hrereads⟩

theorem legible_of_jsonItems? : (items : List Value) → (∀ v ∈ items, v.IsFinite) → {room : Nat} →
    {js : List Json} → jsonItems? room (ofItems (itemsToJson items)) = some js →
    itemsOfJson js = .ok items → depthOfItems items ≤ room ∧ ∀ v ∈ items, v.Rereads
  | [], _, _, _, _, _ => ⟨Nat.zero_le _, nofun⟩
  | v :: rest, h, room, js, hjs, hvs => by
    obtain ⟨hv, hrest⟩ := List.forall_mem_cons.1 h
    rw [itemsToJson, ofItems, jsonItems?] at hjs
    simp only [Option.bind_eq_bind, Option.bind_eq_some_iff, Option.some.injEq] at hjs
    obtain ⟨j, hj, js, hjs, rfl⟩ := hjs
    rw [itemsOfJson, bind_eq_ok_iff] at hvs
    obtain ⟨w, hw, hvs⟩ := hvs
    rw [bind_eq_ok_iff] at hvs
    obtain ⟨ws, hws, hvs⟩ := hvs
    cases hvs
    obtain ⟨hdepth, hv⟩ := legible_of_json? v hv hj hw
    obtain ⟨hdepths, hrest⟩ := legible_of_jsonItems? rest hrest hjs hws
    rw [depthOfItems, List.forall_mem_cons]
    exact ⟨Nat.max_le.2 ⟨hdepth, hdepths⟩, hv, hrest⟩

end

end

end Value

/-! ### Bags -/

namespace Bag

theorem ofEntries_toJson {l : List (String × Value)} (h : ∀ e ∈ l, e.2.IsFinite) :
    ofEntries (l.map fun (k, v) => (k, v.toJson)) = .ok l := by
  induction l with
  | nil => rfl
  | cons e rest ih =>
    obtain ⟨k, v⟩ := e
    obtain ⟨hv, hrest⟩ := List.forall_mem_cons.1 h
    rw [List.map_cons, ofEntries, Value.ofJson_toJson v hv, ih hrest]
    rfl

theorem ofJsonMap_toJsonMap {b : Bag} (h : b.Storable) : ofJsonMap (toJsonMap b) = .ok b := by
  have hfinite : ∀ e ∈ b.entries, e.2.IsFinite := fun e he =>
    (h e.1 e.2 (OrderedMap.get?_eq_some_iff.2 he)).2
  rw [ofJsonMap, toJsonMap, ofEntries_toJson hfinite]
  exact congrArg Except.ok b.ofList_entries

end Bag

namespace NodeEntry

theorem node_ofNode {n : Node} (h : n.Storable) : (ofNode n).node = .ok n := by
  rw [node, ofNode, Bag.ofJsonMap_toJsonMap h.properties]
  rfl

end NodeEntry

namespace RelationshipEntry

theorem relationship_ofRelationship {r : Relationship} (h : r.Storable) :
    (ofRelationship r).relationship = .ok r := by
  rw [relationship, ofRelationship, Bag.ofJsonMap_toJsonMap h.properties]
  rfl

end RelationshipEntry

end PropertyGraph
