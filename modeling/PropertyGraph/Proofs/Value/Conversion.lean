import PropertyGraph.Proofs.Double.Rounding
import PropertyGraph.Proofs.Except
import PropertyGraph.Proofs.Value.Json

/-! Which JSON values are values. The first null or object in a value, at any depth of its
arrays, is what is wrong with it. A value without them is taken over; written again it is
what it was, but that integers beyond the signed 64-bit ones are now doubles. -/

namespace PropertyGraph

/-- An integer of 64 bits, signed or not, or a double that is finite: the numbers that the
text of a document can give. -/
def JsonNumber.Fits : JsonNumber → Prop
  | .integer n => -2 ^ 63 ≤ n ∧ n < 2 ^ 64
  | .float x => x.isFinite = true

/-- An integer that no signed word holds becomes a double. -/
def JsonNumber.rounded : JsonNumber → JsonNumber
  | .integer n => if 2 ^ 63 ≤ n then .float (.ofInt n) else .integer n
  | .float x => .float x

namespace Json

/-- All numbers in the value fit. -/
inductive Fits : Json → Prop where
  | null : Fits .null
  | boolean (b : Bool) : Fits (.boolean b)
  | number {n : JsonNumber} : n.Fits → Fits (.number n)
  | string (s : String) : Fits (.string s)
  | array {items : List Json} : (∀ x ∈ items, Fits x) → Fits (.array items)
  | object {members : List (String × Json)} : (∀ m ∈ members, Fits m.2) → Fits (.object members)

/-- Neither null nor an object stands anywhere in the value. -/
inductive Plain : Json → Prop where
  | boolean (b : Bool) : Plain (.boolean b)
  | number (n : JsonNumber) : Plain (.number n)
  | string (s : String) : Plain (.string s)
  | array {items : List Json} : (∀ x ∈ items, Plain x) → Plain (.array items)

theorem plain_array_iff {items : List Json} : Plain (.array items) ↔ ∀ x ∈ items, Plain x := by
  constructor
  · rintro ⟨⟩
    assumption
  · exact .array

mutual

/-- The first null or object in a value. -/
def foreign? : Json → Option Objection
  | .null => some .nullValue
  | .object _ => some .nestedObject
  | .array items => foreignItem? items
  | .boolean _ | .number _ | .string _ => none

def foreignItem? : List Json → Option Objection
  | [] => none
  | x :: rest => (foreign? x).or (foreignItem? rest)

end

mutual

theorem foreign?_eq_none_iff : (j : Json) → (j.foreign? = none ↔ j.Plain)
  | .null => by
    rw [foreign?]
    exact ⟨nofun, nofun⟩
  | .object members => by
    rw [foreign?]
    exact ⟨nofun, nofun⟩
  | .boolean b => by
    rw [foreign?]
    exact ⟨fun _ => .boolean b, fun _ => rfl⟩
  | .number n => by
    rw [foreign?]
    exact ⟨fun _ => .number n, fun _ => rfl⟩
  | .string s => by
    rw [foreign?]
    exact ⟨fun _ => .string s, fun _ => rfl⟩
  | .array items => by
    rw [foreign?, foreignItem?_eq_none_iff items, plain_array_iff]

theorem foreignItem?_eq_none_iff :
    (items : List Json) → (foreignItem? items = none ↔ ∀ x ∈ items, x.Plain)
  | [] => by simp [foreignItem?]
  | x :: rest => by
    rw [foreignItem?, Option.or_eq_none_iff, foreign?_eq_none_iff x,
      foreignItem?_eq_none_iff rest, List.forall_mem_cons]

end

mutual

/-- The value with all its numbers rounded. -/
def rounded : Json → Json
  | .number n => .number n.rounded
  | .array items => .array (roundedItems items)
  | .null => .null
  | .boolean b => .boolean b
  | .string s => .string s
  | .object members => .object members

def roundedItems : List Json → List Json
  | [] => []
  | x :: rest => rounded x :: roundedItems rest

end

end Json

namespace Value

/-- A number that fits is taken over as a finite value, which is written as the rounded
number. -/
theorem ofNumber_of_fits {n : JsonNumber} (h : n.Fits) :
    (ofNumber n).toJson = .number n.rounded ∧ (ofNumber n).IsFinite := by
  cases n with
  | float x =>
    have hx : x.isFinite = true := h
    exact ⟨by simp [ofNumber, toJson, hx, JsonNumber.rounded], isFinite_float_iff.2 hx⟩
  | integer n =>
    obtain ⟨hmin, hmax⟩ : -2 ^ 63 ≤ n ∧ n < 2 ^ 64 := h
    rw [ofNumber, JsonNumber.rounded]
    by_cases hsigned : n < 2 ^ 63
    · have hint : int64? n = some (.ofInt n) := if_pos ⟨hmin, hsigned⟩
      have hround : (Int64.ofInt n).toInt = n := Int64.toInt_ofInt_of_le hmin hsigned
      have hnot : ¬ 2 ^ 63 ≤ n := by omega
      rw [hint, if_neg hnot]
      exact ⟨by rw [toJson, hround], objection?_eq_none_iff.1 rfl⟩
    · have hint : int64? n = none := if_neg fun hrange => hsigned hrange.2
      have hfinite : (Double.ofInt n).isFinite = true := Double.isFinite_ofInt (by omega)
      rw [hint, if_pos (by omega)]
      exact ⟨by simp [toJson, hfinite], isFinite_float_iff.2 hfinite⟩

mutual

theorem judged_ofJson : (j : Json) → j.Fits →
    Judged (ofJson j) j.foreign? fun v => v.toJson = j.rounded ∧ v.IsFinite
  | .null, _ => .error _
  | .object members, _ => .error _
  | .boolean b, _ => .ok ⟨rfl, nofun⟩
  | .string s, _ => .ok ⟨rfl, nofun⟩
  | .number n, h => by
    have hn : n.Fits := by
      cases h
      assumption
    obtain ⟨hjson, hfinite⟩ := ofNumber_of_fits hn
    have hok : ofJson (.number n) = .ok (ofNumber n) := by
      simp only [ofJson, objection?_eq_none_iff.2 hfinite]
    rw [hok]
    exact .ok ⟨hjson, hfinite⟩
  | .array items, h => by
    have hitems : ∀ x ∈ items, x.Fits := by
      cases h
      assumption
    rw [ofJson, Json.foreign?, Json.rounded]
    refine (judged_itemsOfJson items hitems).map fun vs hvs => ?_
    rw [toJson, hvs.1]
    exact ⟨rfl, isFinite_array_iff.2 hvs.2⟩

theorem judged_itemsOfJson : (items : List Json) → (∀ x ∈ items, x.Fits) →
    Judged (itemsOfJson items) (Json.foreignItem? items) fun vs =>
      itemsToJson vs = Json.roundedItems items ∧ ∀ v ∈ vs, v.IsFinite
  | [], _ => .ok ⟨rfl, nofun⟩
  | x :: rest, h => by
    obtain ⟨hx, hrest⟩ := List.forall_mem_cons.1 h
    rw [itemsOfJson, Json.foreignItem?]
    refine (judged_ofJson x hx).bind fun v hv => ?_
    refine (judged_itemsOfJson rest hrest).bind_ok fun vs hvs => ?_
    rw [itemsToJson, Json.roundedItems, hv.1, hvs.1]
    exact ⟨rfl, List.forall_mem_cons.2 ⟨hv.2, hvs.2⟩⟩

end

end Value

/-! ### Bags -/

namespace Bag

/-- The first property whose value is none. -/
def foreign? : List (String × Json) → Option StoreError
  | [] => none
  | (name, x) :: rest => (x.foreign?.map (.invalidProperty name)).or (foreign? rest)

theorem foreign?_eq_none_iff {l : List (String × Json)} :
    foreign? l = none ↔ ∀ e ∈ l, e.2.Plain := by
  induction l with
  | nil => simp [foreign?]
  | cons e rest ih =>
    rw [foreign?, Option.or_eq_none_iff, Option.map_eq_none_iff, Json.foreign?_eq_none_iff, ih,
      List.forall_mem_cons]

/-- The same names with rounded values. -/
def rounded (m : OrderedMap String Json) : OrderedMap String Json where
  entries := m.entries.map fun (k, x) => (k, x.rounded)
  nodup := by simpa [List.map_map, Function.comp_def] using m.nodup

theorem judged_ofEntries {l : List (String × Json)} (h : ∀ e ∈ l, e.2.Fits) :
    Judged (ofEntries l) (foreign? l) fun es =>
      (es.map fun (k, v) => (k, v.toJson)) = (l.map fun (k, x) => (k, x.rounded)) ∧
        ∀ e ∈ es, e.2.IsFinite := by
  induction l with
  | nil => exact .ok ⟨rfl, nofun⟩
  | cons e rest ih =>
    obtain ⟨name, x⟩ := e
    obtain ⟨hx, hrest⟩ := List.forall_mem_cons.1 h
    have hvalue := Value.judged_ofJson x hx
    rw [ofEntries, foreign?]
    cases hfault : x.foreign? with
    | some why =>
      rw [hvalue.eq_error why hfault]
      exact .error _
    | none =>
      obtain ⟨v, hv, hjson, hfinite⟩ := hvalue.eq_ok hfault
      rw [hv, Option.map_none, Option.none_or]
      refine (ih hrest).bind_ok fun es hes => ?_
      simp only [List.map_cons]
      rw [hes.1, hjson]
      exact ⟨rfl, List.forall_mem_cons.2 ⟨hfinite, hes.2⟩⟩

theorem judged_ofJsonMap {m : OrderedMap String Json} (h : ∀ e ∈ m.entries, e.2.Fits) :
    Judged (ofJsonMap m) (foreign? m.entries) fun b =>
      toJsonMap b = rounded m ∧ ∀ e ∈ b.entries, e.2.IsFinite := by
  refine (judged_ofEntries h).bind_ok fun es hes => ?_
  have hkeys : es.map Prod.fst = m.keys := by
    have hfst := congrArg (List.map Prod.fst) hes.1
    simpa [List.map_map, Function.comp_def, OrderedMap.keys] using hfst
  have hentries : (OrderedMap.ofList es).entries = es := by
    refine OrderedMap.entries_insertAll ?_
    rw [hkeys]
    exact m.nodup
  refine ⟨OrderedMap.ext ?_, ?_⟩
  · change (OrderedMap.ofList es).entries.map _ = _
    rw [hentries]
    exact hes.1
  · rw [hentries]
    exact hes.2

/-- A bag has the names that its JSON has. -/
theorem contains_of_toJsonMap {b : Bag} {m : OrderedMap String Json}
    (h : toJsonMap b = rounded m) (name : String) :
    OrderedMap.contains b name = m.contains name := by
  have hkeys : OrderedMap.keys b = m.keys := by
    have hfst := congrArg OrderedMap.keys h
    simpa [toJsonMap, rounded, OrderedMap.keys, List.map_map, Function.comp_def] using hfst
  rw [Bool.eq_iff_iff, ← OrderedMap.mem_keys_iff, ← OrderedMap.mem_keys_iff, hkeys]

end Bag

/-! ### Checks of bags with finite values -/

theorem firstObjection?_of_finite {l : List (String × Value)} (h : ∀ e ∈ l, e.2.IsFinite) :
    firstObjection? l = if "" ∈ l.map Prod.fst then some ("", .emptyName) else none := by
  induction l with
  | nil => rfl
  | cons e rest ih =>
    obtain ⟨name, v⟩ := e
    obtain ⟨hv, hrest⟩ := List.forall_mem_cons.1 h
    have hnone : v.objection? = none := Value.objection?_eq_none_iff.2 hv
    rw [firstObjection?, List.map_cons]
    by_cases hname : name = ""
    · simp [hname]
    · have hname' : ¬ "" = name := fun e => hname e.symm
      simp only [if_neg hname, hnone, ih hrest, List.mem_cons, hname', false_or]

theorem judged_checkProperties {b : Bag} (h : ∀ e ∈ b.entries, e.2.IsFinite) :
    Judged (checkProperties b)
      (if b.contains "" then some (.invalidProperty "" .emptyName) else none)
      fun _ => b.Storable := by
  have hmem : "" ∈ b.entries.map Prod.fst ↔ b.contains "" = true := OrderedMap.mem_keys_iff
  have hcheck : checkProperties b =
      if b.contains "" then .error (.invalidProperty "" .emptyName) else .ok () := by
    rw [checkProperties, firstObjection?_of_finite h]
    by_cases hempty : b.contains "" = true
    · rw [if_pos (hmem.2 hempty), if_pos hempty]
    · rw [if_neg fun hin => hempty (hmem.1 hin), if_neg hempty]
  have hstorable (hno : ¬ b.contains "" = true) : b.Storable :=
    checkProperties_eq_ok_iff.1 (by rw [hcheck, if_neg hno])
  rw [hcheck]
  exact .test _ .rfl hstorable

/-- The bag of a node may not hold the property that is part of its identity. -/
theorem judged_checkNodeProperties {b : Bag} (h : ∀ e ∈ b.entries, e.2.IsFinite) :
    Judged (checkNodeProperties b)
      ((if b.contains "id" then some (.invalidProperty "id" .partOfIdentity) else none).or
        (if b.contains "" then some (.invalidProperty "" .emptyName) else none))
      fun _ => b.Storable ∧ b.get? "id" = none := by
  rw [checkNodeProperties]
  by_cases hid : b.contains "id" = true
  · rw [if_pos hid, if_pos hid, Option.some_or]
    exact .error _
  · rw [if_neg hid, if_neg hid, Option.none_or]
    have hnone : b.get? "id" = none := OrderedMap.contains_eq_false_iff.1 (Bool.eq_false_iff.2 hid)
    exact (judged_checkProperties h).mono fun _ hb => ⟨hb, hnone⟩

theorem judged_checkId (id : Nat) :
    Judged (checkId id)
      (if greatestId < id then some (.invalidProperty "id" (.idTooLarge id)) else none)
      fun _ => id ≤ greatestId :=
  .test _ .rfl Nat.not_lt.1

end PropertyGraph
