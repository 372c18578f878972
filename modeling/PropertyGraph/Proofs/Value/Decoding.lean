import PropertyGraph.Proofs.Json.Range

/-! The two readers of values agree. One evaluates a JSON text and converts what it stands for,
the other tries the kinds of value on the syntax tree in turn. They accept the same texts and
read the same values from them, of the same kind at every depth of the arrays; so do the two
readers of bags, as long as no key of the object is repeated. -/

namespace PropertyGraph

open Json Source

namespace Value

/-- The first kind that a number literal can be read as is that of the number it stands for. -/
theorem ofSource?_number (room : Nat) (l : NumberLiteral) :
    ofSource? room (.number l) = l.value?.map ofNumber := by
  have hkinds : ofSource? room (.number l) =
      (integerOf? (.number l) <|> floatOf? (.number l)) := by
    simp [ofSource?, textOf?, booleanOf?]
  rw [hkinds]
  cases hvalue : l.value? with
  | none => simp [integerOf?, floatOf?, hvalue]
  | some n =>
    cases n with
    | float x => simp [integerOf?, floatOf?, hvalue, ofNumber]
    | integer n => cases hint : int64? n <;> simp [integerOf?, floatOf?, hvalue, ofNumber, hint]

mutual

/-- Trying the kinds comes to converting the value of the tree. -/
theorem ofSource?_eq (room : Nat) : (s : Source) →
    ofSource? room s = (s.json? room).bind fun j => (ofJson j).toOption
  | .null => rfl
  | .boolean b => rfl
  | .string none => rfl
  | .string (some t) => rfl
  | .number l => by
    rw [ofSource?_number, json?]
    cases hvalue : l.value? with
    | none => rfl
    | some n =>
      have hfinite := (ofNumber_of_fits (NumberLiteral.fits_of_value? hvalue)).2
      simp only [Option.map_some, Option.bind_some, ofJson, objection?_eq_none_iff.2 hfinite]
      rfl
  | .array items => by
    cases room with
    | zero => rfl
    | succ room =>
      rw [ofSource?, itemsOfSource?_eq room items, json?, Option.map_bind, Option.bind_map]
      simp only [Function.comp_def, ofJson, toOption_map]
  | .object members => by
    cases room with
    | zero => rfl
    | succ room =>
      rw [json?]
      cases jsonMembers? room members <;> rfl

theorem itemsOfSource?_eq (room : Nat) : (items : List Source) →
    itemsOfSource? room items =
      (jsonItems? room items).bind fun js => (itemsOfJson js).toOption
  | [] => rfl
  | s :: rest => by
    rw [itemsOfSource?, ofSource?_eq room s, itemsOfSource?_eq room rest, jsonItems?]
    cases s.json? room with
    | none => rfl
    | some j =>
      cases jsonItems? room rest with
      | none => simp
      | some js =>
        simp only [itemsOfJson, toOption_bind, Option.bind_eq_bind, Option.bind_some]
        rfl

end

end Value

/-! ### Bags -/

namespace Json.Source

variable {α : Type}

/-- The texts of the keys of an object, in order. -/
def keys : Source → List String
  | .object members => members.filterMap Prod.fst
  | _ => []

/-- One member of an object that is read as a map. -/
def member? (read : Nat → Source → Option α) (room : Nat) (m : Option String × Source) :
    Option (String × α) := do
  let key ← m.1
  let x ← read room m.2
  some (key, x)

theorem mapOf?_object (read : Nat → Source → Option α) (room : Nat)
    (members : List (Option String × Source)) :
    mapOf? read (room + 1) (.object members) =
      (members.mapM (member? read room)).bind fun es => some (.ofList es) := rfl

theorem keys_of_entries {read : Nat → Source → Option α} {room : Nat}
    {members : List (Option String × Source)} {es : List (String × α)}
    (h : members.mapM (member? read room) = some es) :
    es.map Prod.fst = members.filterMap Prod.fst := by
  induction members generalizing es with
  | nil =>
    cases h
    rfl
  | cons m rest ih =>
    obtain ⟨key, s⟩ := m
    rw [List.mapM_cons] at h
    simp only [member?, Option.bind_eq_bind, Option.bind_eq_some_iff, Option.some.injEq] at h
    obtain ⟨_, ⟨k, rfl, x, -, rfl⟩, es', hes, h⟩ := h
    cases h
    rw [List.map_cons, ih hes]
    rfl

end Json.Source

namespace Bag

theorem toOption_ofEntries_cons (name : String) (x : Json) (rest : List (String × Json)) :
    (ofEntries ((name, x) :: rest)).toOption = (Value.ofJson x).toOption.bind fun v =>
      (ofEntries rest).toOption.bind fun es => some ((name, v) :: es) := by
  rw [ofEntries]
  cases Value.ofJson x with
  | error why => rfl
  | ok v => exact toOption_bind ..

/-- Members that are read one by one as values are the entries that their JSON values are
converted to. -/
theorem entries?_eq (room : Nat) (members : List (Option String × Source)) :
    members.mapM (member? (fun room => Value.ofSource? room) room) =
      (members.mapM (member? json? room)).bind fun es => (ofEntries es).toOption := by
  induction members with
  | nil => rfl
  | cons m rest ih =>
    obtain ⟨key, s⟩ := m
    rw [List.mapM_cons, List.mapM_cons, ih]
    cases key with
    | none => rfl
    | some k =>
      simp only [member?, Value.ofSource?_eq, Option.bind_eq_bind, Option.bind_some]
      cases s.json? room with
      | none => rfl
      | some j =>
        cases rest.mapM (member? json? room) with
        | none => simp only [Option.bind_some, Option.bind_none, Option.bind_fun_none]
        | some es =>
          simp only [Option.bind_some, Option.pure_def, toOption_ofEntries_cons,
            Option.bind_assoc]

/-- Both readers of bags take the same objects over, if no key is repeated. -/
theorem ofSource?_eq (room : Nat) {s : Source} (h : s.keys.Nodup) :
    ofSource? room s = (s.mapOf? json? room).bind fun m => (ofJsonMap m).toOption := by
  cases s with
  | object members =>
    cases room with
    | zero => rfl
    | succ room =>
      rw [ofSource?, mapOf?_object, mapOf?_object, entries?_eq, Option.bind_assoc,
        Option.bind_assoc]
      refine Option.bind_congr fun es hes => ?_
      have hentries : (OrderedMap.ofList es).entries = es :=
        OrderedMap.entries_insertAll (keys_of_entries hes ▸ h)
      rw [Option.bind_some, ofJsonMap, hentries, toOption_bind]
      rfl
  | _ => rfl

end Bag

/-- Converting the value of a JSON text and trying the kinds of value on its tree come to the
same: the same value, or none. So do converting the members of an object and reading them one
by one, if no key of it is repeated. -/
theorem Value.decoders_agree :
    (∀ text : String, (Json.read text).bind (fun j => (ofJson j).toOption) =
      (Source.read text).bind (ofSource? nestingLimit)) ∧
    ∀ (room : Nat) (s : Source), s.keys.Nodup →
      (s.mapOf? json? room).bind (fun m => (Bag.ofJsonMap m).toOption) =
        Bag.ofSource? room s := by
  refine ⟨fun text => ?_, fun room s h => (Bag.ofSource?_eq room h).symm⟩
  rw [Json.read, Option.bind_eq_bind, Option.bind_assoc]
  exact Option.bind_congr fun s _ => (ofSource?_eq nestingLimit s).symm

/-- The members of an object with a number beyond the signed words and an array of kinds. -/
def mixedMembers : List (Option String × Source) :=
  [(some "b", .number ⟨false, Digits.ofNat (2 ^ 63), [], none⟩),
    (some "a", .array [.number ⟨true, ['0'], [], none⟩, .string (some "x"), .boolean true])]

theorem Value.decoders_agree_mixed :
    (Source.object mixedMembers).keys.Nodup ∧
      ((Source.object mixedMembers).mapOf? json? 2).bind (fun m => (Bag.ofJsonMap m).toOption) =
        some (.ofList [("b", .float (.ofInt (2 ^ 63))),
          ("a", .array [.float (.ofRank true 0), .text "x", .boolean true])]) := by
  have hkeys : (Source.object mixedMembers).keys.Nodup := by decide
  refine ⟨hkeys, ?_⟩
  rw [decoders_agree.2 2 _ hkeys]
  decide +kernel

-- A value that another one under its key replaces is read all the same.
example : Bag.ofSource? 1 (.object [(some "a", .null), (some "a", .boolean true)]) = none ∧
    ((Source.object [(some "a", .null), (some "a", .boolean true)]).mapOf? json? 1).bind
      (fun m => (Bag.ofJsonMap m).toOption) = some (.ofList [("a", .boolean true)]) := by
  decide +kernel

end PropertyGraph
