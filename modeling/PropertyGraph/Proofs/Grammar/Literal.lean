import PropertyGraph.Proofs.Grammar.Listing
import PropertyGraph.Proofs.Grammar.Numeral

/-! Literals. The reader looks at the first character for the bracket of an array and otherwise
tries the kinds of literals in the order of the grammar. The fuel of the reader lasts, since a
literal is read from no more characters than it is given. -/

namespace PropertyGraph.Grammar

open Blank Token Draft

variable {s rest : List Char} {ts : List Tree} {fuel : Nat}

/-! ### Texts, numerals and booleans -/

theorem LiteralTree.text {w : String} (h : Quoted w ts) : LiteralTree (.text w) ts := by
  obtain ⟨text, inner, rfl, hw, hdefect⟩ := h
  refine ⟨_, rfl, ?_⟩
  rw [literal, hw, Literal.settle]
  exact .tree rfl (.ok _ hdefect)

theorem agrees_text (s : List Char) : Agrees (.rule .string) LiteralTree never s
    ((quoted? s).map fun r => (.text r.1, r.2)) :=
  (agrees_quoted s).map fun _ _ => .text

theorem agrees_numeral {e : Expr} {more : Option (Literal × List Char)}
    (h : Agrees e LiteralTree never s more) :
    Agrees (.choice (.rule .float) (.choice (.rule .integer) e)) LiteralTree never s
      ((numeral? (skip s)).or more) := by
  obtain ⟨hfound, hnone⟩ := run_numeral (skip s)
  cases hread : numeral? (skip s) with
  | none =>
    obtain ⟨hfloat, hinteger⟩ := hnone hread
    exact .right hfloat (.right hinteger h)
  | some r =>
    obtain ⟨t, ht, hrun | ⟨hfloat, hrun⟩⟩ := hfound r.1 r.2 hread
    · exact .found (.choice_left hrun) rfl ht
    · exact .found (.choice_right hfloat (.choice_left hrun)) rfl ht

def booleanWords : List (String × Bool) := [("true", true), ("false", false)]

theorem boolean?_eq (s : List Char) : boolean? s =
    booleanWords.findSome? fun x => (keyword? (String.ofList (folds x.1)) s).map (x.2, ·) := by
  have htrue : String.ofList (folds "true") = "TRUE" := by decide
  have hfalse : String.ofList (folds "false") = "FALSE" := by decide
  rw [boolean?, booleanWords, List.findSome?_cons, List.findSome?_cons, htrue, hfalse]
  cases keyword? "TRUE" s with
  | some rest => rfl
  | none => cases keyword? "FALSE" s <;> rfl

theorem agrees_boolean (s : List Char) : Agrees (.rule .boolean) LiteralTree never s
    ((boolean? s).map fun r => (.boolean r.1, r.2)) := by
  have hwords : Distinct booleanWords := by
    refine ⟨?_, ?_⟩ <;> decide
  rw [boolean?_eq]
  refine (agrees_words rfl rfl hwords s).map fun b ts h => ?_
  obtain ⟨w, text, hmem, hfold, rfl⟩ := h
  refine ⟨_, rfl, ?_⟩
  have hvalue : (text.map Char.toUpper == "TRUE".toList) = b := by
    rw [hfold]
    simp only [booleanWords, List.mem_cons, List.not_mem_nil, or_false, Prod.mk.injEq] at hmem
    rcases hmem with ⟨rfl, rfl⟩ | ⟨rfl, rfl⟩ <;> decide
  rw [literal, hvalue, Literal.settle]
  refine .ok _ ?_
  rw [defective_singleton]
  exact not_hasDefect_leaf rfl

/-! ### Values -/

/-- The tree of a value stands for what the literal settles to. -/
def ValueTree (l : Literal) (ts : List Tree) : Prop :=
  ∃ t, ts = [t] ∧ t.rule = .value ∧ Stands (value t) l.settle [t]

def ItemsTrees (ls : List Literal) (ts : List Tree) : Prop :=
  Stands (items ts) (Literal.settleItems ls) ts

theorem ValueTree.of_literal {text : List Char} {l : Literal} (h : LiteralTree l ts) :
    ValueTree l [⟨.value, text, ts⟩] := by
  obtain ⟨t, rfl, ht⟩ := h
  refine ⟨_, rfl, rfl, ?_⟩
  rw [value]
  exact .tree rfl ht

theorem itemsTrees_nil : ItemsTrees [] [] := by
  rw [ItemsTrees, items, Literal.settleItems]
  exact .ok [] defective_nil

theorem itemsTrees_cons {l : Literal} {ls : List Literal} {us : List Tree} (h : ValueTree l ts)
    (hs : ItemsTrees ls us) : ItemsTrees (l :: ls) (ts ++ us) := by
  obtain ⟨t, rfl, hrule, ht⟩ := h
  rw [ItemsTrees, List.singleton_append, items, if_pos hrule, Literal.settleItems,
    ← List.singleton_append]
  exact ht.bind fun v => hs.map (v :: ·)

theorem itemsTrees_singleton {l : Literal} (h : ValueTree l ts) : ItemsTrees [l] ts := by
  have hall := itemsTrees_cons h itemsTrees_nil
  rwa [List.append_nil] at hall

/-- The kinds of literals in the order of the grammar, the array last. -/
theorem agrees_value {array : Option (Literal × List Char)}
    (h : Agrees (.rule .array) LiteralTree never s array) :
    Agrees (.rule .value) ValueTree never s (((quoted? s).map fun r => (.text r.1, r.2)).or
      ((numeral? (skip s)).or (((boolean? s).map fun r => (.boolean r.1, r.2)).or array))) := by
  have hbody : Agrees (Rule.body .value) LiteralTree never s _ :=
    (agrees_text s).or fun _ => agrees_numeral ((agrees_boolean s).or fun _ => h)
  exact hbody.tree rfl fun l text inner => .of_literal

/-- The array at the front of a text that starts with its bracket. -/
def array? (fuel : Nat) (s : List Char) : Option (Literal × List Char) :=
  symbol? "[" s >>= fun s =>
    Option.map (fun r => (.array r.1, r.2)) (match symbol? "]" s with
      | some s => some ([], s)
      | none => items? fuel s)

theorem quoted?_skip (s : List Char) : quoted? (skip s) = quoted? s := by
  rw [quoted?, quoted?, skip_skip]

theorem boolean?_skip (s : List Char) : boolean? (skip s) = boolean? s := by
  simp only [boolean?, keyword?, skip_skip]

/-- Only an array starts with a bracket. -/
theorem scalar_bracket {c : Char} {t : List Char} (hc : c = '[' ∨ c = ']') (h : skip s = c :: t) :
    quoted? s = none ∧ numeral? (skip s) = none ∧ boolean? s = none := by
  rcases hc with rfl | rfl
  · refine ⟨by rw [quoted?, h]; rfl, by rw [h]; rfl, ?_⟩
    rw [boolean?, keyword?, keyword?, h]
    rfl
  · refine ⟨by rw [quoted?, h]; rfl, by rw [h]; rfl, ?_⟩
    rw [boolean?, keyword?, keyword?, h]
    rfl

theorem literal?_eq (fuel : Nat) (s : List Char) : literal? (fuel + 1) s =
    ((quoted? s).map fun r => (.text r.1, r.2)).or ((numeral? (skip s)).or
      (((boolean? s).map fun r => (.boolean r.1, r.2)).or (array? fuel s))) := by
  rw [literal?, array?, symbol?]
  split
  · next t h =>
    obtain ⟨hquoted, hnumeral, hboolean⟩ := scalar_bracket (.inl rfl) h
    rw [hquoted, hnumeral, hboolean, h]
    cases hclose : symbol? "]" t with
    | some rest => simp [hclose, List.isPrefixOf?]
    | none => cases hitems : items? fuel t <;> simp [hclose, hitems, List.isPrefixOf?]
  · next h =>
    have harray : "[".toList.isPrefixOf? (skip s) = none := by
      cases hs : skip s with
      | nil => rfl
      | cons c t =>
        have hne : '[' ≠ c := by
          rintro rfl
          exact h t hs
        simp [List.isPrefixOf?, hne]
    rw [harray, quoted?_skip, boolean?_skip]
    cases quoted? s with
    | some r => rfl
    | none =>
      cases numeral? (skip s) with
      | some r => rfl
      | none => cases boolean? s <;> rfl

theorem run_value_close (t : List Char) : Run .spaced (.rule .value) (']' :: t) none := by
  have hopen : symbol? "[" (']' :: t) = none := rfl
  obtain ⟨hquoted, hnumeral, hboolean⟩ := scalar_bracket (s := ']' :: t) (.inr rfl) rfl
  have harray : Agrees (.rule .array) LiteralTree never (']' :: t) none := by
    have hpass := passes_symbol "[" (']' :: t)
    rw [hopen] at hpass
    cases hpass with
    | missed hrun => exact .missed (.fails (.seq_none hrun))
  have hvalue := agrees_value harray
  rw [hquoted, hnumeral, hboolean] at hvalue
  exact hvalue.run_none

theorem LiteralTree.array {ls : List Literal} {text : List Char} (h : ItemsTrees ls ts) :
    LiteralTree (.array ls) [⟨.array, text, ts⟩] := by
  refine ⟨_, rfl, ?_⟩
  rw [literal, Literal.settle]
  exact .tree rfl (h.map Value.array)

/-- What is known of the readers of values and of items with so much fuel. -/
theorem agrees_literals (fuel : Nat) :
    (∀ s, 2 * (skip s).length < fuel →
      Agrees (.rule .value) ValueTree never s (literal? fuel s)) ∧
    ∀ s, 2 * (skip s).length + 1 < fuel →
      Listed (.rule .value) ']' ItemsTrees s (items? fuel s) := by
  induction fuel with
  | zero => exact ⟨fun _ h => absurd h (Nat.not_lt_zero _), fun _ h => absurd h (Nat.not_lt_zero _)⟩
  | succ fuel ih =>
    obtain ⟨ihvalue, ihitems⟩ := ih
    constructor
    · intro s hfuel
      rw [literal?_eq]
      refine agrees_value ?_
      have hfits : ∀ t, symbol? "[" s = some t → 2 * (skip t).length + 1 < fuel := by
        intro t ht
        have hle := length_skip_le t
        have hlength := congrArg List.length (symbol?_eq ht)
        rw [List.length_append, show "[".toList.length = 1 from rfl] at hlength
        omega
      have hbody : Agrees (Rule.body .array) (fun l ts => ∃ ls, l = .array ls ∧ ItemsTrees ls ts)
          never s (array? fuel s) := by
        refine (passes_symbol "[" s).bind fun t ts ht hts => ?_
        cases hts
        have hlist := Listed.enclosed (w := "]") rfl run_value_close itemsTrees_nil fun _ =>
          ihitems t (hfits t ht)
        exact hlist.map fun ls ts h => ⟨ls, rfl, h⟩
      refine hbody.tree rfl ?_
      rintro l text inner ⟨ls, rfl, h⟩
      exact .array h
    · intro s hfuel
      rw [items?]
      have hone := ihvalue s (by omega)
      refine Listed.cons (g := items? fuel) (by decide) hone
        (fun l rest t hread hrest => ⟨?_, ihitems t ?_⟩) (fun l rest t hrest => ?_)
        (fun l rest hcomma hclose => ?_) (fun _ _ => itemsTrees_singleton)
        fun _ _ _ _ => itemsTrees_cons
      · simp only [hrest]
      · rw [hread] at hone
        have hle := hone.length_le
        have hskip := length_skip_le t
        rw [hrest, List.length_cons] at hle
        omega
      · simp only [hrest]
      · dsimp only
        split
        · next t h => exact absurd h (hcomma t)
        · next t h => exact absurd h (hclose t)
        · rfl

theorem agrees_literal (s : List Char) : Agrees (.rule .value) ValueTree never s (value? s) := by
  have hle := length_skip_le s
  exact (agrees_literals (fuelFor s)).1 s (by rw [fuelFor]; omega)

end PropertyGraph.Grammar
