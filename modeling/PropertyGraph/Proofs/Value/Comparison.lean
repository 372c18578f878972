import Mathlib.Data.String.Basic
import PropertyGraph.Proofs.Value.Storable
import PropertyGraph.Value.Comparison

/-! The operators agree with each other. Two values are in an order exactly if both are texts
or both are numbers, and then the order tells whether they are equal; between two values of
one kind equality is decided, and between kinds nothing is. Every value equals itself unless
there is a not-a-number inside it. -/

namespace PropertyGraph

/-! ### Doubles -/

namespace Double

theorem compare?_swap (x y : Double) : y.compare? x = (x.compare? y).map Ordering.swap := by
  cases hx : x.key? with
  | none => cases hy : y.key? <;> simp [compare?, hx, hy]
  | some m =>
    cases hy : y.key? with
    | none => simp [compare?, hx, hy]
    | some n =>
      have hswap : compare n m = (compare m n).swap := Std.OrientedCmp.eq_swap
      simp [compare?, hx, hy, hswap]

theorem sameNumber_comm (x y : Double) : y.sameNumber x = x.sameNumber y := by
  rw [sameNumber, sameNumber, compare?_swap]
  cases x.compare? y with
  | none => rfl
  | some o => cases o <;> rfl

theorem key?_eq_none_iff {x : Double} : x.key? = none ↔ x = nan := by
  cases x with
  | nan => simp [key?]
  | number negative rank => simp [key?]

theorem isSome_compare?_iff {x y : Double} : (x.compare? y).isSome ↔ x ≠ nan ∧ y ≠ nan := by
  rw [ne_eq, ne_eq, ← key?_eq_none_iff, ← key?_eq_none_iff]
  cases hx : x.key? with
  | none => simp [compare?, hx]
  | some m => cases hy : y.key? <;> simp [compare?, hx, hy]

theorem sameNumber_self_iff {x : Double} : x.sameNumber x = true ↔ x ≠ nan := by
  rw [ne_eq, ← key?_eq_none_iff]
  cases hx : x.key? <;> simp [sameNumber, compare?, hx]

end Double

namespace Value

/-! ### Kinds -/

/-- What kinds of values can be compared with each other. -/
inductive Kind where
  | text
  | number
  | boolean
  | array
deriving DecidableEq

def kind : Value → Kind
  | .text _ => .text
  | .integer _ | .float _ => .number
  | .boolean _ => .boolean
  | .array _ => .array

/-- Two texts, or two numbers of which neither is the not-a-number. -/
def Ordered (a b : Value) : Prop :=
  a.kind = .text ∧ b.kind = .text ∨
    a.kind = .number ∧ b.kind = .number ∧ a ≠ .float .nan ∧ b ≠ .float .nan

/-! ### Order -/

theorem ofInt_ne_nan (n : Int) : Double.ofInt n ≠ .nan := nofun

theorem compareOfLessAndEq_eq (s t : String) : compareOfLessAndEq s t = compare s t := rfl

theorem looseCompare_swap (a b : Value) :
    b.looseCompare a = (a.looseCompare b).map Ordering.swap := by
  cases a with
  | text s =>
    cases b with
    | text t =>
      have hswap : compare t s = (compare s t).swap := Std.OrientedCmp.eq_swap
      simp [looseCompare, compareOfLessAndEq_eq, hswap]
    | integer _ | float _ | boolean _ | array _ => rfl
  | integer m =>
    cases b with
    | integer n =>
      have hswap : compare n.toInt m.toInt = (compare m.toInt n.toInt).swap :=
        Std.OrientedCmp.eq_swap
      simp [looseCompare, hswap]
    | float y => exact Double.compare?_swap (.ofInt m.toInt) y
    | text _ | boolean _ | array _ => rfl
  | float x =>
    cases b with
    | integer n => exact Double.compare?_swap x (.ofInt n.toInt)
    | float y => exact Double.compare?_swap x y
    | text _ | boolean _ | array _ => rfl
  | boolean _ | array _ => cases b <;> rfl

theorem isSome_looseCompare_iff (a b : Value) : (a.looseCompare b).isSome ↔ a.Ordered b := by
  cases a with
  | text _ => cases b <;> simp [looseCompare, number?, Ordered, kind]
  | integer m =>
    cases b with
    | float y =>
      refine (Double.isSome_compare?_iff (x := .ofInt m.toInt) (y := y)).trans ?_
      simp [Ordered, kind, ofInt_ne_nan]
    | text _ | integer _ | boolean _ | array _ => simp [looseCompare, number?, Ordered, kind]
  | float x =>
    cases b with
    | integer n =>
      refine (Double.isSome_compare?_iff (x := x) (y := .ofInt n.toInt)).trans ?_
      simp [Ordered, kind, ofInt_ne_nan]
    | float y =>
      refine (Double.isSome_compare?_iff (x := x) (y := y)).trans ?_
      simp [Ordered, kind]
    | text _ | boolean _ | array _ => simp [looseCompare, number?, Ordered, kind]
  | boolean _ | array _ => cases b <;> simp [looseCompare, number?, Ordered, kind]

/-- Numbers are the same if their order says so. -/
theorem numbersAgree_of_compare? {x y : Double} {o : Ordering} (h : x.compare? y = some o) :
    some (x.sameNumber y) = some (o == .eq) := by
  rw [Double.sameNumber, h]
  cases o <;> rfl

theorem looseEq_of_looseCompare {a b : Value} {o : Ordering} (h : a.looseCompare b = some o) :
    a.looseEq b = some (o == .eq) := by
  have hordered := (isSome_looseCompare_iff a b).1 (Option.isSome_of_mem h)
  cases a with
  | text s =>
    cases b with
    | text t =>
      rw [looseCompare, Option.some.injEq] at h
      subst h
      rw [looseEq, Option.some.injEq, Bool.eq_iff_iff, beq_iff_eq, beq_iff_eq,
        compareOfLessAndEq_eq, compare_eq_iff_eq]
    | integer _ | float _ | boolean _ | array _ => cases h
  | integer m =>
    cases b with
    | integer n =>
      rw [looseCompare, Option.some.injEq] at h
      subst h
      rw [looseEq, Option.some.injEq, Bool.eq_iff_iff, beq_iff_eq, beq_iff_eq, compare_eq_iff_eq,
        Int64.toInt_inj]
    | float y => exact numbersAgree_of_compare? h
    | text _ | boolean _ | array _ => cases h
  | float x =>
    cases b with
    | integer _ | float _ => exact numbersAgree_of_compare? h
    | text _ | boolean _ | array _ => cases h
  | boolean _ | array _ => cases b <;> cases h

/-! ### Equality -/

theorem isSome_looseEq_iff (a b : Value) : (a.looseEq b).isSome ↔ a.kind = b.kind := by
  cases a <;> cases b <;> simp [looseEq, numbersAgree, number?, kind]

mutual

theorem looseEq_comm : (a b : Value) → b.looseEq a = a.looseEq b
  | .text s, .text t => by rw [looseEq, looseEq, Bool.beq_comm]
  | .integer m, .integer n => by rw [looseEq, looseEq, Bool.beq_comm]
  | .boolean b, .boolean c => by rw [looseEq, looseEq, Bool.beq_comm]
  | .array xs, .array ys => by rw [looseEq, looseEq, looseEqItems_comm xs ys]
  | .integer _, .float _ | .float _, .integer _ | .float _, .float _ =>
    congrArg some (Double.sameNumber_comm _ _)
  | .text _, .integer _ | .text _, .float _ | .text _, .boolean _ | .text _, .array _
  | .integer _, .text _ | .integer _, .boolean _ | .integer _, .array _
  | .float _, .text _ | .float _, .boolean _ | .float _, .array _
  | .boolean _, .text _ | .boolean _, .integer _ | .boolean _, .float _ | .boolean _, .array _
  | .array _, .text _ | .array _, .integer _ | .array _, .float _ | .array _, .boolean _ => rfl

theorem looseEqItems_comm : (xs ys : List Value) → looseEqItems ys xs = looseEqItems xs ys
  | [], [] | [], _ :: _ | _ :: _, [] => rfl
  | x :: xs, y :: ys => by
    rw [looseEqItems, looseEqItems, looseEq_comm x y, looseEqItems_comm xs ys]

end

mutual

/-- A value equals itself unless it has a not-a-number inside. -/
theorem looseEq_self_iff : (v : Value) →
    (v.looseEq v = some true ↔ ¬ Within (.float .nan) v)
  | .text _ | .integer _ | .boolean _ => by
    simp only [looseEq, beq_self_eq_true, true_iff]
    nofun
  | .float x => by
    have hagree : (Value.float x).looseEq (.float x) = some (x.sameNumber x) := rfl
    rw [hagree, Option.some.injEq, Double.sameNumber_self_iff]
    refine not_congr ⟨fun h => h ▸ .self _, fun h => ?_⟩
    cases h
    rfl
  | .array items => by
    rw [looseEq, Option.some.injEq, looseEqItems_self_iff items]
    constructor
    · rintro h (_ | ⟨hw, hnan⟩)
      exact h _ hw hnan
    · exact fun h v hv hnan => h (.item hv hnan)

theorem looseEqItems_self_iff : (items : List Value) →
    (looseEqItems items items = true ↔ ∀ v ∈ items, ¬ Within (.float .nan) v)
  | [] => by simp [looseEqItems]
  | v :: rest => by
    rw [looseEqItems, Bool.and_eq_true, beq_iff_eq, looseEq_self_iff v,
      looseEqItems_self_iff rest, List.forall_mem_cons]

end

end Value

/-! ### Operators -/

namespace Operator

open Value

variable {a b : Value} {o : Ordering}

/-- What the operators say of two values that are in the order `o`. -/
theorem holds_of_looseCompare (h : a.looseCompare b = some o) (op : Operator) :
    op.holds a b = match op with
      | .lt => o == .lt
      | .le => o == .lt || o == .eq
      | .gt => o == .gt
      | .ge => o == .gt || o == .eq
      | .eq => o == .eq
      | .ne => o != .eq := by
  have heq := looseEq_of_looseCompare h
  cases op with
  | ne => cases o <;> simp [holds, heq]
  | lt | le | gt | ge | eq => simp [holds, h, heq]

/-- Between values that are in no order only equality can hold. -/
theorem holds_of_looseCompare_eq_none (h : a.looseCompare b = none) {op : Operator}
    (hop : op ∈ [lt, le, gt, ge]) : op.holds a b = false := by
  simp only [List.mem_cons, List.not_mem_nil, or_false] at hop
  rcases hop with rfl | rfl | rfl | rfl <;> simp [holds, h]

/-- How many of `<`, `=` and `>` hold. -/
def count (a b : Value) : Nat := [lt, eq, gt].countP fun op => op.holds a b

theorem count_of_looseCompare (h : a.looseCompare b = some o) : count a b = 1 := by
  cases o <;> simp [count, holds_of_looseCompare h]

theorem count_le_one (a b : Value) : count a b ≤ 1 := by
  cases h : a.looseCompare b with
  | some o => exact (count_of_looseCompare h).le
  | none =>
    have hlt : lt.holds a b = false := holds_of_looseCompare_eq_none h (by simp)
    have hgt : gt.holds a b = false := holds_of_looseCompare_eq_none h (by simp)
    rw [count, List.countP_cons_of_neg (by simp [hlt]), List.countP_cons,
      List.countP_cons_of_neg (by simp [hgt])]
    split <;> simp

theorem not_ordered (h : a.kind ∈ [Kind.boolean, .array] ∨ b.kind ∈ [Kind.boolean, .array] ∨
    a.kind ≠ b.kind) : ¬ a.Ordered b := by
  rintro (⟨ha, hb⟩ | ⟨ha, hb, -, -⟩) <;> simp [ha, hb] at h

/-- What the operators say of two values agrees. -/
structure Coherent (a b : Value) : Prop where
  looseEq_comm : b.looseEq a = a.looseEq b
  looseCompare_swap : b.looseCompare a = (a.looseCompare b).map Ordering.swap
  looseEq_of_looseCompare : ∀ o, a.looseCompare b = some o → a.looseEq b = some (o == .eq)
  ne_iff : ne.holds a b = true ↔ a.looseEq b = some false
  not_eq_and_ne : ¬ (eq.holds a b = true ∧ ne.holds a b = true)
  /-- Values of two kinds are neither equal nor different. -/
  incomparable : a.kind ≠ b.kind → eq.holds a b = false ∧ ne.holds a b = false
  count_le_one : count a b ≤ 1
  ordered : a.Ordered b → count a b = 1 ∧
    le.holds a b = (lt.holds a b || eq.holds a b) ∧ ge.holds a b = (gt.holds a b || eq.holds a b)
  unordered : a.kind ∈ [Kind.boolean, .array] ∨ b.kind ∈ [Kind.boolean, .array] ∨
    a.kind ≠ b.kind → ∀ op ∈ [lt, le, gt, ge], op.holds a b = false

/-- The operators agree on all values, and a value equals itself unless it has a
not-a-number inside. -/
theorem operators_coherent (a b : Value) :
    Coherent a b ∧ ∀ v : Value, v.looseEq v = some true ↔ ¬ Within (.float .nan) v where
  left := {
    looseEq_comm := looseEq_comm a b
    looseCompare_swap := looseCompare_swap a b
    looseEq_of_looseCompare := fun _ => looseEq_of_looseCompare
    ne_iff := beq_iff_eq
    not_eq_and_ne := by
      rintro ⟨heq, hne⟩
      simp only [holds, beq_iff_eq] at heq hne
      rw [heq] at hne
      cases hne
    incomparable := by
      intro hkind
      have hnone := mt (isSome_looseEq_iff a b).1 hkind
      rw [Option.not_isSome_iff_eq_none] at hnone
      simp [holds, hnone]
    count_le_one := count_le_one a b
    ordered := by
      intro hordered
      obtain ⟨o, ho⟩ := Option.isSome_iff_exists.1 ((isSome_looseCompare_iff a b).2 hordered)
      exact ⟨count_of_looseCompare ho, by simp [holds_of_looseCompare ho],
        by simp [holds_of_looseCompare ho]⟩
    unordered := by
      intro hkinds op hop
      have hnone := mt (isSome_looseCompare_iff a b).1 (not_ordered hkinds)
      rw [Option.not_isSome_iff_eq_none] at hnone
      exact holds_of_looseCompare_eq_none hnone hop }
  right := looseEq_self_iff

-- a text and a number are incomparable, but arrays that have these in one place are different
example : Operator.ne.holds (.text "1") (.integer 1) = false ∧
    Operator.ne.holds (.array [.text "1"]) (.array [.integer 1]) = true := by decide

end Operator

end PropertyGraph
