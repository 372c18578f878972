import Mathlib.Algebra.Group.Defs
import PropertyGraph.Proofs.Condition.Text

/-! Conditions are read back from their display. Every AND and OR is displayed in parentheses,
so a condition is displayed as a term and comes back as the same tree, at any depth. Texts are
displayed as they are, so the ones that hold a double quote or a backslash are left out, and so
are floats, whose display may be that of an integer. -/

namespace PropertyGraph

open Blank Token

namespace Value

/-- No float stands in the value, and no text in it holds a double quote or a backslash. -/
inductive IsPlain : Value → Prop where
  | text {s : String} : (∀ c ∈ s.toList, c ≠ '"' ∧ c ≠ '\\') → IsPlain (.text s)
  | integer (n : Int64) : IsPlain (.integer n)
  | boolean (b : Bool) : IsPlain (.boolean b)
  | array {items : List Value} : (∀ v ∈ items, IsPlain v) → IsPlain (.array items)

end Value

/-! ### Values -/

theorem Lexeme.spells_ofInt (n : Int) : (Lexeme.integer n).Spells (Digits.ofInt n) := by
  have hdigits := Digits.isNumeral_ofNat n.natAbs
  rw [Digits.ofInt]
  split
  · have hspells := Spells.negative hdigits
    rwa [Digits.toNat_ofNat, show -(n.natAbs : Int) = n by omega] at hspells
  · have hspells := Spells.positive hdigits
    rwa [Digits.toNat_ofNat, show (n.natAbs : Int) = n by omega] at hspells

theorem Token.inside_self {quote : Char} {cs : List Char}
    (h : ∀ c ∈ cs, c ≠ quote ∧ c ≠ '\\') : Inside quote cs cs := by
  induction cs with
  | nil => exact .nil
  | cons c cs ih =>
    obtain ⟨hc, hcs⟩ := List.forall_mem_cons.1 h
    exact .plain hc.1 hc.2 (ih hcs)

namespace Value

mutual

theorem text_display : (v : Value) → v.IsPlain → v.Text v.display.toList
  | .text s, h => by
    have hs : ∀ c ∈ s.toList, c ≠ '"' ∧ c ≠ '\\' := by
      cases h
      assumption
    have hspells := Lexeme.Spells.text (.inl rfl) (inside_self hs)
    have htext : (display (.text s)).toList = '"' :: (s.toList ++ ['"']) := by
      simp [display]
    rw [htext]
    exact .text hspells
  | .integer n, _ => by
    rw [display, String.toList_ofList]
    exact .integer (Lexeme.spells_ofInt n.toInt)
  | .boolean b, _ => by
    cases b with
    | true => exact .boolean (.keyword rfl rfl)
    | false => exact .boolean (.keyword rfl rfl)
  | .array [], _ => .empty isSpacing_nil
  | .array (v :: rest), h => by
    have hitems : ∀ w ∈ v :: rest, w.IsPlain := by
      cases h
      assumption
    have htext := itemsText_display (v :: rest) (List.cons_ne_nil v rest) hitems isSpacing_nil
    have hdisplay : (display (.array (v :: rest))).toList =
        '[' :: ((displayItems (v :: rest)).toList ++ [']']) := by
      simp [display]
    rw [hdisplay]
    exact .array htext

/-- The items are displayed up to the closing bracket, with blanks in front or without. -/
theorem itemsText_display : (items : List Value) → items ≠ [] → (∀ v ∈ items, v.IsPlain) →
    {gap : List Char} → IsSpacing gap →
    ItemsText items (gap ++ ((displayItems items).toList ++ [']']))
  | [], hne, _, _, _ => absurd rfl hne
  | [v], _, h, gap, hgap => by
    have hv := text_display v (h v List.mem_cons_self)
    exact .last hgap hv isSpacing_nil
  | v :: w :: rest, _, h, gap, hgap => by
    obtain ⟨hv, hrest⟩ := List.forall_mem_cons.1 h
    have htail := itemsText_display (w :: rest) (List.cons_ne_nil w rest) hrest
      (isGap_singleton rfl : IsGap [' ']).2
    have hwhole := ItemsText.more hgap (text_display v hv) isSpacing_nil htail
    have hdisplay : (displayItems (v :: w :: rest)).toList =
        v.display.toList ++ ',' :: ' ' :: (displayItems (w :: rest)).toList := by
      simp [displayItems]
    rw [hdisplay]
    simpa only [List.append_assoc, List.cons_append, List.nil_append] using hwhole

end

end Value

/-! ### Conditions -/

namespace Condition

/-- The condition is made of comparisons with plain values, whose variables and properties are
named by words. -/
inductive IsPlain : Condition → Prop where
  | comparison {x p : String} (op : Operator) {v : Value} : isName x = true → isName p = true →
    v.IsPlain → IsPlain (.comparison x p op v)
  | and {a b : Condition} : IsPlain a → IsPlain b → IsPlain (.and a b)
  | or {a b : Condition} : IsPlain a → IsPlain b → IsPlain (.or a b)

/-- Two conditions with a joint between them, in parentheses. -/
theorem termText_joined {a b : Condition} {s t : List Char} (joint : Joint)
    (ha : TermText a s) (hb : TermText b t) :
    TermText (treeOf (runs a [(joint, b)]))
      ('(' :: (s ++ (' ' :: (joint.word.toList ++ (' ' :: t)) ++ [')']))) := by
  have hgap : IsGap [' '] := isGap_singleton rfl
  have hword : (Lexeme.keyword joint.word).Spells joint.word.toList := by
    cases joint <;> exact .keyword rfl rfl
  have hrest := RestText.cons hgap hword hgap hb .nil
  have hwhole := TermText.group isSpacing_nil ha hrest isSpacing_nil
  simpa only [List.append_assoc, List.cons_append, List.nil_append, List.append_nil] using hwhole

theorem termText_display {c : Condition} (h : c.IsPlain) : TermText c c.display.toList := by
  induction h with
  | @comparison x p op v hx hp hv =>
    have hgap : IsSpacing [' '] := (isGap_singleton rfl : IsGap [' ']).2
    have hwhole := TermText.comparison (.property hx hp) hgap op.symbol_mem_spellings hgap
      (v.text_display hv)
    have hdisplay : (display (.comparison x p op v)).toList = (x.toList ++ '.' :: p.toList) ++
        ([' '] ++ (op.symbol.toList ++ ([' '] ++ v.display.toList))) := by
      simp [display]
    rwa [hdisplay]
  | @and a b _ _ iha ihb =>
    have hdisplay : (display (.and a b)).toList = '(' :: (a.display.toList ++
        (' ' :: (Joint.and.word.toList ++ (' ' :: b.display.toList)) ++ [')'])) := by
      simp [display, Joint.word]
    rw [hdisplay]
    exact termText_joined .and iha ihb
  | @or a b _ _ iha ihb =>
    have hdisplay : (display (.or a b)).toList = '(' :: (a.display.toList ++
        (' ' :: (Joint.or.word.toList ++ (' ' :: b.display.toList)) ++ [')'])) := by
      simp [display, Joint.word]
    rw [hdisplay]
    exact termText_joined .or iha ihb

/-- A plain condition is read back from its display. -/
theorem read_display {c : Condition} (h : c.IsPlain) : Condition.read c.display = .ok c := by
  have hread := @read_text _ _ _ _ (termText_display h) .nil [] [] (List.forall_mem_nil _)
    (List.forall_mem_nil _)
  rwa [List.append_nil, List.append_nil, List.nil_append, String.ofList_toList] at hread

/-- A keyword as a name, the least integer, and arrays in an array. -/
def sample : Condition :=
  .and (.or (.comparison "AND" "or" .le (.integer (-2 ^ 63)))
    (.comparison "a" "_b" .ne (.array [.text "é, ]\n", .array [], .array [.boolean false]])))
    (.comparison "a" "x" .eq (.text "'"))

theorem read_display_sample : sample.IsPlain ∧ Condition.read sample.display = .ok sample := by
  have hitems : ∀ v ∈ [Value.text "é, ]\n", .array [], .array [.boolean false]], v.IsPlain := by
    simp only [List.forall_mem_cons]
    exact ⟨.text (by simp), .array (List.forall_mem_nil _),
      .array (List.forall_mem_singleton.2 (.boolean false)), List.forall_mem_nil _⟩
  have hplain : sample.IsPlain :=
    .and (.or (.comparison .le rfl rfl (.integer _)) (.comparison .ne rfl rfl (.array hitems)))
      (.comparison .eq rfl rfl (.text (by simp)))
  exact ⟨hplain, read_display hplain⟩

example : sample.display =
    "((AND.or <= -9223372036854775808 OR a._b != [\"é, ]\n\", [], [false]]) AND a.x = \"'\")" := by
  decide +kernel

end Condition

end PropertyGraph
