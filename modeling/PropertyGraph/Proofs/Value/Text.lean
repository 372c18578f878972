import PropertyGraph.Proofs.Command.Literal

/-! Values as they are written in commands. Blanks may stand around the brackets and commas of
an array, or not; a text may have quotes of either kind, an integer zeros in front, a float a
fraction or an exponent, and a boolean any letter case. What is read from such a text is the
value, and what follows it is left, as long as it does not go on with the last token. -/

namespace PropertyGraph

open Blank Token Digits

/-! ### Grammar -/

namespace Draft

/-- The digits of a fraction and how they are written; there may be none. -/
inductive FractionText : List Char → List Char → Prop where
  | absent : FractionText [] []
  | given {ds : List Char} : IsNumeral ds → FractionText ds ('.' :: ds)

/-- An exponent and how it is written. -/
inductive ExponentText : Int → List Char → Prop where
  | absent : ExponentText 0 []
  | unsigned {mark : Char} {ds : List Char} : mark = 'e' ∨ mark = 'E' → IsNumeral ds →
    ExponentText (toNat ds) (mark :: ds)
  | positive {mark : Char} {ds : List Char} : mark = 'e' ∨ mark = 'E' → IsNumeral ds →
    ExponentText (toNat ds) (mark :: '+' :: ds)
  | negative {mark : Char} {ds : List Char} : mark = 'e' ∨ mark = 'E' → IsNumeral ds →
    ExponentText (-toNat ds) (mark :: '-' :: ds)

def signText (negative : Bool) : List Char := if negative then ['-'] else []

end Draft

open Draft

mutual

/-- The texts of a value, without white space at their ends. -/
inductive Value.Text : Value → List Char → Prop where
  | text {t : String} {s : List Char} : (Lexeme.text t).Spells s → Text (.text t) s
  | integer {n : Int64} {s : List Char} : (Lexeme.integer n.toInt).Spells s → Text (.integer n) s
  | float {negative : Bool} {whole fraction fs es : List Char} {e : Int} : IsNumeral whole →
    FractionText fraction fs → ExponentText e es → fs ++ es ≠ [] →
    Text (.float (floatOf negative whole fraction e)) (signText negative ++ (whole ++ (fs ++ es)))
  | boolean {b : Bool} {s : List Char} : (Lexeme.keyword (booleanWord b)).Spells s →
    Text (.boolean b) s
  | empty {gap : List Char} : IsSpacing gap → Text (.array []) ('[' :: (gap ++ [']']))
  | array {items : List Value} {s : List Char} : ItemsText items s → Text (.array items) ('[' :: s)

/-- The texts of some items up to the closing bracket, with the bracket. -/
inductive Value.ItemsText : List Value → List Char → Prop where
  | last {v : Value} {before s after : List Char} : IsSpacing before → Text v s →
    IsSpacing after → ItemsText [v] (before ++ (s ++ (after ++ [']'])))
  | more {v : Value} {rest : List Value} {before s after t : List Char} : IsSpacing before →
    Text v s → IsSpacing after → ItemsText rest t →
    ItemsText (v :: rest) (before ++ (s ++ (after ++ ',' :: t)))

end

/-! ### Floats -/

theorem Digits.IsNumeral.not_isWhiteSpace {ds : List Char} (h : IsNumeral ds) :
    ∀ c ∈ ds, isWhiteSpace c = false := fun c hc =>
  not_isWhiteSpace_of_isWordChar (isWordChar_iff.2 (.inr (.inl (h.2 c hc))))

namespace Draft

variable {rest : List Char}

theorem fraction?_given {ds : List Char} (hds : IsNumeral ds)
    (hrest : ∀ c ∈ rest.head?, c.isDigit = false) :
    fraction? ('.' :: ds ++ rest) = some (ds, rest) := split?_append hds hrest

theorem exponent?_text {e : Int} {es : List Char} (h : ExponentText e es) (hrest : Stops rest)
    (hne : es ≠ []) : exponent? (es ++ rest) = some (e, rest) := by
  have hsplit : ∀ {ds : List Char}, IsNumeral ds → split? (ds ++ rest) = some (ds, rest) :=
    fun hds => split?_append hds hrest.not_isDigit
  cases h with
  | absent => exact absurd rfl hne
  | @unsigned mark ds hmark hds =>
    obtain ⟨d, ds, rfl⟩ := List.exists_cons_of_ne_nil hds.1
    have hdigit : d.isDigit = true := hds.2 d List.mem_cons_self
    have hminus : d ≠ '-' := by
      rintro rfl
      exact absurd hdigit (by decide)
    have hplus : d ≠ '+' := by
      rintro rfl
      exact absurd hdigit (by decide)
    have hdigits := hsplit hds
    rw [List.cons_append] at hdigits
    rcases hmark with rfl | rfl <;> simp [exponent?, afterExponentMark?, hminus, hplus, hdigits]
  | positive hmark hds =>
    rcases hmark with rfl | rfl <;> simp [exponent?, afterExponentMark?, hsplit hds]
  | negative hmark hds =>
    rcases hmark with rfl | rfl <;> simp [exponent?, afterExponentMark?, hsplit hds]

/-- Where the digits of a float end, no other digit follows. -/
theorem head_exponentText {e : Int} {es : List Char} (h : ExponentText e es) (hrest : Stops rest) :
    ∀ c ∈ (es ++ rest).head?, c.isDigit = false ∧ c ≠ '.' := by
  cases h with
  | absent => exact fun c hc => ⟨hrest.not_isDigit c hc, (hrest c hc).2⟩
  | unsigned hmark | positive hmark | negative hmark =>
    rintro _ ⟨⟩
    rcases hmark with rfl | rfl <;> decide

theorem unsigned?_float (negative : Bool) {whole fraction fs es : List Char} {e : Int}
    (hwhole : IsNumeral whole) (hfraction : FractionText fraction fs) (hexponent : ExponentText e es)
    (hne : fs ++ es ≠ []) (hrest : Stops rest) :
    unsigned? negative (whole ++ (fs ++ (es ++ rest))) =
      some (.float (floatOf negative whole fraction e), rest) := by
  have hhead := head_exponentText hexponent hrest
  cases hfraction with
  | absent =>
    rw [List.nil_append] at hne ⊢
    rw [unsigned?, split?_append hwhole fun c hc => (hhead c hc).1]
    simp [fraction?_stops fun c hc => (hhead c hc).2, exponent?_text hexponent hrest hne]
  | given hds =>
    rw [unsigned?, split?_append hwhole (by rintro _ ⟨⟩; rfl)]
    simp only [Option.bind_eq_bind, Option.bind_some,
      fraction?_given hds fun c hc => (hhead c hc).1]
    rcases eq_or_ne es [] with rfl | hes
    · cases hexponent
      rw [List.nil_append, exponent?_stops hrest]
    · rw [exponent?_text hexponent hrest hes]

theorem numeral?_float {negative : Bool} {whole fraction fs es : List Char} {e : Int}
    (hwhole : IsNumeral whole) (hfraction : FractionText fraction fs) (hexponent : ExponentText e es)
    (hne : fs ++ es ≠ []) (hrest : Stops rest) :
    numeral? (signText negative ++ (whole ++ (fs ++ (es ++ rest)))) =
      some (.float (floatOf negative whole fraction e), rest) := by
  rw [← unsigned?_float negative hwhole hfraction hexponent hne hrest]
  cases negative with
  | true => rfl
  | false =>
    change numeral? (whole ++ (fs ++ (es ++ rest))) = _
    exact numeral?_digits hwhole

/-! ### Both ends of a value -/

/-- The characters that a value may start with. -/
def opensValue (c : Char) : Bool :=
  c == '"' || c == '\'' || c == '-' || c == '[' || c.isAlphanum

theorem opensValue_iff {c : Char} : opensValue c = true ↔
    c = '"' ∨ c = '\'' ∨ c = '-' ∨ c = '[' ∨ c.isAlpha = true ∨ c.isDigit = true := by
  simp only [opensValue, Char.isAlphanum, Bool.or_eq_true, beq_iff_eq, or_assoc]

theorem not_isWhiteSpace_of_opensValue {c : Char} (h : opensValue c = true) :
    isWhiteSpace c = false := by
  rcases opensValue_iff.1 h with rfl | rfl | rfl | rfl | h | h
  · rfl
  · rfl
  · rfl
  · rfl
  · exact not_isWhiteSpace_of_isWordChar (isWordChar_iff.2 (.inl h))
  · exact not_isWhiteSpace_of_isWordChar (isWordChar_iff.2 (.inr (.inl h)))

/-- A value does not start with a character that no value starts with. -/
theorem ne_of_opensValue {c d : Char} (h : opensValue c = true) (hd : opensValue d = false) :
    c ≠ d := by
  rintro rfl
  rw [h] at hd
  cases hd

end Draft

theorem Value.Text.eq_cons {v : Value} {s : List Char} (h : v.Text s) :
    ∃ c t, s = c :: t ∧ opensValue c = true := by
  cases h with
  | text h | integer h | boolean h =>
    obtain ⟨c, t, rfl, hc⟩ := h.eq_cons
    refine ⟨c, t, rfl, opensValue_iff.2 ?_⟩
    simp only [Lexeme.leads, Bool.or_eq_true, beq_iff_eq] at hc
    tauto
  | @float negative whole fraction fs es e hwhole =>
    cases negative with
    | true => exact ⟨_, _, rfl, rfl⟩
    | false =>
      obtain ⟨d, ds, rfl⟩ := List.exists_cons_of_ne_nil hwhole.1
      exact ⟨d, _, rfl, opensValue_iff.2 (.inr (.inr (.inr (.inr (.inr
        (hwhole.2 d List.mem_cons_self))))))⟩
  | empty | array => exact ⟨_, _, rfl, rfl⟩

theorem Draft.FractionText.not_isWhiteSpace {fraction fs : List Char}
    (h : FractionText fraction fs) : ∀ c ∈ fs, isWhiteSpace c = false := by
  cases h with
  | absent => exact List.forall_mem_nil _
  | given hds => exact List.forall_mem_cons.2 ⟨rfl, hds.not_isWhiteSpace⟩

theorem Draft.ExponentText.not_isWhiteSpace {e : Int} {es : List Char} (h : ExponentText e es) :
    ∀ c ∈ es, isWhiteSpace c = false := by
  have hmark : ∀ {mark : Char}, mark = 'e' ∨ mark = 'E' → isWhiteSpace mark = false := by
    rintro mark (rfl | rfl) <;> rfl
  cases h with
  | absent => exact List.forall_mem_nil _
  | unsigned h hds => exact List.forall_mem_cons.2 ⟨hmark h, hds.not_isWhiteSpace⟩
  | positive h hds | negative h hds =>
    exact List.forall_mem_cons.2 ⟨hmark h, List.forall_mem_cons.2 ⟨rfl, hds.not_isWhiteSpace⟩⟩

theorem Value.ItemsText.exists_append {items : List Value} {s : List Char}
    (h : ItemsText items s) : ∃ t, s = t ++ [']'] := by
  cases h with
  | last => exact ⟨_, by rw [← List.append_assoc, ← List.append_assoc]⟩
  | more _ _ _ hrest =>
    obtain ⟨t, rfl⟩ := hrest.exists_append
    exact ⟨_, by rw [← List.cons_append, ← List.append_assoc, ← List.append_assoc,
      ← List.append_assoc]⟩

theorem Value.Text.isTrimmed {v : Value} {s : List Char} (h : v.Text s) : IsTrimmed s := by
  have hclosed : ∀ t : List Char, IsTrimmed ('[' :: (t ++ [']'])) := fun t =>
    (isTrimmed_singleton rfl : IsTrimmed ['[']).append t (isTrimmed_singleton rfl)
  cases h with
  | text h | integer h | boolean h => exact h.isTrimmed
  | @float negative whole fraction fs es e hwhole hfraction hexponent =>
    have hsign : ∀ c ∈ signText negative, isWhiteSpace c = false := by
      cases negative with
      | true => exact List.forall_mem_singleton.2 rfl
      | false => exact List.forall_mem_nil _
    refine isTrimmed_of_solid ?_ ?_
    · simp [hwhole.1]
    · simp only [List.forall_mem_append]
      exact ⟨hsign, hwhole.not_isWhiteSpace, hfraction.not_isWhiteSpace,
        hexponent.not_isWhiteSpace⟩
  | empty => exact hclosed _
  | array h =>
    obtain ⟨t, rfl⟩ := h.exists_append
    exact hclosed t

/-! ### Reading -/

namespace Draft

variable {s rest gap : List Char}

/-- Items start with blanks and a value. -/
theorem symbol?_bracket_items {items : List Value} (h : Value.ItemsText items s) :
    symbol? "]" (s ++ rest) = none := by
  have hvalue : ∀ {v : Value} {before t u : List Char}, IsSpacing before → v.Text t →
      symbol? "]" (before ++ (t ++ u)) = none := by
    intro v before t u hbefore hv
    obtain ⟨c, t, rfl, hc⟩ := hv.eq_cons
    have hblank := isBlank_of_not_isWhiteSpace (not_isWhiteSpace_of_opensValue hc)
    exact symbol?_cons_eq_none hbefore hblank rfl (ne_of_opensValue hc rfl)
  cases h with
  | last hbefore hv | more hbefore hv =>
    rw [List.append_assoc, List.append_assoc]
    exact hvalue hbefore hv

-- The induction is on the rules that the value is written by. Every step of a reader takes a
-- character off, so the length of the text bounds the fuel.
mutual

theorem literal?_value : {v : Value} → {s : List Char} → v.Text s → (fuel : Nat) →
    {gap rest : List Char} → s.length ≤ fuel → IsSpacing gap → Stops rest →
    ∃ l, literal? fuel (gap ++ (s ++ rest)) = some (l, rest) ∧ l.settle = .ok v
  | _, _, h, 0, _, _, hfuel, _, _ => by
    obtain ⟨c, t, rfl, -⟩ := h.eq_cons
    cases hfuel
  | _, _, .text h, fuel + 1, gap, rest, _, hgap, _ => ⟨_, literal?_text h hgap, rfl⟩
  | _, _, .integer h, fuel + 1, gap, rest, _, hgap, hrest => literal?_integer h hgap hrest
  | _, _, @Value.Text.float negative whole fraction fs es e hwhole hfraction hexponent hne,
      fuel + 1, gap, rest, _, hgap, hrest => by
    have hnumeral := @numeral?_float _ negative _ _ _ _ _ hwhole hfraction hexponent hne hrest
    refine ⟨.float (floatOf negative whole fraction e), ?_, rfl⟩
    rw [List.append_assoc, List.append_assoc, List.append_assoc]
    cases negative with
    | true => exact literal?_numeral hgap (.inl rfl) hnumeral
    | false =>
      obtain ⟨d, ds, rfl⟩ := List.exists_cons_of_ne_nil hwhole.1
      exact literal?_numeral hgap (.inr (hwhole.2 d List.mem_cons_self)) hnumeral
  | _, _, .boolean h, fuel + 1, gap, rest, _, hgap, hrest =>
    ⟨_, literal?_boolean h hgap hrest, rfl⟩
  | _, _, @Value.Text.empty inner hinner, fuel + 1, gap, rest, _, hgap, _ => by
    have hclose : symbol? "]" (inner ++ ([']'] ++ rest)) = some rest :=
      symbol?_spaced (by decide) hinner
    refine ⟨.array [], ?_, rfl⟩
    rw [literal?, hgap.skip_append, List.cons_append, skip_cons rfl, List.append_assoc]
    simp only [hclose]
  | _, _, @Value.Text.array items s hitems, fuel + 1, gap, rest, hfuel, hgap, _ => by
    obtain ⟨ls, hls, hsettle⟩ := items?_items hitems fuel rest (Nat.le_of_succ_le_succ hfuel)
    refine ⟨.array ls, ?_, by rw [Literal.settle, hsettle]; rfl⟩
    rw [literal?, hgap.skip_append, List.cons_append, skip_cons rfl]
    simp [symbol?_bracket_items hitems, hls]

theorem items?_items : {items : List Value} → {s : List Char} → Value.ItemsText items s →
    (fuel : Nat) → (rest : List Char) → s.length ≤ fuel →
    ∃ ls, items? fuel (s ++ rest) = some (ls, rest) ∧ Literal.settleItems ls = .ok items
  | _, _, @Value.ItemsText.last v before s after hbefore hv hafter, fuel, rest, hfuel => by
    simp only [List.length_append, List.length_cons, List.length_nil] at hfuel
    simp only [List.append_assoc, List.cons_append, List.nil_append]
    match fuel with
    | fuel + 1 =>
      have hclose : Stops (after ++ ']' :: rest) := .spacing hafter (.cons rfl (by decide))
      obtain ⟨l, hl, hsettle⟩ := literal?_value hv fuel (by omega) hbefore hclose
      refine ⟨[l], ?_, by rw [Literal.settleItems, hsettle]; rfl⟩
      rw [items?, hl]
      simp [hafter.skip_append, skip_cons, isBlank]
  | _, _, @Value.ItemsText.more v items before s after t hbefore hv hafter hitems,
      fuel, rest, hfuel => by
    simp only [List.length_append, List.length_cons] at hfuel
    simp only [List.append_assoc, List.cons_append]
    match fuel with
    | fuel + 1 =>
      have hcomma : Stops (after ++ ',' :: (t ++ rest)) := .spacing hafter (.cons rfl (by decide))
      obtain ⟨l, hl, hsettle⟩ := literal?_value hv fuel (by omega) hbefore hcomma
      obtain ⟨ls, hls, hsettles⟩ := items?_items hitems fuel rest (by omega)
      refine ⟨l :: ls, ?_, by rw [Literal.settleItems, hsettle, hsettles]; rfl⟩
      rw [items?, hl]
      simp [hafter.skip_append, skip_cons, isBlank, hls]

end

/-- The value of a text, with blanks in front of it, is read from it and nothing more. -/
theorem value?_text {v : Value} (hv : v.Text s) (hgap : IsSpacing gap) (hrest : Stops rest) :
    ∃ l, value? (gap ++ (s ++ rest)) = some (l, rest) ∧ l.settle = .ok v := by
  refine literal?_value hv _ ?_ hgap hrest
  simp only [fuelFor, List.length_append]
  omega

end Draft

end PropertyGraph
