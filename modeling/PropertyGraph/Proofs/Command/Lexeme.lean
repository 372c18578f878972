import PropertyGraph.Command.Token
import PropertyGraph.Proofs.Text.Blank
import PropertyGraph.Proofs.Text.Digits

/-! Lexemes of command texts. A lexeme may be spelled in several ways: keywords in any letter
case, integers with zeros in front, texts in quotes of either kind. Gaps stand between the
spellings. What reads a lexeme leaves the text of the lexemes after it. -/

namespace PropertyGraph

namespace Token

/-- A letter or an underscore, and then letters, digits and underscores. -/
def isName (w : String) : Bool :=
  match w.toList with
  | [] => false
  | c :: s => (c.isAlpha || c == '_') && s.all fun d => d.isAlphanum || d == '_'

def isKeyword (w : String) : Bool := w.toList != [] && w.toList.all Char.isUpper

/-- The symbols of the language. -/
def symbols : List String :=
  ["(", ")", "[", "]", "\x7b", "\x7d", ",", ":", ";", "-[", "]->", "<-[", "]-", "<", "<=", ">",
    ">=", "=", "==", "!=", "<>"]

/-- The spelling of a text between quotes. The quote and the backslash stand behind a
backslash. So may any other character, but `n`, `t` and `r` then stand for a newline, a tab and
a carriage return. -/
inductive Inside (quote : Char) : List Char → List Char → Prop where
  | nil : Inside quote [] []
  | plain {c : Char} {cs s : List Char} : c ≠ quote → c ≠ '\\' → Inside quote cs s →
    Inside quote (c :: cs) (c :: s)
  | quote {cs s : List Char} : Inside quote cs s → Inside quote (quote :: cs) ('\\' :: quote :: s)
  | backslash {cs s : List Char} : Inside quote cs s →
    Inside quote ('\\' :: cs) ('\\' :: '\\' :: s)
  | newline {cs s : List Char} : Inside quote cs s → Inside quote ('\n' :: cs) ('\\' :: 'n' :: s)
  | tab {cs s : List Char} : Inside quote cs s → Inside quote ('\t' :: cs) ('\\' :: 't' :: s)
  | carriageReturn {cs s : List Char} : Inside quote cs s →
    Inside quote ('\r' :: cs) ('\\' :: 'r' :: s)
  | other {c : Char} {cs s : List Char} : c ∉ [quote, '\\', 'n', 't', 'r'] → Inside quote cs s →
    Inside quote (c :: cs) ('\\' :: c :: s)

end Token

open Token

/-- What the text of a command is made of. -/
inductive Lexeme where
  /-- A keyword, in upper case. -/
  | keyword (w : String)
  | name (w : String)
  /-- A property of a variable; there are no blanks at the point. -/
  | property (x p : String)
  | natural (n : Nat)
  | integer (n : Int)
  | text (s : String)
  | symbol (w : String)
deriving DecidableEq

namespace Lexeme

inductive Spells : Lexeme → List Char → Prop where
  | keyword {w : String} {s : List Char} : isKeyword w = true → s.map Char.toUpper = w.toList →
    Spells (.keyword w) s
  | name {w : String} : isName w = true → Spells (.name w) w.toList
  | property {x p : String} : isName x = true → isName p = true →
    Spells (.property x p) (x.toList ++ '.' :: p.toList)
  | natural {ds : List Char} : Digits.IsNumeral ds → Spells (.natural (Digits.toNat ds)) ds
  | positive {ds : List Char} : Digits.IsNumeral ds → Spells (.integer (Digits.toNat ds)) ds
  | negative {ds : List Char} : Digits.IsNumeral ds →
    Spells (.integer (-Digits.toNat ds)) ('-' :: ds)
  | text {quote : Char} {s : String} {cs : List Char} : quote = '"' ∨ quote = '\'' →
    Inside quote s.toList cs → Spells (.text s) (quote :: (cs ++ [quote]))
  | symbol {w : String} : w ∈ symbols → Spells (.symbol w) w.toList

/-- The characters that a spelling may start with. -/
def leads : Lexeme → Char → Bool
  | .keyword _, c => c.isAlpha
  | .name _, c | .property _ _, c => isWordStart c
  | .natural _, c => c.isDigit
  | .integer _, c => c == '-' || c.isDigit
  | .text _, c => c == '"' || c == '\''
  | .symbol w, c => w.toList.head? == some c

/-- Keywords and symbols, which are told by their spelling. -/
def isMark : Lexeme → Bool
  | .keyword _ | .symbol _ => true
  | _ => false

end Lexeme

/-- The text of some lexemes, with a gap in front of each. -/
inductive Spelled : List Lexeme → List Char → Prop where
  | nil : Spelled [] []
  | cons {x : Lexeme} {xs : List Lexeme} {gap s rest : List Char} : Blank.IsGap gap → x.Spells s →
    Spelled xs rest → Spelled (x :: xs) (gap ++ (s ++ rest))

/-! ### Characters -/

namespace Token

theorem isName_iff {w : String} : isName w = true ↔
    ∃ c s, w.toList = c :: s ∧ isWordStart c = true ∧ ∀ d ∈ s, isWordChar d = true := by
  rw [isName]
  cases w.toList with
  | nil => simp
  | cons c s => simp [isWordStart, isWordChar]

theorem isUpper_iff {c : Char} : c.isUpper = true ↔ 65 ≤ c.toNat ∧ c.toNat ≤ 90 := by
  have h : c.isUpper = decide (c.val ≥ 65 ∧ c.val ≤ 90) := rfl
  simp [h, UInt32.le_iff_toNat_le]

theorem isLower_iff {c : Char} : c.isLower = true ↔ 97 ≤ c.toNat ∧ c.toNat ≤ 122 := by
  have h : c.isLower = (decide (c.val ≥ 97) && decide (c.val ≤ 122)) := rfl
  simp [h, UInt32.le_iff_toNat_le]

theorem isDigit_iff {c : Char} : c.isDigit = true ↔ 48 ≤ c.toNat ∧ c.toNat ≤ 57 := by
  have h : c.isDigit = (decide (c.val ≥ 48) && decide (c.val ≤ 57)) := rfl
  simp [h, UInt32.le_iff_toNat_le]

theorem isAlpha_iff {c : Char} : c.isAlpha = true ↔ c.isUpper = true ∨ c.isLower = true :=
  Bool.or_eq_true_iff

theorem isWordChar_iff {c : Char} :
    isWordChar c = true ↔ c.isAlpha = true ∨ c.isDigit = true ∨ c = '_' := by
  have h : isWordChar c = (c.isAlpha || c.isDigit || c == '_') := rfl
  rw [h, Bool.or_eq_true, Bool.or_eq_true, beq_iff_eq, or_assoc]

theorem isWordChar_of_isWordStart {c : Char} (h : isWordStart c = true) :
    isWordChar c = true := by
  rw [isWordStart, Bool.or_eq_true, beq_iff_eq] at h
  rw [isWordChar_iff]
  tauto

theorem isWordChar_of_isName {w : String} (h : isName w = true) :
    ∀ c ∈ w.toList, isWordChar c = true := by
  obtain ⟨c, s, hw, hc, hs⟩ := isName_iff.1 h
  rw [hw]
  exact List.forall_mem_cons.2 ⟨isWordChar_of_isWordStart hc, hs⟩

theorem toUpper_of_not_isLower {c : Char} (h : ¬ c.isLower = true) : c.toUpper = c :=
  dif_neg fun hc => h (Bool.and_eq_true_iff.2 ⟨decide_eq_true hc.1, decide_eq_true hc.2⟩)

theorem not_isLower_of_isUpper {c : Char} (h : c.isUpper = true) : ¬ c.isLower = true := by
  rw [isUpper_iff] at h
  rw [isLower_iff]
  omega

theorem isAlpha_of_toUpper {c : Char} (h : c.toUpper.isUpper = true) : c.isAlpha = true := by
  rw [isAlpha_iff]
  by_cases hc : c.isLower = true
  · exact .inr hc
  · rw [toUpper_of_not_isLower hc] at h
    exact .inl h

theorem isUpper_of_isKeyword {w : String} (h : isKeyword w = true) :
    ∀ c ∈ w.toList, c.isUpper = true := by
  rw [isKeyword, Bool.and_eq_true, List.all_eq_true] at h
  exact h.2

/-- A spelling of a keyword is made of letters. -/
theorem isAlpha_of_isKeyword {w : String} {s : List Char} (hw : isKeyword w = true)
    (hs : s.map Char.toUpper = w.toList) : ∀ c ∈ s, c.isAlpha = true := fun c hc =>
  isAlpha_of_toUpper (isUpper_of_isKeyword hw c.toUpper (hs ▸ List.mem_map_of_mem hc))

/-- The codes of the characters of words. -/
theorem toNat_of_isWordChar {c : Char} (h : isWordChar c = true) :
    (48 ≤ c.toNat ∧ c.toNat ≤ 57) ∨ (65 ≤ c.toNat ∧ c.toNat ≤ 122) := by
  rw [isWordChar_iff, isAlpha_iff, isUpper_iff, isLower_iff, isDigit_iff] at h
  rcases h with (h | h) | h | rfl
  · omega
  · omega
  · omega
  · exact .inr (by decide)

theorem not_isWhiteSpace_of_isWordChar {c : Char} (h : isWordChar c = true) :
    Blank.isWhiteSpace c = false := by
  have hcode := toNat_of_isWordChar h
  rw [← Bool.not_eq_true]
  simp only [Blank.isWhiteSpace, Bool.or_eq_true, Bool.and_eq_true, decide_eq_true_eq, beq_iff_eq]
  omega

theorem not_isDigit_of_isAlpha {c : Char} (h : c.isAlpha = true) : c.isDigit = false := by
  rw [isAlpha_iff, isUpper_iff, isLower_iff] at h
  rw [← Bool.not_eq_true, isDigit_iff]
  omega

/-- The text ends, or goes on with something that belongs to no word and no number. -/
def Stops (rest : List Char) : Prop := ∀ c ∈ rest.head?, isWordChar c = false ∧ c ≠ '.'

namespace Stops

variable {rest : List Char}

theorem nil : Stops [] := nofun

theorem cons {c : Char} (hword : isWordChar c = false) (hpoint : c ≠ '.') : Stops (c :: rest) := by
  rintro _ ⟨⟩
  exact ⟨hword, hpoint⟩

theorem of_blank (h : ∀ c ∈ rest.head?, Blank.isBlank c = true) : Stops rest := by
  intro c hc
  rcases Blank.isBlank_iff.1 (h c hc) with rfl | rfl | rfl | rfl <;> decide

theorem gap {gap : List Char} (hgap : Blank.IsGap gap) : Stops (gap ++ rest) := by
  refine of_blank fun c hc => hgap.2.isBlank c (List.mem_of_mem_head? ?_)
  rwa [List.head?_append_of_ne_nil _ hgap.1] at hc

/-- Before a comma, a bracket or a parenthesis there may be blanks. -/
theorem spacing {gap : List Char} (hgap : Blank.IsSpacing gap) (hrest : Stops rest) :
    Stops (gap ++ rest) := by
  cases gap with
  | nil => exact hrest
  | cons c gap =>
    refine of_blank ?_
    rintro _ ⟨⟩
    exact hgap.isBlank c List.mem_cons_self

theorem not_isDigit (h : Stops rest) : ∀ c ∈ rest.head?, c.isDigit = false := by
  intro c hc
  rw [← Bool.not_eq_true]
  intro hdigit
  have hword := isWordChar_iff.2 (.inr (.inl hdigit))
  rw [(h c hc).1] at hword
  cases hword

theorem atWordEnd (h : Stops rest) : Token.atWordEnd rest = true := by
  cases rest with
  | nil => rfl
  | cons c rest => rw [Token.atWordEnd, (h c rfl).1, Bool.not_false]

end Stops

end Token

/-! ### Spellings -/

namespace Lexeme

variable {x : Lexeme} {s : List Char}

theorem symbols_solid : ∀ w ∈ symbols, w.toList ≠ [] ∧
    ∀ c ∈ w.toList, Blank.isWhiteSpace c = false ∧ c.isAlpha = false := by
  have hall : (symbols.all fun w => w.toList != [] &&
      w.toList.all fun c => !Blank.isWhiteSpace c && !c.isAlpha) = true := by decide
  simpa only [List.all_eq_true, Bool.and_eq_true, bne_iff_ne, Bool.not_eq_true'] using hall

/-- A spelling starts with one of the characters that it may start with. -/
theorem Spells.eq_cons (h : x.Spells s) : ∃ c t, s = c :: t ∧ x.leads c = true := by
  cases h with
  | @keyword w s hw hs =>
    cases s with
    | nil =>
      rw [List.map_nil] at hs
      rw [isKeyword, ← hs] at hw
      cases hw
    | cons c t =>
      exact ⟨c, t, rfl, isAlpha_of_isKeyword hw hs c List.mem_cons_self⟩
  | name hw =>
    obtain ⟨c, t, hw, hc, -⟩ := isName_iff.1 hw
    exact ⟨c, t, hw, hc⟩
  | property hx =>
    obtain ⟨c, t, hx, hc, -⟩ := isName_iff.1 hx
    exact ⟨c, _, by rw [hx, List.cons_append], hc⟩
  | natural hds =>
    obtain ⟨d, ds, rfl⟩ := List.exists_cons_of_ne_nil hds.1
    exact ⟨d, ds, rfl, hds.2 d List.mem_cons_self⟩
  | positive hds =>
    obtain ⟨d, ds, rfl⟩ := List.exists_cons_of_ne_nil hds.1
    exact ⟨d, ds, rfl, by simp [leads, hds.2 d List.mem_cons_self]⟩
  | negative => exact ⟨_, _, rfl, rfl⟩
  | text hquote => exact ⟨_, _, rfl, by rcases hquote with rfl | rfl <;> rfl⟩
  | symbol hw =>
    obtain ⟨c, t, hcons⟩ := List.exists_cons_of_ne_nil (symbols_solid _ hw).1
    exact ⟨c, t, hcons, by simp [leads, hcons]⟩

/-- Only texts have white space inside. -/
theorem Spells.not_isWhiteSpace (h : x.Spells s) (hx : ∀ t, x ≠ .text t) :
    ∀ c ∈ s, Blank.isWhiteSpace c = false := by
  have hdigit : ∀ c : Char, c.isDigit = true → Blank.isWhiteSpace c = false := fun c hc =>
    not_isWhiteSpace_of_isWordChar (isWordChar_iff.2 (.inr (.inl hc)))
  have hname : ∀ {w : String}, isName w = true → ∀ c ∈ w.toList, Blank.isWhiteSpace c = false :=
    fun hw c hc => not_isWhiteSpace_of_isWordChar (isWordChar_of_isName hw c hc)
  cases h with
  | @keyword w s hw hs =>
    intro c hc
    exact not_isWhiteSpace_of_isWordChar
      (isWordChar_iff.2 (.inl (isAlpha_of_isKeyword hw hs c hc)))
  | name hw => exact hname hw
  | property hname' hp =>
    exact List.forall_mem_append.2 ⟨hname hname', List.forall_mem_cons.2 ⟨rfl, hname hp⟩⟩
  | natural hds => exact fun c hc => hdigit c (hds.2 c hc)
  | positive hds => exact fun c hc => hdigit c (hds.2 c hc)
  | negative hds => exact List.forall_mem_cons.2 ⟨rfl, fun c hc => hdigit c (hds.2 c hc)⟩
  | text => exact absurd rfl (hx _)
  | symbol hw => exact fun c hc => ((symbols_solid _ hw).2 c hc).1

theorem Spells.isTrimmed (h : x.Spells s) : Blank.IsTrimmed s := by
  obtain ⟨c, t, hcons, -⟩ := h.eq_cons
  by_cases hx : ∃ t, x = .text t
  · obtain ⟨t, rfl⟩ := hx
    cases h with
    | @text quote _ cs hquote _ =>
      have hwhite : Blank.isWhiteSpace quote = false := by rcases hquote with rfl | rfl <;> rfl
      refine ⟨List.cons_ne_nil _ _, ?_, ?_⟩
      · rintro _ ⟨⟩
        exact hwhite
      · intro c hc
        rw [← List.cons_append, List.getLast?_concat] at hc
        cases hc
        exact hwhite
  · have hwhite := h.not_isWhiteSpace fun t ht => hx ⟨t, ht⟩
    exact Blank.isTrimmed_of_solid (by rw [hcons]; exact List.cons_ne_nil c t) hwhite

/-- A spelling has no blank at its front. -/
theorem Spells.isBlank_head {c : Char} {t : List Char} (h : x.Spells (c :: t)) :
    Blank.isBlank c = false :=
  Blank.isBlank_of_not_isWhiteSpace (h.isTrimmed.head c rfl)

theorem Spells.skip_append {gap : List Char} (h : x.Spells s) (hgap : Blank.IsSpacing gap)
    (rest : List Char) : Blank.skip (gap ++ (s ++ rest)) = s ++ rest := by
  obtain ⟨c, t, rfl, -⟩ := h.eq_cons
  rw [hgap.skip_append, List.cons_append, Blank.skip_cons h.isBlank_head]

end Lexeme

namespace Spelled

variable {x : Lexeme} {xs : List Lexeme} {s : List Char}

/-- Behind a lexeme the text ends or a gap follows. -/
theorem isBlank_head (h : Spelled xs s) : ∀ c ∈ s.head?, Blank.isBlank c = true := by
  cases h with
  | nil => nofun
  | cons hgap =>
    obtain ⟨c, gap, rfl⟩ := List.exists_cons_of_ne_nil hgap.1
    rintro _ ⟨⟩
    exact hgap.2.isBlank c List.mem_cons_self

theorem stops (h : Spelled xs s) : Stops s := .of_blank h.isBlank_head

/-- The gap is skipped. -/
theorem skip_eq (h : Spelled (x :: xs) s) :
    ∃ t rest, Blank.skip s = t ++ rest ∧ x.Spells t ∧ Spelled xs rest := by
  cases h with
  | @cons _ _ gap t rest hgap hx hxs => exact ⟨t, rest, hx.skip_append hgap.2 rest, hx, hxs⟩

theorem skip_eq_cons (h : Spelled (x :: xs) s) :
    ∃ c t, Blank.skip s = c :: t ∧ x.leads c = true ∧ Blank.isBlank c = false := by
  obtain ⟨t, rest, hskip, hx, -⟩ := h.skip_eq
  obtain ⟨c, u, rfl, hc⟩ := hx.eq_cons
  exact ⟨c, u ++ rest, hskip, hc, hx.isBlank_head⟩

/-- There are at least as many characters as lexemes. -/
theorem length_le (h : Spelled xs s) : xs.length ≤ s.length := by
  induction h with
  | nil => exact Nat.le_refl 0
  | cons hgap _ _ ih =>
    have hpos := List.length_pos_iff.2 hgap.1
    simp only [List.length_cons, List.length_append]
    omega

theorem length_left_le {ys : List Lexeme} (h : Spelled (xs ++ ys) s) : xs.length ≤ s.length :=
  Nat.le_of_add_right_le (List.length_append ▸ h.length_le)

end Spelled

end PropertyGraph
