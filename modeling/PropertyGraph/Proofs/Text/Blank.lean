import Mathlib.Data.List.DropRight
import PropertyGraph.Text.Blank

/-! Blanks are skipped, and a text that has no white space at its ends is found again in a text
that has it around. -/

namespace PropertyGraph.Blank

theorem skip_append {b : List Char} (hb : ∀ c ∈ b, isBlank c = true) (s : List Char) :
    skip (b ++ s) = skip s := List.dropWhile_append_of_pos hb

theorem skip_cons {c : Char} (hc : isBlank c = false) (s : List Char) :
    skip (c :: s) = c :: s := List.dropWhile_cons_of_neg (by rw [hc]; decide)

theorem skip_skip (s : List Char) : skip (skip s) = skip s := List.dropWhile_idempotent ..

theorem length_skip_le (s : List Char) : (skip s).length ≤ s.length :=
  (List.dropWhile_suffix _).length_le

theorem isBlank_iff {c : Char} :
    isBlank c = true ↔ c = ' ' ∨ c = '\t' ∨ c = '\n' ∨ c = '\r' := by
  simp only [isBlank, Bool.or_eq_true, beq_iff_eq, or_assoc]

theorem isWhiteSpace_of_isBlank {c : Char} (h : isBlank c = true) : isWhiteSpace c = true := by
  rcases isBlank_iff.1 h with rfl | rfl | rfl | rfl <;> rfl

theorem isBlank_of_not_isWhiteSpace {c : Char} (h : isWhiteSpace c = false) :
    isBlank c = false := by
  rw [← Bool.not_eq_true]
  intro hc
  rw [isWhiteSpace_of_isBlank hc] at h
  cases h

/-- A run of spaces, tabs, newlines and carriage returns; it may be empty. -/
def IsSpacing (gap : List Char) : Prop := ∀ c ∈ gap, c = ' ' ∨ c = '\t' ∨ c = '\n' ∨ c = '\r'

/-- A run of spaces, tabs, newlines and carriage returns that is not empty. -/
def IsGap (gap : List Char) : Prop := gap ≠ [] ∧ IsSpacing gap

theorem isSpacing_nil : IsSpacing [] := List.forall_mem_nil _

theorem isGap_singleton {c : Char} (h : isBlank c = true) : IsGap [c] :=
  ⟨List.cons_ne_nil _ _, List.forall_mem_singleton.2 (isBlank_iff.1 h)⟩

theorem IsSpacing.isBlank {gap : List Char} (hgap : IsSpacing gap) :
    ∀ c ∈ gap, Blank.isBlank c = true := fun c hc => isBlank_iff.2 (hgap c hc)

theorem IsSpacing.skip_append {gap : List Char} (hgap : IsSpacing gap) (s : List Char) :
    skip (gap ++ s) = skip s := Blank.skip_append hgap.isBlank s

/-- The text is not empty and has no white space at its ends. -/
structure IsTrimmed (s : List Char) : Prop where
  ne_nil : s ≠ []
  head : ∀ c ∈ s.head?, isWhiteSpace c = false
  last : ∀ c ∈ s.getLast?, isWhiteSpace c = false

theorem isTrimmed_of_solid {s : List Char} (hne : s ≠ [])
    (h : ∀ c ∈ s, isWhiteSpace c = false) : IsTrimmed s :=
  ⟨hne, fun c hc => h c (List.mem_of_mem_head? hc), fun c hc => h c (List.mem_of_mem_getLast? hc)⟩

theorem isTrimmed_singleton {c : Char} (h : isWhiteSpace c = false) : IsTrimmed [c] :=
  isTrimmed_of_solid (List.cons_ne_nil c []) (List.forall_mem_singleton.2 h)

/-- Only the ends of a text tell whether it is trimmed. -/
theorem IsTrimmed.append {s t : List Char} (hs : IsTrimmed s) (middle : List Char)
    (ht : IsTrimmed t) : IsTrimmed (s ++ (middle ++ t)) where
  ne_nil := List.append_ne_nil_of_left_ne_nil hs.ne_nil _
  head := by
    rw [List.head?_append_of_ne_nil _ hs.ne_nil]
    exact hs.head
  last := by
    rw [← List.append_assoc, List.getLast?_append_of_ne_nil _ ht.ne_nil]
    exact ht.last

theorem dropWhile_append_of_head {lead s : List Char} (hlead : ∀ c ∈ lead, isWhiteSpace c = true)
    (hs : ∀ c ∈ s.head?, isWhiteSpace c = false) :
    (lead ++ s).dropWhile isWhiteSpace = s := by
  rw [List.dropWhile_append_of_pos hlead]
  cases s with
  | nil => rfl
  | cons c s => exact List.dropWhile_cons_of_neg (by rw [hs c rfl]; decide)

theorem trimChars_append {lead s trail : List Char} (hlead : ∀ c ∈ lead, isWhiteSpace c = true)
    (htrail : ∀ c ∈ trail, isWhiteSpace c = true) (hs : IsTrimmed s) :
    trimChars (lead ++ (s ++ trail)) = s := by
  have hhead : ∀ c ∈ (s ++ trail).head?, isWhiteSpace c = false := by
    rw [List.head?_append_of_ne_nil _ hs.ne_nil]
    exact hs.head
  have hlast : ∀ c ∈ s.reverse.head?, isWhiteSpace c = false := by
    rw [List.head?_reverse]
    exact hs.last
  have htail : ∀ c ∈ trail.reverse, isWhiteSpace c = true :=
    fun c hc => htrail c (List.mem_reverse.1 hc)
  rw [trimChars, dropWhile_append_of_head hlead hhead, List.reverse_append,
    dropWhile_append_of_head htail hlast, List.reverse_reverse]

theorem isWhiteSpace_getLast?_trimChars {s : List Char} :
    ∀ c ∈ (trimChars s).getLast?, isWhiteSpace c = false := by
  intro c hc
  have hhead := List.head?_dropWhile_not isWhiteSpace (s.dropWhile isWhiteSpace).reverse
  rw [trimChars, List.getLast?_reverse] at hc
  rw [Option.mem_def.1 hc] at hhead
  exact hhead

theorem isTrimmed_trimChars {s : List Char} (h : trimChars s ≠ []) : IsTrimmed (trimChars s) where
  ne_nil := h
  head := by
    obtain ⟨v, hv⟩ : trimChars s <+: s.dropWhile isWhiteSpace :=
      List.rdropWhile_prefix isWhiteSpace (s.dropWhile isWhiteSpace)
    have hhead := List.head?_dropWhile_not isWhiteSpace s
    rw [← hv, List.head?_append_of_ne_nil _ h] at hhead
    intro c hc
    rw [Option.mem_def.1 hc] at hhead
    exact hhead
  last := isWhiteSpace_getLast?_trimChars

end PropertyGraph.Blank
