import PropertyGraph.Proofs.Command.Lexeme

/-! Reading of lexemes. The reader of a token finds the spelling of the lexeme at the front of a
text, whether there are blanks around it or not, and it finds nothing where another lexeme
stands. In a spelled text, with a gap in front of every lexeme, it leaves a spelled text. -/

namespace PropertyGraph

namespace Token

open Blank

variable {xs more : List Lexeme} {gap s rest : List Char} {w : String}

/-! ### Keywords -/

theorem afterFolded?_append (t rest : List Char) :
    afterFolded? (t.map Char.toUpper) (t ++ rest) = some rest := by
  induction t with
  | nil => rfl
  | cons c t ih =>
    rw [List.map_cons, List.cons_append, afterFolded?, if_pos rfl]
    exact ih

theorem afterFolded?_spells (h : (Lexeme.keyword w).Spells s) :
    afterFolded? w.toList (s ++ rest) = some rest := by
  cases h with
  | keyword _ hs => rw [← hs, afterFolded?_append]

theorem keyword?_spells (h : (Lexeme.keyword w).Spells s) (hgap : IsSpacing gap)
    (hrest : Stops rest) : keyword? w (gap ++ (s ++ rest)) = some rest := by
  rw [keyword?, h.skip_append hgap, afterFolded?_spells h]
  simp [hrest.atWordEnd]

/-- A keyword does not start with another letter. -/
theorem keyword?_cons_eq_none {c u : Char} {us : List Char} (hgap : IsSpacing gap)
    (hc : isBlank c = false) (hw : w.toList = u :: us) (hne : c.toUpper ≠ u) :
    keyword? w (gap ++ c :: rest) = none := by
  rw [keyword?, hgap.skip_append, skip_cons hc, hw, afterFolded?, if_neg hne]
  rfl

/-- A keyword is not found where one with another first letter stands. -/
theorem keyword?_other_spells {v : String} {vs us : List Char} {a b : Char}
    (h : (Lexeme.keyword v).Spells s) (hgap : IsSpacing gap) (hv : v.toList = a :: vs)
    (hw : w.toList = b :: us) (hne : a ≠ b) : keyword? w (gap ++ (s ++ rest)) = none := by
  obtain ⟨c, u, rfl, -⟩ := h.eq_cons
  have hblank := h.isBlank_head
  cases h with
  | keyword _ hs =>
    rw [hv, List.map_cons] at hs
    obtain ⟨rfl, -⟩ := List.cons.inj hs
    exact keyword?_cons_eq_none hgap hblank hw hne

/-- A word that ends where the spelling ends is the word that is spelled. -/
theorem eq_of_afterFolded? {ws t r : List Char} (hws : ∀ c ∈ ws, isWordChar c = true)
    (ht : ∀ c ∈ t, isWordChar c = true) (hrest : ∀ c ∈ rest.head?, Blank.isBlank c = true)
    (h : afterFolded? ws (t ++ rest) = some r) (hr : atWordEnd r = true) :
    ws = t.map Char.toUpper := by
  induction ws generalizing t with
  | nil =>
    cases t with
    | nil => rfl
    | cons c t =>
      rw [afterFolded?] at h
      cases h
      simp [atWordEnd, ht c List.mem_cons_self] at hr
  | cons w ws ih =>
    cases t with
    | nil =>
      cases rest with
      | nil => cases h
      | cons c rest =>
        have hw := hws w List.mem_cons_self
        rw [List.nil_append, afterFolded?] at h
        split at h
        · next hupper =>
          subst hupper
          rcases Blank.isBlank_iff.1 (hrest c rfl) with rfl | rfl | rfl | rfl <;>
            exact absurd hw (by decide)
        · cases h
    | cons c t =>
      rw [List.cons_append, afterFolded?] at h
      split at h
      · next hupper =>
        obtain ⟨-, hws⟩ := List.forall_mem_cons.1 hws
        obtain ⟨-, ht⟩ := List.forall_mem_cons.1 ht
        rw [List.map_cons, hupper, ih hws ht h]
      · cases h

theorem afterFolded?_keyword (h : Spelled (.keyword w :: more) s) :
    ∃ rest, afterFolded? w.toList (skip s) = some rest ∧ Spelled more rest := by
  obtain ⟨t, rest, hskip, hw, hmore⟩ := h.skip_eq
  exact ⟨rest, by rw [hskip, afterFolded?_spells hw], hmore⟩

theorem keyword?_self (h : Spelled (.keyword w :: more) s) :
    ∃ rest, keyword? w s = some rest ∧ Spelled more rest := by
  cases h with
  | cons hgap hw hmore => exact ⟨_, keyword?_spells hw hgap.2 hmore.stops, hmore⟩

/-- A keyword is not found where another keyword or a symbol stands, nor at the end. -/
theorem keyword?_eq_none (h : Spelled xs s) (hw : isKeyword w = true)
    (hxs : ∀ x ∈ xs.head?, x ≠ .keyword w ∧ x.isMark = true) : keyword? w s = none := by
  have hupper := isUpper_of_isKeyword hw
  cases hlist : w.toList with
  | nil =>
    rw [isKeyword, hlist] at hw
    cases hw
  | cons u us =>
    rw [keyword?, hlist]
    cases xs with
    | nil =>
      cases h
      rfl
    | cons x xs =>
      obtain ⟨hne, hmark⟩ := hxs x rfl
      obtain ⟨t, rest, hskip, hx, hmore⟩ := h.skip_eq
      rw [hskip]
      cases hx with
      | @keyword v _ hv ht =>
        have hword : ∀ c ∈ t, isWordChar c = true := fun c hc =>
          isWordChar_iff.2 (.inl (isAlpha_of_isKeyword hv ht c hc))
        cases hafter : afterFolded? (u :: us) (t ++ rest) with
        | none => rfl
        | some r =>
          rw [Option.bind_eq_bind, Option.bind_some, if_neg]
          intro hr
          rw [← hlist] at hafter
          have hword' : ∀ c ∈ w.toList, isWordChar c = true := fun c hc =>
            isWordChar_iff.2 (.inl (isAlpha_iff.2 (.inl (hupper c hc))))
          have heq := eq_of_afterFolded? hword' hword hmore.isBlank_head hafter hr
          rw [ht] at heq
          exact hne (congrArg _ (String.toList_injective heq).symm)
      | @symbol v hv =>
        obtain ⟨hne, hsolid⟩ := Lexeme.symbols_solid v hv
        obtain ⟨c, cs, hcons⟩ := List.exists_cons_of_ne_nil hne
        rw [hcons, List.cons_append, afterFolded?, if_neg]
        · rfl
        · intro hc
          have halpha := isAlpha_of_toUpper (hc ▸ hupper u (hlist ▸ List.mem_cons_self))
          rw [(hsolid c (hcons ▸ List.mem_cons_self)).2] at halpha
          cases halpha
      | _ => cases hmark

theorem keyword?_other {v : String} (h : Spelled (.keyword v :: more) s) (hw : isKeyword w = true)
    (hne : v ≠ w) : keyword? w s = none := by
  refine keyword?_eq_none h hw ?_
  rintro _ ⟨⟩
  exact ⟨by simpa using hne, rfl⟩

/-! ### Symbols -/

theorem isPrefixOf?_append (t rest : List Char) : t.isPrefixOf? (t ++ rest) = some rest := by
  induction t with
  | nil => rfl
  | cons c t ih => simp [List.isPrefixOf?, ih]

theorem symbol?_spaced (hw : w ∈ symbols) (hgap : IsSpacing gap) :
    symbol? w (gap ++ (w.toList ++ rest)) = some rest := by
  rw [symbol?, (Lexeme.Spells.symbol hw).skip_append hgap, isPrefixOf?_append]

/-- A symbol does not start with another character. -/
theorem symbol?_cons_eq_none {c d : Char} {ds : List Char} (hgap : IsSpacing gap)
    (hc : isBlank c = false) (hw : w.toList = d :: ds) (hne : c ≠ d) :
    symbol? w (gap ++ c :: rest) = none := by
  rw [symbol?, hgap.skip_append, skip_cons hc, hw]
  simp [List.isPrefixOf?, hne.symm]

theorem symbol?_self (h : Spelled (.symbol w :: more) s) :
    ∃ rest, symbol? w s = some rest ∧ Spelled more rest := by
  cases h with
  | cons hgap hw hmore =>
    cases hw with
    | symbol hw => exact ⟨_, symbol?_spaced hw hgap.2, hmore⟩

/-- A symbol is not found where something stands that does not start with its first
character. -/
theorem symbol?_eq_none {c : Char} {cs : List Char} (h : Spelled xs s) (hw : w.toList = c :: cs)
    (hxs : ∀ x ∈ xs.head?, x.leads c = false) : symbol? w s = none := by
  cases h with
  | nil =>
    rw [symbol?, hw]
    rfl
  | cons hgap hx =>
    obtain ⟨d, t, rfl, hd⟩ := hx.eq_cons
    refine symbol?_cons_eq_none hgap.2 hx.isBlank_head hw ?_
    rintro rfl
    rw [hxs _ rfl] at hd
    cases hd

theorem symbol?_other {x : Lexeme} {c : Char} {cs : List Char} (h : Spelled (x :: xs) s)
    (hw : w.toList = c :: cs) (hx : x.leads c = false) : symbol? w s = none := by
  refine symbol?_eq_none h hw ?_
  rintro _ ⟨⟩
  exact hx

/-! ### Names and numbers -/

theorem wordHere?_append (hw : isName w = true) (hrest : atWordEnd rest = true) :
    wordHere? (w.toList ++ rest) = some (w, rest) := by
  obtain ⟨c, t, hcons, hc, ht⟩ := isName_iff.1 hw
  have hsplit : rest.takeWhile isWordChar = [] ∧ rest.dropWhile isWordChar = rest := by
    cases rest with
    | nil => exact ⟨rfl, rfl⟩
    | cons d rest =>
      have hd : isWordChar d = false := by simpa [atWordEnd] using hrest
      simp [hd]
  rw [hcons, List.cons_append, wordHere?, if_pos hc, List.takeWhile_append_of_pos ht,
    List.dropWhile_append_of_pos ht, hsplit.1, hsplit.2, List.append_nil, ← hcons,
    String.ofList_toList]

theorem word?_spaced (hw : isName w = true) (hgap : IsSpacing gap)
    (hrest : atWordEnd rest = true) : word? (gap ++ (w.toList ++ rest)) = some (w, rest) := by
  rw [word?, (Lexeme.Spells.name hw).skip_append hgap, wordHere?_append hw hrest]

theorem word?_name (h : Spelled (.name w :: more) s) :
    ∃ rest, word? s = some (w, rest) ∧ Spelled more rest := by
  cases h with
  | cons hgap hw hmore =>
    cases hw with
    | name hw => exact ⟨_, word?_spaced hw hgap.2 hmore.stops.atWordEnd, hmore⟩

/-- The two words of a property, with the point between them. -/
theorem word?_property {x p : String} (h : Spelled (.property x p :: more) s) :
    ∃ here rest, word? s = some (x, '.' :: here) ∧ wordHere? here = some (p, rest) ∧
      Spelled more rest := by
  cases h with
  | @cons _ _ _ _ rest hgap hw hmore =>
    cases hw with
    | property hx hp =>
      refine ⟨p.toList ++ rest, rest, ?_, wordHere?_append hp hmore.stops.atWordEnd, hmore⟩
      rw [List.append_assoc, List.cons_append, word?_spaced hx hgap.2 rfl]

theorem word?_eq_none {x : Lexeme} (h : Spelled (x :: xs) s)
    (hx : ∀ c, x.leads c = true → isWordStart c = false) : word? s = none := by
  obtain ⟨c, t, hskip, hc, -⟩ := h.skip_eq_cons
  rw [word?, hskip, wordHere?, if_neg]
  rw [hx c hc]
  decide

theorem digits?_natural {n : Nat} (h : Spelled (.natural n :: more) s) :
    ∃ ds rest, digits? s = some (ds, rest) ∧ Digits.toNat ds = n ∧ Spelled more rest := by
  obtain ⟨t, rest, hskip, hw, hmore⟩ := h.skip_eq
  cases hw with
  | natural hds =>
    refine ⟨t, rest, ?_, rfl, hmore⟩
    rw [digits?, hskip, Digits.split?_append hds hmore.stops.not_isDigit]

/-! ### Quoted texts -/

theorem unescape_self {c : Char} (hn : c ≠ 'n') (ht : c ≠ 't') (hr : c ≠ 'r') :
    unescape c = c := by
  rw [unescape] <;> assumption

theorem untilQuote_backslash {quote c : Char} {cs s rest : List Char}
    (h : untilQuote quote s = some (cs, rest)) :
    untilQuote quote ('\\' :: c :: s) = some (unescape c :: cs, rest) := by
  rw [untilQuote, h]
  rfl

theorem untilQuote_append {quote : Char} {cs t : List Char} (hquote : quote = '"' ∨ quote = '\'')
    (h : Inside quote cs t) (rest : List Char) :
    untilQuote quote (t ++ quote :: rest) = some (cs, rest) := by
  induction h with
  | nil =>
    rw [List.nil_append, untilQuote]
    · simp
    · rintro c t rfl
      exact absurd hquote (by decide)
  | plain hne hslash _ ih =>
    rw [List.cons_append, untilQuote]
    · rw [if_neg hne, if_neg hslash, ih]
      rfl
    · rintro c t rfl
      exact absurd rfl hslash
  | quote _ ih =>
    have hself : unescape quote = quote := by rcases hquote with rfl | rfl <;> rfl
    have h := untilQuote_backslash ih (c := quote)
    rwa [hself] at h
  | backslash _ ih | newline _ ih | tab _ ih | carriageReturn _ ih => exact untilQuote_backslash ih
  | @other c _ _ hc _ ih =>
    simp only [List.mem_cons, List.not_mem_nil, or_false, not_or] at hc
    have h := untilQuote_backslash ih (c := c)
    rwa [unescape_self hc.2.2.1 hc.2.2.2.1 hc.2.2.2.2] at h

theorem quoted?_spells {t : String} (h : (Lexeme.text t).Spells s) (hgap : IsSpacing gap) :
    quoted? (gap ++ (s ++ rest)) = some (t, rest) := by
  rw [quoted?, h.skip_append hgap]
  cases h with
  | text hquote hinside =>
    have hread := untilQuote_append hquote hinside rest
    rcases hquote with rfl | rfl
    · simp [hread]
    · simp [hread]

theorem quoted?_cons_eq_none {c : Char} (hc : isBlank c = false) (hdouble : c ≠ '"')
    (hsingle : c ≠ '\'') : quoted? (c :: rest) = none := by
  rw [quoted?, skip_cons hc]
  split
  · next heq =>
    cases heq
    exact absurd rfl hdouble
  · next heq =>
    cases heq
    exact absurd rfl hsingle
  · rfl

theorem quoted?_text {t : String} (h : Spelled (.text t :: more) s) :
    ∃ rest, quoted? s = some (t, rest) ∧ Spelled more rest := by
  cases h with
  | cons hgap hw hmore => exact ⟨_, quoted?_spells hw hgap.2, hmore⟩

end Token

end PropertyGraph
