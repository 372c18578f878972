import PropertyGraph.Proofs.Command.Token
import PropertyGraph.Proofs.Grammar.Opening

/-! Conditions on their own and behind WHERE. A condition that is read on its own is read in the
same way at the end of a pattern, and with the same fault. The one difference is a semicolon, which
may end a command and not a condition. -/

namespace PropertyGraph

open Blank Draft Grammar Token

variable {s t u rest : List Char} {label : String} {c : Chain}

/-! ### The same condition behind other blanks -/

/-- A condition is found behind any blanks. The reader that has other fuel might only be stuck at
an AND or OR. -/
theorem Draft.chain?_congr (h : skip s = skip t) (hread : chain? s = some (c, rest))
    (hrest : ¬ AtLetter (skip rest)) :
    ∃ c' rest', chain? t = some (c', rest') ∧ c'.settle = c.settle ∧ skip rest' = skip rest := by
  have hs := agrees_chain s
  have ht := agrees_chain t
  rw [hread] at hs
  cases hs with
  | found hrun hu hc =>
    -- The grammar has one run on both texts, whatever the fuel of the readers is.
    rw [h] at hrun
    generalize chain? t = read at ht ⊢
    cases ht with
    | @found c' _ _ rest' hrun' hu' hc' =>
      cases hrun.unique hrun'
      obtain ⟨tree, rfl, -, hstands⟩ := hc
      obtain ⟨tree', htrees, -, hstands'⟩ := hc'
      cases htrees
      exact ⟨c', rest', rfl, hstands'.unique hstands, hu'.symm.trans hu⟩
    | missed hrun' => cases hrun.unique hrun'
    | stuck hrun' hstuck =>
      cases hrun.unique hrun'
      rw [hu] at hstuck
      exact absurd hstuck hrest

/-! ### The command -/

/-- A pattern and the word WHERE, with a text behind it. -/
def behindWhere (label : String) (s : List Char) : List Char :=
  "MATCH (a:".toList ++ (label.toList ++ (") WHERE".toList ++ s))

theorem keyword?_match (s : List Char) :
    keyword? "MATCH" ("MATCH (a:".toList ++ s) = some (" (a:".toList ++ s) := by
  have hafter : afterFolded? "MATCH".toList (skip ("MATCH (a:".toList ++ s)) =
      some (" (a:".toList ++ s) := rfl
  rw [keyword?, hafter]
  rfl

theorem keyword?_where (hu : atWordEnd u = true) :
    keyword? "WHERE" (" WHERE".toList ++ u) = some u := by
  have hafter : afterFolded? "WHERE".toList (skip (" WHERE".toList ++ u)) = some u := rfl
  rw [keyword?, hafter, Option.bind_eq_bind, Option.bind_some, if_pos hu]

theorem nodeSlot?_pattern (hlabel : isName label = true) (u : List Char) :
    nodeSlot? (" (a:".toList ++ (label.toList ++ (") WHERE".toList ++ u))) =
      some (⟨some "a", label⟩, " WHERE".toList ++ u) := by
  have hopen : symbol? "(" (" (a:".toList ++ (label.toList ++ (") WHERE".toList ++ u))) =
      some ("a:".toList ++ (label.toList ++ (") WHERE".toList ++ u))) := rfl
  have hname : word? ("a:".toList ++ (label.toList ++ (") WHERE".toList ++ u))) =
      some ("a", ":".toList ++ (label.toList ++ (") WHERE".toList ++ u))) := rfl
  have hcolon : symbol? ":" (":".toList ++ (label.toList ++ (") WHERE".toList ++ u))) =
      some (label.toList ++ (") WHERE".toList ++ u)) := rfl
  have hword : word? (label.toList ++ (") WHERE".toList ++ u)) =
      some (label, ") WHERE".toList ++ u) := word?_spaced hlabel isSpacing_nil rfl
  have hclose : symbol? ")" (") WHERE".toList ++ u) = some (" WHERE".toList ++ u) := rfl
  rw [nodeSlot?, hopen, Option.bind_eq_bind, Option.bind_some, tagged?, hname]
  simp only [Option.bind_eq_bind, Option.bind_some, hcolon, hword, hclose]

theorem readChars_behindWhere (hlabel : isName label = true) (hu : atWordEnd u = true) :
    readChars (behindWhere label u) = chain? u >>= fun c =>
      if (skip (afterSemicolon c.2)).isEmpty then
        some (.findMatches ⟨⟨some "a", label⟩, []⟩ (some c.1)) else none := by
  have hmem : ("MATCH", match?) ∈ openings := by simp [openings]
  have hkey : ∀ o ∈ openings, isKeyword o.1 = true := by decide
  have hne : openings.Pairwise fun a b => a.1 ≠ b.1 := by decide
  have hstatement : statement? (behindWhere label u) =
      match? (" (a:".toList ++ (label.toList ++ (") WHERE".toList ++ u))) :=
    findSome?_opening hkey hne hmem (keyword?_match _)
  have hsegments : ∀ fuel, segments? (fuel + 1) (" WHERE".toList ++ u) =
      some ([], " WHERE".toList ++ u) := fun _ => rfl
  rw [readChars, hstatement, match?, nodeSlot?_pattern hlabel]
  simp only [Option.bind_eq_bind, Option.bind_some, hsegments, clause?, keyword?_where hu]
  cases chain? u <;> rfl

/-- Behind a text that is trimmed, another one that is trimmed keeps the blank before it, and only
an empty one loses it. -/
theorem trimChars_between {lead : List Char} (hlead : IsTrimmed lead) (middle : List Char)
    {last : List Char} (hlast : IsTrimmed last) (ht : trimChars t = t) :
    ∃ u, trimChars (lead ++ (middle ++ (last ++ ' ' :: t))) = lead ++ (middle ++ (last ++ u)) ∧
      atWordEnd u = true ∧ skip u = skip t := by
  by_cases hempty : t = []
  · subst hempty
    have hblank : ∀ c ∈ [' '], isWhiteSpace c = true := List.forall_mem_singleton.2 rfl
    have h := trimChars_append (List.forall_mem_nil _) hblank (hlead.append middle hlast)
    refine ⟨[], ?_, rfl, rfl⟩
    rwa [List.nil_append, List.append_assoc, List.append_assoc, ← List.append_nil last,
      List.append_assoc, List.nil_append] at h
  · have htrimmed : IsTrimmed t := ht ▸ isTrimmed_trimChars (ht.symm ▸ hempty)
    have h := trimChars_append (List.forall_mem_nil _) (List.forall_mem_nil _)
      (hlead.append (middle ++ (last ++ [' '])) htrimmed)
    rw [List.nil_append, List.append_nil, List.append_assoc, List.append_assoc,
      List.singleton_append] at h
    exact ⟨' ' :: t, h, rfl, rfl⟩

theorem isTrimmed_match : IsTrimmed "MATCH (a:".toList :=
  (isTrimmed_singleton (c := 'M') rfl).append "ATCH (a".toList (isTrimmed_singleton (c := ':') rfl)

theorem isTrimmed_where : IsTrimmed ") WHERE".toList :=
  (isTrimmed_singleton (c := ')') rfl).append " WHER".toList (isTrimmed_singleton (c := 'E') rfl)

theorem trimChars_behindWhere (label : String) (ht : trimChars t = t) :
    ∃ u, trimChars (behindWhere label (' ' :: t)) = behindWhere label u ∧ atWordEnd u = true ∧
      skip u = skip t :=
  trimChars_between isTrimmed_match label.toList isTrimmed_where ht

/-! ### Agreement -/

theorem readChars_of_readChain (hlabel : isName label = true) (hu : atWordEnd u = true)
    (hskip : skip u = skip t) (h : readChain t = some c) :
    ∃ c', readChars (behindWhere label u) = some (.findMatches ⟨⟨some "a", label⟩, []⟩ (some c')) ∧
      c'.settle = c.settle := by
  rw [readChain, Option.bind_eq_bind, Option.bind_eq_some_iff] at h
  obtain ⟨⟨d, rest⟩, hread, h⟩ := h
  dsimp only at h
  split at h
  · next hend =>
    cases h
    rw [List.isEmpty_iff] at hend
    obtain ⟨c', rest', hread', hsettle, hrest⟩ := chain?_congr hskip.symm hread (by
      rw [hend]
      nofun)
    rw [hend] at hrest
    refine ⟨c', ?_, hsettle⟩
    have hnone : symbol? ";" rest' = none := by
      rw [symbol?, hrest]
      rfl
    rw [readChars_behindWhere hlabel hu, hread', Option.bind_eq_bind, Option.bind_some,
      afterSemicolon, hnone, Option.getD_none, hrest]
    rfl
  · cases h

/-- Where the text does not end in a semicolon, there is none behind what was read. -/
theorem skip_afterSemicolon (hsuffix : skip rest <:+ t) (ht : trimChars t = t)
    (hsemicolon : t.getLast? ≠ some ';') (hend : skip (afterSemicolon rest) = []) :
    skip rest = [] := by
  rw [afterSemicolon] at hend
  cases hread : symbol? ";" rest with
  | none => rwa [hread] at hend
  | some v =>
    rw [hread, Option.getD_some] at hend
    have hskip : skip rest = ';' :: v := symbol?_eq hread
    rw [hskip] at hsuffix
    obtain ⟨w, rfl⟩ := hsuffix
    have hlast := isWhiteSpace_getLast?_trimChars (s := w ++ ';' :: v)
    rw [ht] at hlast
    cases hv : v.getLast? with
    | none =>
      rw [List.getLast?_eq_none_iff.1 hv, List.getLast?_concat] at hsemicolon
      exact absurd rfl hsemicolon
    | some c =>
      have hblank : isBlank c = true :=
        List.dropWhile_eq_nil_iff.1 hend c (List.mem_of_getLast? hv)
      have hwhite : isWhiteSpace c = false := by
        refine hlast c ?_
        rw [List.append_cons, List.getLast?_append_of_ne_nil _ ?_]
        · exact hv
        · rintro rfl
          cases hv
      rw [isWhiteSpace_of_isBlank hblank] at hwhite
      cases hwhite

theorem readChain_of_readChars {d : Draft} (hlabel : isName label = true)
    (hu : atWordEnd u = true) (hskip : skip u = skip t) (ht : trimChars t = t)
    (hsemicolon : t.getLast? ≠ some ';') (h : readChars (behindWhere label u) = some d) :
    ∃ c c', readChain t = some c ∧ d = .findMatches ⟨⟨some "a", label⟩, []⟩ (some c') ∧
      c'.settle = c.settle := by
  rw [readChars_behindWhere hlabel hu, Option.bind_eq_bind, Option.bind_eq_some_iff] at h
  obtain ⟨⟨c', rest⟩, hread, h⟩ := h
  dsimp only at h
  split at h
  · next hend =>
    cases h
    have hagree := agrees_chain u
    rw [hread] at hagree
    have hsuffix : skip rest <:+ t := by
      have hleft := hagree.suffix
      rw [hskip] at hleft
      exact hleft.trans (List.dropWhile_suffix _)
    have hrest := skip_afterSemicolon hsuffix ht hsemicolon (List.isEmpty_iff.1 hend)
    obtain ⟨c, rest', hread', hsettle, hrest'⟩ := chain?_congr hskip hread (by
      rw [hrest]
      nofun)
    refine ⟨c, c', ?_, rfl, hsettle.symm⟩
    rw [readChain, hread', Option.bind_eq_bind, Option.bind_some]
    dsimp only
    rw [hrest', hrest]
    rfl
  · cases h

namespace Condition

variable {text : String}

/-- The command that asks for the nodes of a label that meet a condition. -/
def underWhere (label text : String) : String := "MATCH (a:" ++ label ++ ") WHERE " ++ text

theorem toList_underWhere (label text : String) :
    (underWhere label text).toList = behindWhere label (' ' :: text.toList) := by
  rw [underWhere, String.toList_append, String.toList_append, String.toList_append,
    List.append_assoc, List.append_assoc]
  rfl

/-- Only a semicolon that ends the text makes a difference between the two readers. -/
theorem read_underWhere (hlabel : isName label = true)
    (htrim : trimChars text.toList = text.toList)
    (h : Condition.read text ≠ .error .unreadable ∨ text.toList.getLast? ≠ some ';') :
    Command.read (underWhere label text) =
      (Condition.read text).map (.findMatches ⟨⟨some "a", label⟩, []⟩) := by
  obtain ⟨u, hu, hend, hskip⟩ := trimChars_behindWhere label htrim
  rw [Condition.read, htrim] at h
  rw [Condition.read, htrim, Command.read, toList_underWhere, hu]
  cases hread : readChain text.toList with
  | some c =>
    obtain ⟨c', hread', hsettle⟩ := readChars_of_readChain hlabel hend hskip hread
    rw [hread']
    dsimp only [Draft.settle, settleCondition]
    rw [hsettle]
    cases c.settle <;> rfl
  | none =>
    rw [hread] at h
    obtain h | hlast := h
    · exact absurd rfl h
    cases hread' : readChars (behindWhere label u) with
    | none => rfl
    | some d =>
      obtain ⟨c, -, hfound, -⟩ := readChain_of_readChars hlabel hend hskip htrim hlast hread'
      cases hread.symm.trans hfound

/-- The readers of conditions and of commands agree: what is read on its own is read behind WHERE,
what is read there and does not end in a semicolon is read on its own, and a fault stays the
same. -/
theorem readers_agree (hlabel : isName label = true)
    (htrim : trimChars text.toList = text.toList) :
    (∀ c, Condition.read text = .ok c →
      Command.read (underWhere label text) = .ok (.findMatches ⟨⟨some "a", label⟩, []⟩ c)) ∧
    (text.toList.getLast? ≠ some ';' → ∀ command,
      Command.read (underWhere label text) = .ok command →
        ∃ c, command = .findMatches ⟨⟨some "a", label⟩, []⟩ c ∧ Condition.read text = .ok c) ∧
    ∀ f, Condition.read text = .error (.fault f) →
      Command.read (underWhere label text) = .error (.fault f) := by
  refine ⟨fun c hread => ?_, fun hlast command hread => ?_, fun f hread => ?_⟩
  · rw [read_underWhere hlabel htrim (.inl (by rw [hread]; nofun)), hread]
    rfl
  · rw [read_underWhere hlabel htrim (.inr hlast)] at hread
    cases hc : Condition.read text with
    | error e =>
      rw [hc] at hread
      cases hread
    | ok c =>
      rw [hc] at hread
      cases hread
      exact ⟨c, rfl, rfl⟩
  · rw [read_underWhere hlabel htrim (.inl (by rw [hread]; nofun)), hread]
    rfl

/-- A text may hold a semicolon and the word WHERE. One that ends in a semicolon is read behind
WHERE only. -/
theorem readers_agree_semicolons :
    Command.read (underWhere "P" "a.x = ' WHERE ;' and (a.y < 3)") =
      .ok (.findMatches ⟨⟨some "a", "P"⟩, []⟩
        (.and (.comparison "a" "x" .eq (.text " WHERE ;"))
          (.comparison "a" "y" .lt (.integer 3)))) ∧
    (∀ command, Command.read (underWhere "P" "a.x = ' WHERE ;' and (a.y < 3)") = .ok command →
      ∃ c, command = .findMatches ⟨⟨some "a", "P"⟩, []⟩ c ∧
        Condition.read "a.x = ' WHERE ;' and (a.y < 3)" = .ok c) ∧
    Command.read (underWhere "P" "a.x <> [true, 9223372036854775808]") =
      .error (.fault (.integerTooLarge "9223372036854775808")) ∧
    Condition.read "a.y < 3;" = .error .unreadable ∧
    Command.read (underWhere "P" "a.y < 3;") =
      .ok (.findMatches ⟨⟨some "a", "P"⟩, []⟩ (.comparison "a" "y" .lt (.integer 3))) := by
  have hlabel : isName "P" = true := by decide
  have hfound := @readers_agree "P" "a.x = ' WHERE ;' and (a.y < 3)" hlabel rfl
  have hfault := @readers_agree "P" "a.x <> [true, 9223372036854775808]" hlabel rfl
  exact ⟨hfound.1 _ (by decide +kernel), hfound.2.1 (by decide), hfault.2.2 _ (by decide +kernel),
    by decide +kernel, by decide +kernel⟩

end Condition

end PropertyGraph
