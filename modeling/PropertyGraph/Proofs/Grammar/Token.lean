import Mathlib.Data.List.TakeWhile
import PropertyGraph.Proofs.Grammar.Keyword
import PropertyGraph.Proofs.Grammar.Settling

/-! The readers of tokens agree with the rules for tokens: symbols, of which no tree is kept, words,
ids, quoted texts and paths. -/

namespace PropertyGraph.Grammar

open Blank Token

variable {r : Rule} {m : Mode} {s t rest : List Char} {w : String}
  {stuck : List Char → Prop}

/-! ### Symbols -/

/-- No trees. -/
def NoTrees (ts : List Tree) : Prop := ts = []

theorem passes_symbol (w : String) (s : List Char) :
    Passes (.text w) NoTrees s (symbol? w s) := by
  have hrun := Run.text .spaced w (skip s)
  rw [symbol?]
  cases h : w.toList.isPrefixOf? (skip s) with
  | none =>
    rw [h] at hrun
    exact .missed hrun
  | some rest =>
    rw [h] at hrun
    exact .found hrun rfl rfl

theorem symbol?_eq (h : symbol? w s = some rest) : skip s = w.toList ++ rest :=
  (List.isPrefixOf?_eq_some_iff_append_eq.1 h).symm

theorem passes_folded (w : String) (s : List Char) :
    Passes (.folded w) NoTrees s (afterFolded? (w.toList.map Char.toUpper) (skip s)) := by
  have hrun := Run.folded .spaced w (skip s)
  cases h : afterFolded? (w.toList.map Char.toUpper) (skip s) with
  | none =>
    rw [h] at hrun
    exact .missed hrun
  | some rest =>
    rw [h] at hrun
    exact .found hrun rfl rfl

/-! ### Words and digits -/

/-- The tree of a word. -/
def Named (r : Rule) (w : String) (ts : List Tree) : Prop := ts = [⟨r, w.toList, []⟩]

/-- The tree of a run of digits. -/
def Numbered (r : Rule) (digits : List Char) (ts : List Tree) : Prop :=
  ts = [⟨r, digits, []⟩] ∧ Digits.IsNumeral digits

theorem wordHere?_eq (h : wordHere? s = some (w, rest)) : s = w.toList ++ rest := by
  cases s with
  | nil => cases h
  | cons c s =>
    rw [wordHere?] at h
    split at h
    · cases h
      rw [String.toList_ofList, List.cons_append, List.takeWhile_append_dropWhile]
    · cases h

theorem run_word (hm : m ≠ .spaced) (s : List Char) :
    Run m (.rule .word) s (bare ((wordHere? s).map Prod.snd)) := by
  have hrun := isChar_wordStart.seq_star hm isChar_wordChar s
  refine .silent rfl ?_
  cases s with
  | nil => exact hrun
  | cons c s =>
    rw [afterChar?] at hrun
    rw [wordHere?]
    split
    · next hc =>
      rw [if_pos hc] at hrun
      exact hrun
    · next hc =>
      rw [if_neg hc] at hrun
      exact hrun

/-- A rule for words, where it is called without blanks in front. -/
theorem run_name (hm : m ≠ .atomic) (hr : r.style = .atomic) (hbody : r.body = .rule .word)
    (s : List Char) : Run m (.rule r) s
      ((wordHere? s).map fun x => ([⟨r, x.1.toList, []⟩], x.2)) := by
  have hrun := run_word (m := .atomic) (by decide) s
  rw [← hbody] at hrun
  cases h : wordHere? s with
  | none =>
    rw [h] at hrun
    exact .atomic_none hr hrun
  | some x =>
    rw [h] at hrun
    have hconsumed : consumed s x.2 = x.1.toList := by
      rw [wordHere?_eq h, consumed_append]
    rw [Option.map_some, ← hconsumed]
    exact hrun.atomic hm hr

theorem agrees_word (hr : r.style = .atomic) (hbody : r.body = .rule .word) (s : List Char) :
    Agrees (.rule r) (Named r) stuck s (word? s) := by
  have hrun := run_name (m := .spaced) (by decide) hr hbody (skip s)
  rw [word?]
  cases h : wordHere? (skip s) with
  | none =>
    rw [h] at hrun
    exact .missed hrun
  | some x =>
    rw [h] at hrun
    exact .found hrun rfl rfl

theorem split?_eq {digits : List Char} (h : Digits.split? s = some (digits, rest)) :
    s = digits ++ rest ∧ Digits.IsNumeral digits := by
  have happend := List.takeWhile_append_dropWhile (p := Char.isDigit) (l := s)
  rw [Digits.split?, Digits.split] at h
  cases hs : s.takeWhile Char.isDigit with
  | nil =>
    rw [hs] at h
    cases h
  | cons d ds =>
    rw [hs] at h
    cases h
    refine ⟨by rw [← hs, happend], List.cons_ne_nil d ds, fun c hc => ?_⟩
    rw [← hs] at hc
    exact List.mem_takeWhile_imp hc

theorem run_digits (hm : m ≠ .spaced) (s : List Char) :
    Run m .digits s (bare ((Digits.split? s).map Prod.snd)) := by
  have hrun := Expr.IsChar.seq_star hm (Run.char m Char.isDigit) (Run.char m Char.isDigit) s
  have heq : (afterChar? Char.isDigit s).map (fun rest => rest.dropWhile Char.isDigit) =
      (Digits.split? s).map Prod.snd := by
    cases s with
    | nil => rfl
    | cons c s =>
      rw [afterChar?, Digits.split?, Digits.split]
      by_cases hc : c.isDigit = true
      · simp [hc]
      · simp [hc]
  rwa [heq] at hrun

theorem agrees_digits (hr : r.style = .atomic) (hbody : r.body = .digits) (s : List Char) :
    Agrees (.rule r) (Numbered r) stuck s (digits? s) := by
  have hrun := run_digits (m := .atomic) (by decide) (skip s)
  rw [← hbody] at hrun
  rw [digits?]
  cases h : Digits.split? (skip s) with
  | none =>
    rw [h] at hrun
    exact .missed (.atomic_none hr hrun)
  | some x =>
    obtain ⟨digits, rest⟩ := x
    rw [h] at hrun
    obtain ⟨hs, hdigits⟩ := split?_eq h
    have hconsumed : consumed (skip s) rest = digits := by rw [hs, consumed_append]
    refine .found (hrun.atomic (by decide) hr) rfl ⟨?_, hdigits⟩
    rw [hconsumed]

/-! ### Quoted texts -/

section

variable {quote : Char} {q : String} {c : Char}

theorem isChar_plain (hq : q.toList = [quote]) :
    (Expr.seq (.not (.choice (.text q) (.text "\\"))) .anyChar).IsChar .atomic
      fun c => !(c == quote || c == '\\') :=
  ((Expr.isChar_text hq).choice (Expr.isChar_text rfl)).except (by decide)

theorem isChar_backslash : (Expr.text "\\").IsChar .atomic fun c => c == '\\' :=
  Expr.isChar_text rfl

theorem run_piece_plain (hq : q.toList = [quote]) (hquote : c ≠ quote) (hslash : c ≠ '\\')
    (s : List Char) : Run .atomic (.piece q) (c :: s) (some ([], s)) := by
  have hplain := isChar_plain hq (c :: s)
  rw [afterChar?, if_pos (by simp [hquote, hslash])] at hplain
  exact .choice_left hplain

theorem run_piece_escaped (hq : q.toList = [quote]) (c : Char) (s : List Char) :
    Run .atomic (.piece q) ('\\' :: c :: s) (some ([], s)) := by
  have hplain := isChar_plain hq ('\\' :: c :: s)
  rw [afterChar?, if_neg (by simp)] at hplain
  have hescaped : Run .atomic (.seq (.text "\\") .anyChar) ('\\' :: c :: s) (some ([], s)) :=
    .seq_bare (by decide) (isChar_backslash ('\\' :: c :: s)) (.char .atomic _ (c :: s))
  exact .choice_right hplain hescaped

/-- A piece is missing at the end, at the quote and at a backslash with nothing behind. -/
theorem run_piece_none (hq : q.toList = [quote]) (hne : quote ≠ '\\')
    (h : s = [] ∨ (∃ t, s = quote :: t) ∨ s = ['\\']) : Run .atomic (.piece q) s none := by
  have hplain := isChar_plain hq s
  have hslash := isChar_backslash s
  rcases h with rfl | ⟨t, rfl⟩ | rfl
  · exact .choice_right hplain (.seq_none hslash)
  · rw [afterChar?, if_neg (by simp)] at hplain
    rw [afterChar?, if_neg (by simpa using hne)] at hslash
    exact .choice_right hplain (.seq_none hslash)
  · rw [afterChar?, if_neg (by simp)] at hplain
    have hescaped : Run .atomic (.seq (.text "\\") .anyChar) ['\\'] none :=
      @Run.seq_bare _ _ _ _ _ none (by decide) hslash (.char .atomic _ [])
    exact .choice_right hplain hescaped

/-- The reader knows the escapes. -/
theorem resolve_backslash (c : Char) (s : List Char) :
    resolve ('\\' :: c :: s) = (resolve s).map (unescape c :: ·) := by
  unfold unescape
  split
  · rw [resolve]
  · rw [resolve]
  · rw [resolve]
  · next hn ht hr =>
    rw [resolve]
    · exact hn
    · exact ht
    · exact hr

theorem resolve_cons (hc : c ≠ '\\') (s : List Char) :
    resolve (c :: s) = (resolve s).map (c :: ·) := by
  rw [resolve] <;> simp [hc]

/-- Between quotes the pieces reach up to the quote, and no backslash is the last of them. -/
theorem run_inside (hq : q.toList = [quote]) (hne : quote ≠ '\\') (s : List Char) :
    (∀ cs rest, untilQuote quote s = some (cs, rest) → ∃ raw, s = raw ++ quote :: rest ∧
      resolve raw = .ok cs ∧ Run .atomic (.again (.piece q)) s (some ([], quote :: rest))) ∧
    (untilQuote quote s = none → ∃ t, Run .atomic (.again (.piece q)) s (some ([], t)) ∧
      ∀ u, t ≠ quote :: u) := by
  -- The reader takes one character, plain or escaped, at a time; so does the repetition.
  fun_induction untilQuote quote s with
  | case1 => exact ⟨nofun, fun _ => ⟨[], .again_none (run_piece_none hq hne (.inl rfl)), nofun⟩⟩
  | case2 c s ih =>
    have hpiece := run_piece_escaped hq c s
    constructor
    · intro cs rest h
      obtain ⟨⟨ds, u⟩, hu, h⟩ := Option.map_eq_some_iff.1 h
      cases h
      obtain ⟨raw, rfl, hraw, hrun⟩ := ih.1 ds u hu
      exact ⟨'\\' :: c :: raw, rfl, by rw [resolve_backslash, hraw]; rfl,
        .again_cons (by decide) hpiece hrun⟩
    · intro h
      obtain ⟨t, hrun, ht⟩ := ih.2 (Option.map_eq_none_iff.1 h)
      exact ⟨t, .again_cons (by decide) hpiece hrun, ht⟩
  | case3 s hother =>
    have hnone := run_piece_none hq hne (.inr (.inl ⟨s, rfl⟩))
    refine ⟨fun cs rest h => ?_, nofun⟩
    cases h
    exact ⟨[], rfl, rfl, .again_none hnone⟩
  | case4 s hother hquote =>
    have hnil : s = [] := by
      cases s with
      | nil => rfl
      | cons d s => exact (hother d s rfl rfl).elim
    subst hnil
    exact ⟨nofun, fun _ => ⟨['\\'], .again_none (run_piece_none hq hne (.inr (.inr rfl))),
      fun u h => hne (List.cons.inj h).1.symm⟩⟩
  | case5 c s hother hquote hslash ih =>
    have hpiece := run_piece_plain hq hquote hslash s
    constructor
    · intro cs rest h
      obtain ⟨⟨ds, u⟩, hu, h⟩ := Option.map_eq_some_iff.1 h
      cases h
      obtain ⟨raw, rfl, hraw, hrun⟩ := ih.1 ds u hu
      exact ⟨c :: raw, rfl, by rw [resolve_cons hslash, hraw]; rfl,
        .again_cons (by decide) hpiece hrun⟩
    · intro h
      obtain ⟨t, hrun, ht⟩ := ih.2 (Option.map_eq_none_iff.1 h)
      exact ⟨t, .again_cons (by decide) hpiece hrun, ht⟩

/-- Between two quotes, which the reader has to find. -/
theorem run_between (hq : q.toList = [quote]) (hne : quote ≠ '\\') (hr : r.style = .atomic)
    (hbody : r.body = .star (.piece q)) (s : List Char) :
    (∀ cs rest, untilQuote quote s = some (cs, rest) → ∃ raw, resolve raw = .ok cs ∧
      Run .compound (.all [.text q, .rule r, .text q]) (quote :: s)
        (some ([⟨r, raw, []⟩], rest))) ∧
    (untilQuote quote s = none →
      Run .compound (.all [.text q, .rule r, .text q]) (quote :: s) none) := by
  have hopen : Run .compound (.text q) (quote :: s) (some ([], s)) := .text_self hq s
  obtain ⟨hfound, hnone⟩ := run_inside hq hne s
  constructor
  · intro cs rest h
    obtain ⟨raw, rfl, hraw, hrun⟩ := hfound cs rest h
    have hinner := hrun.star (by decide)
    rw [← hbody] at hinner
    have hrule := Run.atomic (m := .compound) (by decide) hr hinner
    rw [consumed_append] at hrule
    have hclose : Run .compound (.text q) (quote :: rest) (some ([], rest)) := .text_self hq rest
    exact ⟨raw, hraw, .seq_tight (by decide) hopen (.seq_tight (by decide) hrule hclose)⟩
  · intro h
    obtain ⟨t, hrun, ht⟩ := hnone h
    have hinner := hrun.star (by decide)
    rw [← hbody] at hinner
    have hrule := Run.atomic (m := .compound) (by decide) hr hinner
    have hclose : Run .compound (.text q) t none := .text_missing hq ht
    exact .seq_tight (by decide) hopen (.seq_tight (by decide) hrule hclose)

/-- The tree of a quoted text. -/
def Quoted (w : String) (ts : List Tree) : Prop :=
  ∃ text inner, ts = [⟨.string, text, inner⟩] ∧ quoted inner = .ok w ∧ ¬ Defective inner

theorem quoted_raw {raw cs : List Char} (h : resolve raw = .ok cs) :
    quoted [⟨r, raw, []⟩] = .ok (String.ofList cs) := by
  rw [quoted, List.head?_cons]
  exact congrArg (Except.map String.ofList) h

/-- One kind of quotes, where the other kind does not match. -/
theorem agrees_between (r : Rule) (q : String) (quote : Char) (hq : q.toList = [quote])
    (hne : quote ≠ '\\') (hr : r.style = .atomic) (hchecked : r.isChecked = false)
    (hbody : r.body = .star (.piece q)) {s' : List Char} (heq : skip s = quote :: s')
    (hside : ∀ x, Run .compound (.all [.text q, .rule r, .text q]) (quote :: s') x →
      Run .compound (Rule.body .string) (quote :: s') x) :
    Agrees (.rule .string) Quoted stuck s
      ((untilQuote quote s').map fun x => (String.ofList x.1, x.2)) := by
  obtain ⟨hfound, hnone⟩ := run_between hq hne hr hbody s'
  cases h : untilQuote quote s' with
  | none =>
    refine .missed ?_
    rw [heq]
    exact .fails (hside _ (hnone h))
  | some x =>
    obtain ⟨cs, rest⟩ := x
    obtain ⟨raw, hraw, hrun⟩ := hfound cs rest h
    have hrule := (hside _ hrun).compound (m := .spaced) (by decide) rfl
    rw [← heq] at hrule
    refine .found hrule rfl ⟨_, _, rfl, quoted_raw hraw, ?_⟩
    rw [defective_singleton]
    exact not_hasDefect_leaf hchecked

theorem agrees_quoted (s : List Char) : Agrees (.rule .string) Quoted stuck s (quoted? s) := by
  rw [quoted?]
  split
  · next s' heq =>
    have hother : Run .compound (.text "'") ('"' :: s') none :=
      .text_missing (d := '\'') rfl (by simp)
    refine agrees_between .doubleInner "\"" '"' rfl (by decide) rfl rfl rfl heq fun x hrun => ?_
    cases x with
    | none => exact .choice_right hrun (.seq_none hother)
    | some _ => exact .choice_left hrun
  · next s' heq =>
    have hother : Run .compound (.text "\"") ('\'' :: s') none :=
      .text_missing (d := '"') rfl (by simp)
    exact agrees_between .singleInner "'" '\'' rfl (by decide) rfl rfl rfl heq fun x hrun =>
      .choice_right (.seq_none hother) hrun
  · next hdouble hsingle => exact .missed (.fails (.choice_right
      (.seq_none (.text_missing rfl hdouble)) (.seq_none (.text_missing rfl hsingle))))

end

/-! ### Paths -/

/-- The tree of a path: a quoted text, or a text as it is. -/
def PathTree (w : String) (ts : List Tree) : Prop :=
  Quoted w ts ∨ ∃ text, ts = [⟨.barePath, text, []⟩] ∧ w = String.ofList text

theorem agrees_barePath (s : List Char) :
    Agrees (.rule .barePath) PathTree stuck s (barePath? s) := by
  have hrun := isChar_pathChar.seq_star (by decide) isChar_pathChar (skip s)
  rw [barePath?]
  cases hs : skip s with
  | nil =>
    rw [hs] at hrun
    refine .missed ?_
    rw [hs]
    exact .atomic_none rfl hrun
  | cons c t =>
    rw [hs, afterChar?] at hrun
    cases hc : isPathChar c with
    | false =>
      rw [hc] at hrun
      rw [List.takeWhile_cons_of_neg (by rw [hc]; decide)]
      refine .missed ?_
      rw [hs]
      exact .atomic_none rfl hrun
    | true =>
      rw [hc, if_pos rfl] at hrun
      rw [List.takeWhile_cons_of_pos hc, List.dropWhile_cons_of_pos hc]
      have hpath := Run.atomic (m := .spaced) (r := .barePath) (by decide) rfl hrun
      have hconsumed : consumed (c :: t) (t.dropWhile isPathChar) =
          c :: t.takeWhile isPathChar := by
        have happend := List.takeWhile_append_dropWhile (p := isPathChar) (l := t)
        nth_rewrite 1 [← happend]
        rw [← List.cons_append, consumed_append]
      rw [hconsumed, ← hs] at hpath
      exact .found hpath rfl (.inr ⟨_, rfl, rfl⟩)

theorem agrees_path (s : List Char) :
    Agrees (.rule .filePath) (Shown .filePath PathTree) never s (path? s) :=
  .rule rfl (.or ((agrees_quoted s).mono (fun _ _ => .inl) fun _ => id)
    fun _ => agrees_barePath s)

end PropertyGraph.Grammar
