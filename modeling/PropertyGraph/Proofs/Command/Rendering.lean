import PropertyGraph.Proofs.Command.WellFormed

/-! Renderings of commands. A rendering spells lexemes that the grammar has for the command,
with gaps between them, a semicolon at the end or none, and white space around. Every
well-formed command has a rendering, and every rendering is read as the command. -/

namespace PropertyGraph

/-! ### Texts -/

/-- The text of some lexemes, with a gap between each two. -/
inductive Phrase : List Lexeme → List Char → Prop where
  | intro {x : Lexeme} {xs : List Lexeme} {s rest : List Char} : x.Spells s → Spelled xs rest →
    Phrase (x :: xs) (s ++ rest)

theorem Spelled.not_isWhiteSpace_last {xs : List Lexeme} {s : List Char} (h : Spelled xs s) :
    ∀ c ∈ s.getLast?, Blank.isWhiteSpace c = false := by
  induction h with
  | nil => exact fun c hc => absurd hc (Option.not_mem_none c)
  | @cons x xs gap s rest _ hx _ ih =>
    intro c hc
    rw [List.getLast?_append_of_ne_nil _ (List.append_ne_nil_of_left_ne_nil hx.isTrimmed.ne_nil _),
      List.getLast?_append] at hc
    cases hrest : rest.getLast? with
    | none =>
      rw [hrest, Option.none_or] at hc
      exact hx.isTrimmed.last c hc
    | some d =>
      rw [hrest, Option.some_or] at hc
      cases hc
      exact ih c hrest

theorem exists_phrase {xs : List Lexeme} (hne : xs ≠ []) (h : ∀ x ∈ xs, x.isSpellable = true) :
    ∃ s, Phrase xs s := by
  cases xs with
  | nil => exact absurd rfl hne
  | cons x xs =>
    obtain ⟨hx, hxs⟩ := List.forall_mem_cons.1 h
    obtain ⟨s, hs⟩ := Lexeme.exists_spells hx
    obtain ⟨rest, hrest⟩ := exists_spelled hxs
    exact ⟨_, .intro hs hrest⟩

namespace Phrase

variable {xs : List Lexeme} {s : List Char}

theorem spelled (h : Phrase xs s) : Spelled xs (' ' :: s) := by
  cases h with
  | intro hx hxs => exact .cons (Blank.isGap_singleton rfl) hx hxs

theorem isTrimmed (h : Phrase xs s) : Blank.IsTrimmed s := by
  have hlast := h.spelled.not_isWhiteSpace_last
  cases h with
  | @intro x xs t rest hx _ =>
    have hne := List.append_ne_nil_of_left_ne_nil hx.isTrimmed.ne_nil rest
    refine ⟨hne, ?_, ?_⟩
    · rw [List.head?_append_of_ne_nil _ hx.isTrimmed.ne_nil]
      exact hx.isTrimmed.head
    · rwa [List.getLast?_cons_of_ne_nil hne] at hlast

end Phrase

/-- The text spells lexemes that say the command, and a semicolon or none behind them. -/
inductive Command.Renders (c : Command) : String → Prop where
  | intro {xs finish : List Lexeme} (lead core trail : List Char) : c.Written xs →
    Draft.Ends finish → Phrase (xs ++ finish) core →
    (∀ d ∈ lead, Blank.isWhiteSpace d = true) → (∀ d ∈ trail, Blank.isWhiteSpace d = true) →
    Renders c (String.ofList (lead ++ (core ++ trail)))

/-! ### Reading -/

namespace Draft

theorem readChars_phrase {c : Command} {xs finish : List Lexeme} {s : List Char}
    (hc : c.Written xs) (hids : ∀ n ∈ c.ids, n < 2 ^ 64) (hfinish : Ends finish)
    (h : Phrase (xs ++ finish) s) : ∃ d, readChars s = some d ∧ d.settle = .ok c := by
  obtain ⟨d, rest, hread, hsettle, hend⟩ := statement?_written hc hids hfinish h.spelled
  -- the blank in front is skipped with the first keyword
  have hblank : statement? (' ' :: s) = statement? s := statement?_congr rfl
  refine ⟨d, ?_, hsettle⟩
  rw [readChars, ← hblank, hread, Option.bind_eq_bind, Option.bind_some]
  simp only [afterSemicolon_eq_nil hfinish hend]
  rfl

end Draft

namespace Command

theorem Written.ne_nil {c : Command} {xs : List Lexeme} (h : c.Written xs) : xs ≠ [] := by
  cases h <;> exact List.cons_ne_nil _ _

theorem read_of_renders {c : Command} {text : String} (hids : ∀ n ∈ c.ids, n < 2 ^ 64)
    (h : c.Renders text) : Command.read text = .ok c := by
  cases h with
  | intro _ core _ hc hfinish hphrase hlead htrail =>
    obtain ⟨d, hread, hsettle⟩ := Draft.readChars_phrase hc hids hfinish hphrase
    rw [Command.read, String.toList_ofList, Blank.trimChars_append hlead htrail hphrase.isTrimmed,
      hread]
    simp only [hsettle]
    rfl

/-- Every well-formed command has renderings, and each of them is read as the command. -/
theorem renderings_read_back {c : Command} (hc : c.WellFormed) :
    (∃ text, c.Renders text) ∧ ∀ text, c.Renders text → Command.read text = .ok c := by
  refine ⟨?_, fun text h => read_of_renders hc.ids h⟩
  obtain ⟨xs, hxs, hspell⟩ := hc.expressible
  obtain ⟨core, hcore⟩ := exists_phrase hxs.ne_nil hspell
  rw [← List.append_nil xs] at hcore
  exact ⟨_, .intro [] core [] hxs (.inl rfl) hcore (List.forall_mem_nil _) (List.forall_mem_nil _)⟩

/-- A pattern whose names are keywords, with a condition on texts and arrays. -/
def asking : Command :=
  .findMatches ⟨⟨some "where", "Node"⟩, [(⟨none, "AND", .incoming⟩, ⟨some "or", "match"⟩)]⟩
    (.or (.comparison "or" "true" .le (.integer (-5)))
      (.and (.comparison "where" "id" .ne (.text "it's \"so\"\n"))
        (.or (.comparison "where" "to" .eq (.array [.boolean true, .array []]))
          (.comparison "or" "json" .gt (.text "")))))

theorem renderings_read_back_asking :
    (asking.WellFormed ∧ (∃ text, asking.Renders text) ∧
      ∀ text, asking.Renders text → Command.read text = .ok asking) ∧
    ((getNode ⟨"node", 7⟩).WellFormed ∧
      Command.read " get\tNODE node 007 ;\n" = .ok (.getNode ⟨"node", 7⟩)) ∧
    (exportTo "it's\n\t\r\\").WellFormed ∧
      Command.read "export to json 'it\\'s\\n\\t\\r\\\\'" = .ok (.exportTo "it's\n\t\r\\") := by
  have hgap : Blank.IsGap [' '] := Blank.isGap_singleton rfl
  have hc : (getNode ⟨"node", 7⟩).WellFormed := by decide
  have hid : (Lexeme.natural 7).Spells "007".toList := by
    rw [show 7 = Digits.toNat "007".toList by decide]
    exact .natural ⟨List.cons_ne_nil _ _, List.all_eq_true.1 rfl⟩
  have hend : Spelled [.symbol ";"] ([' '] ++ (";".toList ++ [])) :=
    .cons hgap (.symbol (List.contains_iff_mem.1 rfl)) .nil
  have hkey : Spelled [.name "node", .natural 7, .symbol ";"]
      ([' '] ++ ("node".toList ++ ([' '] ++ ("007".toList ++ _)))) :=
    .cons hgap (.name rfl) (.cons hgap hid hend)
  have hnode : Spelled [.keyword "NODE", .name "node", .natural 7, .symbol ";"]
      (['\t'] ++ ("NODE".toList ++ _)) :=
    .cons (Blank.isGap_singleton rfl) (.keyword rfl rfl) hkey
  have hphrase : Phrase
      ((.keyword "GET" :: .keyword "NODE" :: NodeKey.plainLexemes ⟨"node", 7⟩) ++ [.symbol ";"])
      ("get".toList ++ _) := .intro (.keyword rfl rfl) hnode
  have hescaped : (exportTo "it's\n\t\r\\").WellFormed := by decide
  have hinside : Token.Inside '\'' "it's\n\t\r\\".toList "it\\'s\\n\\t\\r\\\\".toList :=
    .plain (by decide) (by decide) (.plain (by decide) (by decide) (.quote
      (.plain (by decide) (by decide) (.newline (.tab (.carriageReturn (.backslash .nil)))))))
  have hpath : Phrase
      ([.keyword "EXPORT", .keyword "TO", .keyword "JSON", .text "it's\n\t\r\\"] ++ [])
      ("export".toList ++ ([' '] ++ ("to".toList ++ ([' '] ++ ("json".toList ++ _))))) :=
    .intro (.keyword rfl rfl) (.cons hgap (.keyword rfl rfl) (.cons hgap (.keyword rfl rfl)
      (.cons hgap (.text (.inr rfl) hinside) .nil)))
  have hasking : asking.WellFormed := by decide
  refine ⟨⟨hasking, renderings_read_back hasking⟩, ⟨hc, (renderings_read_back hc).2 _ ?_⟩,
    hescaped, (renderings_read_back hescaped).2 _ ?_⟩
  · exact .intro [' '] _ ['\n'] .getNode (.inr rfl) hphrase
      (List.forall_mem_singleton.2 rfl) (List.forall_mem_singleton.2 rfl)
  · exact .intro [] _ [] .exportTo (.inl rfl) hpath (List.forall_mem_nil _) (List.forall_mem_nil _)

end Command

end PropertyGraph
