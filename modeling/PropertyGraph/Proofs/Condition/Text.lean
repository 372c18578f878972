import PropertyGraph.Proofs.Command.Clause
import PropertyGraph.Proofs.Condition.Chain
import PropertyGraph.Proofs.Value.Text

/-! Conditions as they are written. A chain is a first term and then joints and terms, with
blanks around every joint; a term is a comparison or a chain in parentheses. What a chain is
read as is told by its runs alone, so AND binds tighter than OR, both group to the left, and
parentheses group. -/

namespace PropertyGraph

open Blank Token

/-! ### Grammar -/

namespace Condition

mutual

/-- The texts of a term, without white space at their ends. -/
inductive TermText : Condition → List Char → Prop where
  | comparison {x p w : String} {op : Operator} {v : Value} {property before after s : List Char} :
    (Lexeme.property x p).Spells property → IsSpacing before → w ∈ op.spellings →
    IsSpacing after → v.Text s →
    TermText (.comparison x p op v) (property ++ (before ++ (w.toList ++ (after ++ s))))
  | group {first : Condition} {rest : List (Joint × Condition)} {before s t after : List Char} :
    IsSpacing before → TermText first s → RestText rest t → IsSpacing after →
    TermText (treeOf (runs first rest)) ('(' :: (before ++ (s ++ (t ++ (after ++ [')'])))))

/-- The texts of what follows the first term of a chain. -/
inductive RestText : List (Joint × Condition) → List Char → Prop where
  | nil : RestText [] []
  | cons {joint : Joint} {c : Condition} {rest : List (Joint × Condition)}
    {before word after s t : List Char} : IsGap before → (Lexeme.keyword joint.word).Spells word →
    IsGap after → TermText c s → RestText rest t →
    RestText ((joint, c) :: rest) (before ++ (word ++ (after ++ (s ++ t))))

end

variable {c : Condition} {rest : List (Joint × Condition)} {s t more : List Char}

theorem RestText.stops (h : RestText rest t) (hmore : Stops more) : Stops (t ++ more) := by
  cases h with
  | nil => exact hmore
  | cons hbefore =>
    rw [List.append_assoc]
    exact Stops.gap hbefore

theorem TermText.isTrimmed (h : TermText c s) : IsTrimmed s := by
  cases h with
  | @comparison _ _ w _ _ property before after _ hproperty _ _ _ hv =>
    have hwhole := hproperty.isTrimmed.append (before ++ (w.toList ++ after)) hv.isTrimmed
    simpa only [List.append_assoc] using hwhole
  | @group _ _ before s t after =>
    have hopen : IsTrimmed ['('] := isTrimmed_singleton rfl
    have hclose : IsTrimmed [')'] := isTrimmed_singleton rfl
    have hwhole := hopen.append (before ++ (s ++ (t ++ after))) hclose
    simpa only [List.append_assoc, List.cons_append, List.nil_append] using hwhole

theorem RestText.isTrimmed (h : RestText rest t) (hs : IsTrimmed s) : IsTrimmed (s ++ t) := by
  induction rest generalizing s t with
  | nil =>
    cases h
    rwa [List.append_nil]
  | cons e rest ih =>
    cases h with
    | @cons _ _ _ before word after _ _ _ _ _ hc hrest =>
      have hwhole := hs.append (before ++ (word ++ after)) (ih hrest hc.isTrimmed)
      simpa only [List.append_assoc] using hwhole

end Condition

/-! ### Reading -/

namespace Draft

open Condition

variable {s gap rest : List Char}

/-- A closing parenthesis ends a chain. -/
theorem joint?_close (hgap : IsSpacing gap) : joint? (gap ++ ')' :: rest) = none := by
  rw [joint?, keyword?_cons_eq_none hgap rfl rfl (by decide),
    keyword?_cons_eq_none hgap rfl rfl (by decide)]
  rfl

theorem comparison?_text {x p w : String} {op : Operator} {v : Value}
    {property before after : List Char} (hproperty : (Lexeme.property x p).Spells property)
    (hbefore : IsSpacing before) (hw : w ∈ op.spellings) (hafter : IsSpacing after)
    (hv : v.Text s) (hgap : IsSpacing gap) (hrest : Stops rest) :
    ∃ t, comparison? (gap ++ (property ++ (before ++ (w.toList ++ (after ++ (s ++ rest)))))) =
        some (t, rest) ∧ t.settle = .ok (.comparison x p op v) := by
  obtain ⟨l, hl, hsettle⟩ := value?_text hv hafter hrest
  have hvalue : ∀ c ∈ (after ++ (s ++ rest)).head?, c ≠ '=' ∧ c ≠ '>' := by
    cases after with
    | nil =>
      obtain ⟨c, u, rfl, hc⟩ := hv.eq_cons
      rintro _ ⟨⟩
      exact ⟨ne_of_opensValue hc rfl, ne_of_opensValue hc rfl⟩
    | cons c after =>
      rintro _ ⟨⟩
      rcases hafter c List.mem_cons_self with rfl | rfl | rfl | rfl <;> decide
  have hop := operator?_spaced hw hbefore hvalue
  cases hproperty with
  | property hx hp =>
    refine ⟨.comparison x p op l, ?_, by rw [Term.settle, hsettle]; rfl⟩
    rw [List.append_assoc, List.cons_append, comparison?, word?_spaced hx hgap rfl]
    simp [wordHere?_append hp ((stops_operator hw).spacing hbefore).atWordEnd, hop, hl]

-- The induction is on the rules that the chain is written by. A chain takes one more unit of
-- fuel than it has characters, for the joint that is looked for at its end.
mutual

theorem term?_text : {c : Condition} → {s : List Char} → TermText c s → (fuel : Nat) →
    {gap rest : List Char} → s.length ≤ fuel → IsSpacing gap → Stops rest →
    ∃ t, term? fuel (gap ++ (s ++ rest)) = some (t, rest) ∧ t.settle = .ok c
  | _, _, h, 0, _, _, hfuel, _, _ =>
    absurd (List.eq_nil_of_length_eq_zero (Nat.le_zero.1 hfuel)) h.isTrimmed.ne_nil
  | _, _, .comparison hproperty hbefore hw hafter hv, fuel + 1, gap, rest, _, hgap, hrest => by
    obtain ⟨t, ht, hsettle⟩ := comparison?_text hproperty hbefore hw hafter hv hgap hrest
    refine ⟨t, ?_, hsettle⟩
    obtain ⟨c, u, rfl, hc⟩ := hproperty.eq_cons
    have hne : c ≠ '(' := by
      rintro rfl
      cases hc
    simp only [List.append_assoc]
    rw [term?, List.cons_append, symbol?_cons_eq_none hgap hproperty.isBlank_head rfl hne,
      ← List.cons_append, ht]
  | _, _, @TermText.group first more before s t after hbefore hfirst hmore hafter, fuel + 1,
      gap, rest, hfuel, hgap, hrest => by
    simp only [List.length_cons, List.length_append, List.length_nil] at hfuel
    simp only [List.cons_append, List.append_assoc, List.nil_append]
    have hclose : Stops (after ++ ')' :: rest) :=
      .spacing hafter (.cons rfl (by decide))
    obtain ⟨term, hterm, hsettle⟩ :=
      term?_text hfirst fuel (by omega) hbefore (hmore.stops hclose)
    obtain ⟨ts, hts, hsettles⟩ :=
      restOfChain?_text hmore fuel (by omega) hclose (joint?_close hafter)
    refine ⟨.group term ts, ?_, ?_⟩
    · have hopen : symbol? "(" (gap ++ '(' :: (before ++ (s ++ (t ++ (after ++ ')' :: rest))))) =
          some (before ++ (s ++ (t ++ (after ++ ')' :: rest)))) := symbol?_spaced (by decide) hgap
      have hshut : symbol? ")" (after ++ ')' :: rest) = some rest :=
        symbol?_spaced (by decide) hafter
      rw [term?, hopen]
      simp [hterm, hts, hshut]
    · rw [Term.settle, hsettle, ok_bind, hsettles, ok_bind, ofChain_eq]

theorem restOfChain?_text : {cs : List (Joint × Condition)} → {t : List Char} → RestText cs t →
    (fuel : Nat) → {rest : List Char} → t.length < fuel → Stops rest → joint? rest = none →
    ∃ ts, restOfChain? fuel (t ++ rest) = some (ts, rest) ∧ Term.settleRest ts = .ok cs
  | _, _, .nil, fuel + 1, rest, _, _, hjoint => by
    refine ⟨[], ?_, rfl⟩
    rw [List.nil_append, restOfChain?, hjoint]
  | _, _, @RestText.cons joint c cs before word after s t hbefore hword hafter hc hmore, fuel + 1,
      rest, hfuel, hrest, hjoint => by
    have hgap := List.length_pos_iff.2 hbefore.1
    simp only [List.length_append] at hfuel
    simp only [List.append_assoc]
    obtain ⟨term, hterm, hsettle⟩ :=
      term?_text hc fuel (by omega) hafter.2 (hmore.stops hrest)
    obtain ⟨ts, hts, hsettles⟩ := restOfChain?_text hmore fuel (by omega) hrest hjoint
    refine ⟨(joint, term) :: ts, ?_, ?_⟩
    · rw [restOfChain?, joint?_spells hword hbefore.2 (Stops.gap hafter)]
      simp [hterm, hts]
    · rw [Term.settleRest, hsettle, ok_bind, hsettles]
      rfl

end

theorem chain?_text {first : Condition} {more : List (Joint × Condition)} {s t : List Char}
    (hfirst : TermText first s) (hmore : RestText more t) (hgap : IsSpacing gap)
    (hrest : Stops rest) (hjoint : joint? rest = none) :
    ∃ chain, chain? (gap ++ (s ++ (t ++ rest))) = some (chain, rest) ∧
      chain.settle = .ok (treeOf (runs first more)) := by
  have hfuel : (s ++ t).length < fuelFor (gap ++ (s ++ (t ++ rest))) := by
    simp only [fuelFor, List.length_append]
    omega
  rw [List.length_append] at hfuel
  obtain ⟨term, hterm, hsettle⟩ := term?_text hfirst (fuelFor (gap ++ (s ++ (t ++ rest))))
    (by omega) hgap (hmore.stops hrest)
  obtain ⟨ts, hts, hsettles⟩ := restOfChain?_text hmore (fuelFor (gap ++ (s ++ (t ++ rest))))
    (by omega) hrest hjoint
  refine ⟨⟨term, ts⟩, by simp [chain?, hterm, hts], ?_⟩
  rw [Chain.settle, Term.settle, hsettle, ok_bind, hsettles, ok_bind, ofChain_eq]

end Draft

namespace Condition

variable {first : Condition} {rest : List (Joint × Condition)} {s t : List Char}

theorem read_text (hfirst : TermText first s) (hrest : RestText rest t) {lead trail : List Char}
    (hlead : ∀ c ∈ lead, isWhiteSpace c = true) (htrail : ∀ c ∈ trail, isWhiteSpace c = true) :
    Condition.read (String.ofList (lead ++ (s ++ t ++ trail))) = .ok (treeOf (runs first rest)) := by
  have hend : Draft.joint? [] = none := Draft.joint?_closed (by rintro _ ⟨⟩) .nil
  obtain ⟨chain, hchain, hsettle⟩ :=
    Draft.chain?_text hfirst hrest isSpacing_nil Stops.nil hend
  rw [List.append_nil, List.nil_append] at hchain
  have hread : Draft.readChain (s ++ t) = some chain := by
    rw [Draft.readChain, hchain]
    rfl
  rw [Condition.read, String.toList_ofList,
    trimChars_append hlead htrail (hrest.isTrimmed hfirst.isTrimmed), hread]
  simp only [hsettle, Except.mapError]

/-- A chain is read as its runs joined by AND, which are joined by OR, where a group of its
terms in parentheses is read as it is on its own; so it holds where all terms of a run do. -/
theorem read_chain (hfirst : TermText first s) (hrest : RestText rest t) :
    (∀ lead trail : List Char, (∀ c ∈ lead, isWhiteSpace c = true) →
      (∀ c ∈ trail, isWhiteSpace c = true) →
      Condition.read (String.ofList (lead ++ (s ++ t ++ trail))) =
        .ok (treeOf (runs first rest))) ∧
    (∀ (c : Condition) (u : List Char), TermText c u →
      Condition.read (String.ofList u) = .ok c) ∧
    ∀ env, (treeOf (runs first rest)).eval env = (runs first rest).any (·.all (·.eval env)) := by
  refine ⟨fun lead trail => read_text hfirst hrest, fun c u hc => ?_, fun env => ?_⟩
  · have halone := @read_text _ _ _ _ hc .nil [] [] (List.forall_mem_nil _) (List.forall_mem_nil _)
    rwa [List.append_nil, List.append_nil, List.nil_append] at halone
  · obtain ⟨run, others, hruns⟩ := exists_runs first rest
    exact eval_treeOf env (hruns ▸ List.cons_ne_nil _ _)

/-- AND binds tighter than the OR before it, and the parentheses hold the second OR. -/
theorem read_chain_three :
    TermText (comparison "a" "x" .eq (.integer 1)) "a.x=1".toList ∧
    RestText [(.or, comparison "b" "y" .ne (.boolean true)),
        (.and, .or (comparison "b" "y" .ne (.boolean true)) (comparison "a" "x" .eq (.integer 1)))]
      " oR b.y <> True And (b.y <> True or a.x=1)".toList ∧
    Condition.read "a.x=1 oR b.y <> True And (b.y <> True or a.x=1)" =
      .ok (.or (comparison "a" "x" .eq (.integer 1))
        (.and (comparison "b" "y" .ne (.boolean true))
          (.or (comparison "b" "y" .ne (.boolean true)) (comparison "a" "x" .eq (.integer 1))))) := by
  have hgap : IsGap [' '] := isGap_singleton rfl
  have hone : (Lexeme.integer (Int64.toInt 1)).Spells ['1'] := by
    rw [show Int64.toInt 1 = Digits.toNat ['1'] by decide]
    exact .positive (Digits.isNumeral_singleton rfl)
  have hor : (Lexeme.keyword Joint.or.word).Spells ['o', 'r'] := .keyword rfl rfl
  have hmixed : (Lexeme.keyword Joint.or.word).Spells ['o', 'R'] := .keyword rfl rfl
  have hand : (Lexeme.keyword Joint.and.word).Spells ['A', 'n', 'd'] := .keyword rfl rfl
  have ha : TermText (comparison "a" "x" .eq (.integer 1)) "a.x=1".toList :=
    .comparison (.property rfl rfl) isSpacing_nil (w := "=") (by decide) isSpacing_nil
      (.integer hone)
  have hb : TermText (comparison "b" "y" .ne (.boolean true)) "b.y <> True".toList :=
    .comparison (.property rfl rfl) hgap.2 (w := "<>") (by decide) hgap.2
      (.boolean (.keyword rfl rfl))
  have hgroup := TermText.group isSpacing_nil hb (.cons hgap hor hgap ha .nil) isSpacing_nil
  have hrest : RestText [(.or, comparison "b" "y" .ne (.boolean true)),
      (.and, .or (comparison "b" "y" .ne (.boolean true)) (comparison "a" "x" .eq (.integer 1)))]
      " oR b.y <> True And (b.y <> True or a.x=1)".toList :=
    .cons hgap hmixed hgap hb (.cons hgap hand hgap hgroup .nil)
  exact ⟨ha, hrest,
    (read_chain ha hrest).1 [] [] (List.forall_mem_nil _) (List.forall_mem_nil _)⟩

end Condition

end PropertyGraph
