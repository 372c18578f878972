import PropertyGraph.Command.Clause
import PropertyGraph.Proofs.Command.Literal

/-! Conditions in command texts. The grammar has three levels: AND binds tighter than OR, both
group to the left, and parentheses may stand around every part. The reader sees a chain of
terms instead; the chain of a condition that is written by the levels stands for the
condition. -/

namespace PropertyGraph

/-! ### Grammar -/

/-- The symbols that an operator may be written as. -/
def Operator.spellings : Operator → List String
  | .lt => ["<"]
  | .le => ["<="]
  | .gt => [">"]
  | .ge => [">="]
  | .eq => ["=", "=="]
  | .ne => ["!=", "<>"]

namespace Condition

/-- How tightly a condition holds together. -/
inductive Level where
  | disjunction
  | conjunction
  | term

/-- The lexemes of a condition. -/
inductive Written : Level → Condition → List Lexeme → Prop where
  | comparison {x p w : String} {op : Operator} {v : Value} {ys : List Lexeme} :
    w ∈ op.spellings → v.Written ys →
    Written .term (.comparison x p op v) (.property x p :: .symbol w :: ys)
  | group {c : Condition} {xs : List Lexeme} : Written .disjunction c xs →
    Written .term c (.symbol "(" :: (xs ++ [.symbol ")"]))
  | term {c : Condition} {xs : List Lexeme} : Written .term c xs → Written .conjunction c xs
  | and {a b : Condition} {xs ys : List Lexeme} : Written .conjunction a xs → Written .term b ys →
    Written .conjunction (a.and b) (xs ++ .keyword "AND" :: ys)
  | conjunction {c : Condition} {xs : List Lexeme} : Written .conjunction c xs →
    Written .disjunction c xs
  | or {a b : Condition} {xs ys : List Lexeme} : Written .disjunction a xs →
    Written .conjunction b ys → Written .disjunction (a.or b) (xs ++ .keyword "OR" :: ys)

/-- A condition that always holds has no clause. -/
inductive ClauseWritten : Condition → List Lexeme → Prop where
  | absent : ClauseWritten .always []
  | given {c : Condition} {xs : List Lexeme} : Written .disjunction c xs →
    ClauseWritten c (.keyword "WHERE" :: xs)

/-! ### Chains -/

def Joint.word : Joint → String
  | .and => "AND"
  | .or => "OR"

mutual

/-- The lexemes of a term as the reader sees it. -/
inductive TermWritten : Condition → List Lexeme → Prop where
  | comparison {x p w : String} {op : Operator} {v : Value} {ys : List Lexeme} :
    w ∈ op.spellings → v.Written ys →
    TermWritten (.comparison x p op v) (.property x p :: .symbol w :: ys)
  | group {first : Condition} {rest : List (Joint × Condition)} {xs ys : List Lexeme} :
    TermWritten first xs → RestWritten rest ys →
    TermWritten (.ofChain first rest) (.symbol "(" :: (xs ++ (ys ++ [.symbol ")"])))

/-- The lexemes of the joints and terms after the first term. -/
inductive RestWritten : List (Joint × Condition) → List Lexeme → Prop where
  | nil : RestWritten [] []
  | cons {joint : Joint} {c : Condition} {rest : List (Joint × Condition)} {xs ys : List Lexeme} :
    TermWritten c xs → RestWritten rest ys →
    RestWritten ((joint, c) :: rest) (.keyword joint.word :: (xs ++ ys))

end

theorem RestWritten.append {rest more : List (Joint × Condition)} {xs ys : List Lexeme} :
    RestWritten rest xs → RestWritten more ys → RestWritten (rest ++ more) (xs ++ ys)
  | .nil, hmore => hmore
  | @RestWritten.cons joint _ _ _ _ hc hrest, hmore => by
    have h := @RestWritten.cons joint _ _ _ _ hc (hrest.append hmore)
    rwa [← List.append_assoc] at h

/-- An OR ends the runs before it. -/
theorem chainFrom_append_or (before : Option Condition) (run b : Condition)
    (rest more : List (Joint × Condition)) : chainFrom before run (rest ++ (.or, b) :: more) =
      chainFrom (some (chainFrom before run rest)) b more := by
  induction rest generalizing before run with
  | nil => rfl
  | cons e rest ih =>
    obtain ⟨joint, c⟩ := e
    cases joint with
    | and => exact ih before (run.and c)
    | or => exact ih (some (joinRun before run)) c

/-- What a condition of a level is as a chain. A conjunction may go on: it is the run of its
chain. -/
def Chained : Level → Condition → List Lexeme → Prop
  | .term, c, xs => TermWritten c xs
  | .conjunction, c, xs => ∃ first rest ys zs, xs = ys ++ zs ∧ TermWritten first ys ∧
      RestWritten rest zs ∧
      ∀ before more, chainFrom before first (rest ++ more) = chainFrom before c more
  | .disjunction, c, xs => ∃ first rest ys zs, xs = ys ++ zs ∧ TermWritten first ys ∧
      RestWritten rest zs ∧ ofChain first rest = c

theorem Written.chained {level : Level} {c : Condition} {xs : List Lexeme}
    (h : Written level c xs) : Chained level c xs := by
  induction h with
  | comparison hw hv => exact .comparison hw hv
  | group _ ih =>
    obtain ⟨first, rest, ys, zs, rfl, hfirst, hrest, rfl⟩ := ih
    rw [List.append_assoc]
    exact .group hfirst hrest
  | @term c xs _ ih =>
    exact ⟨c, [], xs, [], (List.append_nil xs).symm, ih, .nil, fun _ _ => rfl⟩
  | @and a b xs ys _ _ iha ihb =>
    obtain ⟨first, rest, us, vs, rfl, hfirst, hrest, hrun⟩ := iha
    have hlast : RestWritten [(.and, b)] (.keyword "AND" :: (ys ++ [])) := .cons ihb .nil
    rw [List.append_nil] at hlast
    refine ⟨first, rest ++ [(.and, b)], us, _, List.append_assoc .., hfirst, hrest.append hlast, ?_⟩
    intro before more
    rw [List.append_assoc, hrun]
    rfl
  | conjunction _ ih =>
    obtain ⟨first, rest, ys, zs, rfl, hfirst, hrest, hrun⟩ := ih
    refine ⟨first, rest, ys, zs, rfl, hfirst, hrest, ?_⟩
    have hend := hrun none []
    rwa [List.append_nil] at hend
  | @or a b xs ys _ _ iha ihb =>
    obtain ⟨first, rest, us, vs, rfl, hfirst, hrest, rfl⟩ := iha
    obtain ⟨next, more, us', vs', rfl, hnext, hmore, hrun⟩ := ihb
    have htail : RestWritten ((.or, next) :: more) (.keyword "OR" :: (us' ++ vs')) :=
      .cons hnext hmore
    refine ⟨first, rest ++ (.or, next) :: more, us, _, List.append_assoc .., hfirst,
      hrest.append htail, ?_⟩
    have hend := hrun (some (ofChain first rest)) []
    rw [List.append_nil] at hend
    rw [ofChain, chainFrom_append_or]
    exact hend

end Condition

/-! ### Reading -/

namespace Operator

variable {op : Operator} {w : String}

/-- The reader tries the spellings of the operators and nothing else. -/
theorem mem_spellings_iff : w ∈ op.spellings ↔ (w, op) ∈ Draft.operatorSymbols := by
  cases op <;> simp [spellings, Draft.operatorSymbols, or_comm]

theorem symbol_mem_spellings (op : Operator) : op.symbol ∈ op.spellings := by
  cases op <;> exact List.mem_cons_self

end Operator

namespace Draft

open Blank Condition Token

variable {xs more : List Lexeme} {gap s rest : List Char}

/-- A symbol stands next, or the text ends. -/
def Closed (more : List Lexeme) : Prop := ∀ x ∈ more.head?, ∃ w, x = .symbol w

theorem keyword?_closed {w : String} (hmore : Closed more) (h : Spelled more s)
    (hw : Token.isKeyword w = true) : Token.keyword? w s = none := by
  refine Token.keyword?_eq_none h hw fun x hx => ?_
  obtain ⟨v, rfl⟩ := hmore x hx
  exact ⟨nofun, rfl⟩

theorem stops_operator {w : String} {op : Operator} (hw : w ∈ op.spellings) :
    Stops (w.toList ++ rest) := by
  rw [Operator.mem_spellings_iff] at hw
  simp only [operatorSymbols, List.mem_cons, Prod.mk.injEq, List.not_mem_nil, or_false] at hw
  rcases hw with ⟨rfl, -⟩ | ⟨rfl, -⟩ | ⟨rfl, -⟩ | ⟨rfl, -⟩ | ⟨rfl, -⟩ | ⟨rfl, -⟩ | ⟨rfl, -⟩ |
    ⟨rfl, -⟩ <;> exact .cons rfl (by decide)

/-- What follows an operator does not make a longer one of it. -/
theorem operator?_spaced {w : String} {op : Operator} (hw : w ∈ op.spellings)
    (hgap : IsSpacing gap) (hrest : ∀ c ∈ rest.head?, c ≠ '=' ∧ c ≠ '>') :
    operator? (gap ++ (w.toList ++ rest)) = some (op, rest) := by
  rw [Operator.mem_spellings_iff] at hw
  simp only [operatorSymbols, List.mem_cons, Prod.mk.injEq, List.not_mem_nil, or_false] at hw
  simp only [operator?, symbol?, hgap.skip_append]
  cases rest with
  | nil =>
    rcases hw with ⟨rfl, rfl⟩ | ⟨rfl, rfl⟩ | ⟨rfl, rfl⟩ | ⟨rfl, rfl⟩ | ⟨rfl, rfl⟩ | ⟨rfl, rfl⟩ |
      ⟨rfl, rfl⟩ | ⟨rfl, rfl⟩ <;> rfl
  | cons c rest =>
    obtain ⟨hequal, hgreater⟩ := hrest c rfl
    rcases hw with ⟨rfl, rfl⟩ | ⟨rfl, rfl⟩ | ⟨rfl, rfl⟩ | ⟨rfl, rfl⟩ | ⟨rfl, rfl⟩ | ⟨rfl, rfl⟩ |
      ⟨rfl, rfl⟩ | ⟨rfl, rfl⟩ <;>
      simp [operatorSymbols, skip_cons, isBlank, List.isPrefixOf?, hequal.symm, hgreater.symm]

theorem operator?_symbol {w : String} {op : Operator} (hw : w ∈ op.spellings)
    (h : Spelled (.symbol w :: more) s) :
    ∃ rest, operator? s = some (op, rest) ∧ Spelled more rest := by
  cases h with
  | @cons _ _ _ _ rest hgap hs hmore =>
    cases hs with
    | symbol =>
      refine ⟨rest, operator?_spaced hw hgap.2 fun c hc => ?_, hmore⟩
      rcases isBlank_iff.1 (hmore.isBlank_head c hc) with rfl | rfl | rfl | rfl <;> decide

theorem comparison?_written {x p w : String} {op : Operator} {v : Value}
    (hw : w ∈ op.spellings) (hv : v.Written xs)
    (h : Spelled (.property x p :: .symbol w :: (xs ++ more)) s) :
    ∃ t rest, comparison? s = some (t, rest) ∧ t.settle = .ok (.comparison x p op v) ∧
      Spelled more rest := by
  obtain ⟨here, t, hname, hproperty, ht⟩ := Token.word?_property h
  obtain ⟨u, hop, hu⟩ := operator?_symbol hw ht
  obtain ⟨l, rest, hl, hsettle, hmore⟩ := value?_written hv hu
  refine ⟨.comparison x p op l, rest, ?_, ?_, hmore⟩
  · simp [comparison?, hname, hproperty, hop, hl]
  · rw [Term.settle, hsettle]
    rfl

theorem joint?_spells {joint : Joint} (h : (Lexeme.keyword joint.word).Spells s)
    (hgap : IsSpacing gap) (hrest : Stops rest) :
    joint? (gap ++ (s ++ rest)) = some (joint, rest) := by
  have hword := keyword?_spells h hgap hrest
  cases joint with
  | and => rw [joint?, show keyword? "AND" (gap ++ (s ++ rest)) = some rest from hword]
  | or =>
    have hnot : keyword? "AND" (gap ++ (s ++ rest)) = none :=
      keyword?_other_spells h hgap rfl rfl (by decide)
    rw [joint?, hnot, show keyword? "OR" (gap ++ (s ++ rest)) = some rest from hword]
    rfl

theorem joint?_word (joint : Joint) (h : Spelled (.keyword joint.word :: more) s) :
    ∃ rest, joint? s = some (joint, rest) ∧ Spelled more rest := by
  cases h with
  | cons hgap hs hmore => exact ⟨_, joint?_spells hs hgap.2 hmore.stops, hmore⟩

theorem joint?_closed (hmore : Closed more) (h : Spelled more s) : joint? s = none := by
  rw [joint?, keyword?_closed hmore h rfl, keyword?_closed hmore h rfl]
  rfl

-- The induction is on the chain form. A chain takes one more unit of fuel than it has lexemes,
-- for the joint that is looked for at its end.
mutual

theorem term?_written : {c : Condition} → {xs : List Lexeme} → TermWritten c xs → (fuel : Nat) →
    {s : List Char} → {more : List Lexeme} → xs.length ≤ fuel → Spelled (xs ++ more) s →
    ∃ t rest, term? fuel s = some (t, rest) ∧ t.settle = .ok c ∧ Spelled more rest
  | _, _, .comparison hw hv, fuel + 1, s, more, _, h => by
    have hnone : Token.symbol? "(" s = none := Token.symbol?_other h rfl rfl
    obtain ⟨t, rest, ht, hsettle, hmore⟩ := comparison?_written hw hv h
    exact ⟨t, rest, by rw [term?, hnone, ht], hsettle, hmore⟩
  | _, _, @TermWritten.group _ _ xs ys hfirst hrest, fuel + 1, s, more, hfuel, h => by
    simp only [List.length_cons, List.length_append, List.length_nil] at hfuel
    simp only [List.cons_append, List.append_assoc, List.nil_append] at h
    obtain ⟨t, hopen, ht⟩ := Token.symbol?_self h
    obtain ⟨first, u, hu, hsettle, hchain⟩ := term?_written hfirst fuel (by omega) ht
    obtain ⟨rest, v, hv, hsettles, hclose⟩ := restOfChain?_written hrest fuel (by omega)
      (by rintro _ ⟨⟩; exact ⟨_, rfl⟩) hchain
    obtain ⟨w, hw, hmore⟩ := Token.symbol?_self hclose
    refine ⟨.group first rest, w, ?_, ?_, hmore⟩
    · rw [term?, hopen]
      simp [hu, hv, hw]
    · rw [Term.settle, hsettle, ok_bind, hsettles]
      rfl

theorem restOfChain?_written : {cs : List (Joint × Condition)} → {xs : List Lexeme} →
    RestWritten cs xs → (fuel : Nat) → {s : List Char} → {more : List Lexeme} →
    xs.length < fuel → Closed more → Spelled (xs ++ more) s →
    ∃ ts rest, restOfChain? fuel s = some (ts, rest) ∧ Term.settleRest ts = .ok cs ∧
      Spelled more rest
  | _, _, .nil, fuel + 1, s, more, _, hclosed, h => by
    exact ⟨[], s, by rw [restOfChain?, joint?_closed hclosed h], rfl, h⟩
  | _, _, @RestWritten.cons joint _ _ xs ys hc hrest, fuel + 1, s, more, hfuel, hclosed, h => by
    simp only [List.length_cons, List.length_append] at hfuel
    simp only [List.cons_append, List.append_assoc] at h
    obtain ⟨t, hjoint, ht⟩ := joint?_word joint h
    obtain ⟨term, u, hu, hsettle, hchain⟩ := term?_written hc fuel (by omega) ht
    obtain ⟨ts, rest, hts, hsettles, hmore⟩ :=
      restOfChain?_written hrest fuel (by omega) hclosed hchain
    refine ⟨(joint, term) :: ts, rest, ?_, ?_, hmore⟩
    · rw [restOfChain?, hjoint]
      simp [hu, hts]
    · rw [Term.settleRest, hsettle, ok_bind, hsettles]
      rfl

end

theorem chain?_written {c : Condition} (hc : Written .disjunction c xs) (hclosed : Closed more)
    (h : Spelled (xs ++ more) s) :
    ∃ chain rest, chain? s = some (chain, rest) ∧ chain.settle = .ok c ∧ Spelled more rest := by
  obtain ⟨first, cs, ys, zs, rfl, hfirst, hrest, rfl⟩ := hc.chained
  have hlength := h.length_le
  simp only [List.length_append] at hlength
  rw [List.append_assoc] at h
  obtain ⟨t, u, hu, hsettle, hchain⟩ :=
    term?_written hfirst (fuelFor s) (by rw [fuelFor]; omega) h
  obtain ⟨ts, rest, hts, hsettles, hmore⟩ :=
    restOfChain?_written hrest (fuelFor s) (by rw [fuelFor]; omega) hclosed hchain
  refine ⟨⟨t, ts⟩, rest, by simp [chain?, hu, hts], ?_, hmore⟩
  rw [Chain.settle, Term.settle, hsettle, ok_bind, hsettles]
  rfl

theorem clause?_written {c : Condition} (hc : c.ClauseWritten xs) (hclosed : Closed more)
    (h : Spelled (xs ++ more) s) :
    ∃ chain rest, clause? s = some (chain, rest) ∧ settleCondition chain = .ok c ∧
      Spelled more rest := by
  cases hc with
  | absent => exact ⟨none, s, by rw [clause?, keyword?_closed hclosed h rfl], rfl, h⟩
  | given hc =>
    obtain ⟨t, ht, hchain⟩ := Token.keyword?_self h
    obtain ⟨chain, rest, hrest, hsettle, hmore⟩ := chain?_written hc hclosed hchain
    exact ⟨some chain, rest, by simp [clause?, ht, hrest], hsettle, hmore⟩

end Draft

end PropertyGraph
