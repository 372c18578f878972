import PropertyGraph.Command.Clause
import PropertyGraph.Proofs.Grammar.Block

/-! Conditions. The reader goes on behind every AND and OR, and has failed if no term follows;
the grammar then stops in front of the AND or OR, where neither a parenthesis nor the end of a
command stands. -/

namespace PropertyGraph.Grammar

open Blank Token Draft

variable {s t rest : List Char} {ts us : List Tree} {w : String}

/-! ### Operators and properties -/

/-- The tree of an operator. -/
def OperatorTree (op : Operator) (ts : List Tree) : Prop :=
  ∃ text, ts = [⟨.operator, text, []⟩] ∧ operatorOf text = .ok op

theorem agrees_operator (s : List Char) :
    Agrees (.rule .operator) OperatorTree never s (operator? s) := by
  have hrun := Run.any (fun x : String × Operator => Run.text .atomic x.1 (skip s)) operatorSymbols
  have hread : (operatorSymbols.findSome? fun x => x.1.toList.isPrefixOf? (skip s)) =
      (operator? s).map Prod.snd := by
    rw [operator?, List.map_findSome?]
    simp only [Function.comp_def, Option.map_map, Option.map_id', symbol?]
  rw [hread] at hrun
  cases hop : operator? s with
  | none =>
    rw [hop] at hrun
    exact .missed (.atomic_none rfl hrun)
  | some r =>
    obtain ⟨op, rest⟩ := r
    rw [hop] at hrun
    obtain ⟨⟨w, op'⟩, hmem, hw⟩ := List.exists_of_findSome?_eq_some hop
    obtain ⟨u, hu, hpair⟩ := Option.map_eq_some_iff.1 hw
    cases hpair
    have htree := Run.atomic (m := .spaced) (r := .operator) (by decide) rfl hrun
    have hconsumed : consumed (skip s) rest = w.toList := by
      rw [symbol?_eq hu, consumed_append]
    rw [hconsumed] at htree
    refine .found htree rfl ⟨_, rfl, ?_⟩
    simp only [operatorSymbols, List.mem_cons, List.not_mem_nil, or_false, Prod.mk.injEq] at hmem
    rcases hmem with ⟨rfl, rfl⟩ | ⟨rfl, rfl⟩ | ⟨rfl, rfl⟩ | ⟨rfl, rfl⟩ | ⟨rfl, rfl⟩ | ⟨rfl, rfl⟩ |
      ⟨rfl, rfl⟩ | ⟨rfl, rfl⟩ <;> rfl

/-- A variable and a property with a point between them. -/
def propertyRef? (s : List Char) : Option ((String × String) × List Char) := do
  let (name, s) ← word? s
  match s with
  | '.' :: s => (wordHere? s).map fun r => ((name, r.1), r.2)
  | _ => none

def PropertyRefTree (p : String × String) (ts : List Tree) : Prop :=
  ∃ text, ts =
    [⟨.propertyRef, text, [⟨.variable, p.1.toList, []⟩, ⟨.key, p.2.toList, []⟩]⟩]

theorem agrees_propertyRef (s : List Char) :
    Agrees (.rule .propertyRef) PropertyRefTree never s (propertyRef? s) := by
  have hname := run_name (m := .compound) (r := .variable) (by decide) rfl rfl (skip s)
  rw [propertyRef?, word?]
  cases hword : wordHere? (skip s) with
  | none =>
    rw [hword] at hname
    exact .missed (.fails (.seq_none hname))
  | some r =>
    obtain ⟨name, t⟩ := r
    rw [hword] at hname
    simp only [Option.bind_eq_bind, Option.bind_some]
    split
    · next u =>
      have hpoint : Run .compound (.text ".") ('.' :: u) (some ([], u)) :=
        .text_self (d := '.') rfl u
      have hproperty := run_name (m := .compound) (r := .key) (by decide) rfl rfl u
      have hrun := Run.seq_tight (by decide) hname (Run.seq_tight (by decide) hpoint hproperty)
      cases hp : wordHere? u with
      | none =>
        rw [hp] at hrun
        exact .missed (.fails hrun)
      | some r =>
        rw [hp] at hrun
        exact .found (Run.compound (m := .spaced) (r := .propertyRef) (by decide) rfl hrun) rfl
          ⟨_, rfl⟩
    · next hpoint =>
      have hmissing : Run .compound (.text ".") t none := .text_missing rfl hpoint
      exact .missed (.fails (Run.seq_tight (by decide) hname (.seq_none hmissing)))

/-! ### Comparisons and joints -/

/-- The tree of a term stands for the condition that the term settles to. -/
def TermTree (x : Term) (ts : List Tree) : Prop := ∃ t, ts = [t] ∧ Stands (term t) x.settle [t]

theorem comparison?_eq (s : List Char) : comparison? s = propertyRef? s >>= fun r =>
    operator? r.2 >>= fun o => value? o.2 >>= fun v =>
      some (.comparison r.1.1 r.1.2 o.1 v.1, v.2) := by
  rw [comparison?, propertyRef?]
  cases word? s with
  | none => rfl
  | some r =>
    obtain ⟨name, t⟩ := r
    cases t with
    | nil => rfl
    | cons c t =>
      by_cases hc : c = '.'
      · subst hc
        cases hproperty : wordHere? t <;> simp [hproperty]
      · simp [hc]

theorem TermTree.comparison {p : String × String} {op : Operator} {l : Literal}
    {text : List Char} {us vs : List Tree} (hp : PropertyRefTree p ts) (hop : OperatorTree op us)
    (hl : ValueTree l vs) :
    TermTree (.comparison p.1 p.2 op l) [⟨.comparison, text, ts ++ (us ++ vs)⟩] := by
  obtain ⟨ptext, rfl⟩ := hp
  obtain ⟨otext, rfl, hop⟩ := hop
  obtain ⟨t, rfl, hrule, ht⟩ := hl
  refine ⟨_, rfl, ?_⟩
  rw [term, Term.settle]
  refine .tree rfl (.fold_ok rfl ?_ ?_)
  · rw [hasDefect_unchecked rfl]
    exact not_defective_leaves (by simp [Rule.isChecked])
  have hsymbol : ∀ found : ComparisonParts, found.add ⟨.operator, otext, []⟩ =
      .ok { found with operator := some op } := by
    intro found
    rw [ComparisonParts.add, hop]
    rfl
  refine .fold_ok (hsymbol _) (not_hasDefect_leaf rfl) ?_
  refine .fold_map ht (by rw [ComparisonParts.add, hrule]) fun v => .fold_nil ?_
  simp only [List.foldl, ComparisonParts.addName, required, ok_bind, String.ofList_toList]
  exact .ok _ defective_nil

theorem agrees_comparison (s : List Char) :
    Agrees (.rule .comparison) TermTree never s (comparison? s) := by
  have hbody : Agrees (Rule.body .comparison) (fun x ts => ∃ p op l us vs ws,
      x = .comparison p.1 p.2 op l ∧ ts = us ++ (vs ++ ws) ∧ PropertyRefTree p us ∧
        OperatorTree op vs ∧ ValueTree l ws) never s (comparison? s) := by
    rw [comparison?_eq]
    refine (agrees_propertyRef s).bind fun p t us _ hp => ?_
    refine (agrees_operator t).bind fun op u vs _ hop => ?_
    refine (agrees_literal u).last fun l rest ws hl => ⟨_, rfl, p, op, l, us, vs, ws, rfl, rfl, ?_⟩
    exact ⟨hp, hop, hl⟩
  refine hbody.tree rfl ?_
  rintro x text _ ⟨p, op, l, us, vs, ws, rfl, rfl, hp, hop, hl⟩
  exact .comparison hp hop hl

/-- The tree of an AND or OR. -/
def JointTree (joint : Condition.Joint) (ts : List Tree) : Prop :=
  ∃ t, ts = [t] ∧ jointOf t = .ok joint ∧ ¬ t.HasDefect

theorem agrees_joint (s : List Char) : Agrees (.rule .joint) JointTree never s (joint? s) := by
  have hand := passes_alone (r := .and) (w := "AND") rfl rfl (by decide) s
  have hor := passes_alone (r := .or) (w := "OR") rfl rfl (by decide) s
  refine .silent rfl ?_
  rw [joint?]
  generalize keyword? "AND" s = passed at hand
  generalize keyword? "OR" s = other at hor
  cases passed with
  | some rest =>
    cases hand with
    | found hrun hrest h =>
      obtain ⟨text, rfl⟩ := h
      exact .found (.choice_left hrun) hrest ⟨_, rfl, rfl, not_hasDefect_leaf rfl⟩
  | none =>
    cases hand with
    | missed hrun =>
      refine .right hrun ?_
      cases hor with
      | missed hrun => exact .missed hrun
      | found hrun hrest h =>
        obtain ⟨text, rfl⟩ := h
        exact .found hrun hrest ⟨_, rfl, rfl, not_hasDefect_leaf rfl⟩

theorem AtLetter.blocked (h : AtLetter t) : Blocked t := by
  obtain ⟨c, u, rfl, hc⟩ := h
  refine ⟨c, u, rfl, ?_⟩
  rintro rfl
  cases hc

theorem joint?_atLetter {joint : Condition.Joint} (h : joint? s = some (joint, rest)) :
    AtLetter (skip s) ∧ (skip rest).length < (skip s).length := by
  rw [joint?] at h
  split at h
  · next hand =>
    cases h
    exact keyword?_atLetter rfl hand
  · obtain ⟨t, hor, h⟩ := Option.map_eq_some_iff.1 h
    cases h
    exact keyword?_atLetter rfl hor

/-! ### Chains -/

/-- A term and the rest of its chain. -/
def chainWith? (fuel : Nat) (s : List Char) : Option (Chain × List Char) :=
  term? fuel s >>= fun t => restOfChain? fuel t.2 >>= fun r => some (⟨t.1, r.1⟩, r.2)

/-- A joint and the term behind it. -/
def link? (fuel : Nat) (s : List Char) : Option ((Condition.Joint × Term) × List Char) :=
  joint? s >>= fun j => term? fuel j.2 >>= fun t => some ((j.1, t.1), t.2)

theorem term?_eq (fuel : Nat) (s : List Char) : term? (fuel + 1) s = match symbol? "(" s with
    | some t => chainWith? fuel t >>= fun c =>
      symbol? ")" c.2 >>= fun u => some (.group c.1.first c.1.rest, u)
    | none => comparison? s := by
  rw [term?]
  cases symbol? "(" s with
  | none => rfl
  | some t => simp [chainWith?, Option.bind_assoc]

theorem restOfChain?_eq (fuel : Nat) (s : List Char) :
    restOfChain? (fuel + 1) s = match joint? s with
      | none => some ([], s)
      | some _ => link? fuel s >>= fun l =>
        restOfChain? fuel l.2 >>= fun r => some (l.1 :: r.1, r.2) := by
  rw [restOfChain?, link?]
  cases joint? s with
  | none => rfl
  | some r => simp [Option.bind_assoc]

/-- The trees of the joints and terms behind the first term. -/
def RestTrees (rest : List (Condition.Joint × Term)) (ts : List Tree) : Prop :=
  Stands (moreTerms ts) (Term.settleRest rest) ts

def LinkTrees (l : Condition.Joint × Term) (ts : List Tree) : Prop :=
  ∃ us vs, ts = us ++ vs ∧ JointTree l.1 us ∧ TermTree l.2 vs

theorem RestTrees.nil : RestTrees [] [] := by
  rw [RestTrees, moreTerms, Term.settleRest]
  exact .ok [] defective_nil

theorem RestTrees.cons {l : Condition.Joint × Term} {more : List (Condition.Joint × Term)}
    (hl : LinkTrees l ts) (h : RestTrees more us) : RestTrees (l :: more) (ts ++ us) := by
  obtain ⟨joint, x⟩ := l
  obtain ⟨_, _, rfl, ⟨op, rfl, hop, hdefect⟩, t, rfl, ht⟩ := hl
  have hterm : Stands (term t >>= fun c => moreTerms us >>= fun m => .ok ((joint, c) :: m))
      (Term.settleRest ((joint, x) :: more)) ([t] ++ us) := by
    rw [Term.settleRest]
    exact ht.bind fun c => h.map ((joint, c) :: ·)
  rw [RestTrees, List.singleton_append, List.cons_append, List.singleton_append, moreTerms, hop]
  exact hterm.cons hdefect

theorem Settled.of_parts {c : Chain} {text : List Char} (hfirst : TermTree c.first ts)
    (hrest : RestTrees c.rest us) :
    Settled .condition condition Chain.settle c [⟨.condition, text, ts ++ us⟩] := by
  obtain ⟨t, rfl, ht⟩ := hfirst
  refine ⟨_, rfl, rfl, ?_⟩
  rw [Chain.settle, Term.settle, List.singleton_append, condition]
  exact .tree rfl (ht.bind fun first => hrest.map (Condition.ofChain first ·))

theorem TermTree.group {c : Chain} (h : Settled .condition condition Chain.settle c ts) :
    TermTree (.group c.first c.rest) ts := by
  obtain ⟨⟨r, text, inner⟩, rfl, rfl, h⟩ := h
  refine ⟨_, rfl, ?_⟩
  rwa [term]

/-- Terms and chains with so much fuel. -/
structure Fueled (fuel : Nat) : Prop where
  term : ∀ s, (skip s).length < fuel → Agrees (.rule .term) TermTree never s (term? fuel s)
  rest : ∀ s, (skip s).length < fuel →
    Agrees (.star (.seq (.rule .joint) (.rule .term))) RestTrees AtLetter s (restOfChain? fuel s)

variable {fuel : Nat}

theorem Fueled.chain (h : Fueled fuel) (hs : (skip s).length < fuel) : Agrees (.rule .condition)
    (Settled .condition condition Chain.settle) AtLetter s (chainWith? fuel s) := by
  have hbody : Agrees (Rule.body .condition)
      (fun c ts => ∃ us vs, ts = us ++ vs ∧ TermTree c.first us ∧ RestTrees c.rest vs) AtLetter s
      (chainWith? fuel s) := by
    have hfirst := h.term s hs
    refine hfirst.bind fun x t us hread hx => ?_
    rw [hread] at hfirst
    exact (h.rest t (hfirst.length_le.trans_lt hs)).last fun more _ vs hmore =>
      ⟨_, rfl, us, vs, rfl, hx, hmore⟩
  refine hbody.tree rfl ?_
  rintro c text _ ⟨us, vs, rfl, hfirst, hrest⟩
  exact .of_parts hfirst hrest

theorem comparison?_open (h : symbol? "(" s = some t) : comparison? s = none := by
  have hskip : skip s = '(' :: t := symbol?_eq h
  rw [comparison?, word?, hskip]
  rfl

theorem Fueled.group (h : Fueled fuel) (hs : (skip s).length ≤ fuel)
    (hopen : symbol? "(" s = some t) : Agrees (.rule .term) TermTree never s
      (chainWith? fuel t >>= fun c =>
        symbol? ")" c.2 >>= fun u => some (.group c.1.first c.1.rest, u)) := by
  have hcomparison := agrees_comparison s
  rw [comparison?_open hopen] at hcomparison
  have hskip : skip s = '(' :: t := symbol?_eq hopen
  have hpass : Run .spaced (.text "(") (skip s) (some ([], t)) := by
    rw [hskip]
    exact .text_self rfl t
  refine .silent rfl (.right hcomparison.run_none (.after hpass rfl ?_))
  have hfits : (skip t).length < fuel := by
    have hle := length_skip_le t
    rw [hskip, List.length_cons] at hs
    omega
  refine (h.chain hfits).bind_stuck (fun c u us _ hc => ?_) fun u hu => ?_
  · refine (passes_symbol ")" u).last fun vs hvs => ?_
    cases hvs
    rw [List.append_nil]
    exact .group hc
  · obtain ⟨c, v, hc, halpha⟩ := hu
    refine .missed (.text_missing (d := ')') rfl fun v hv => ?_)
    rw [hc] at hv
    cases hv
    cases halpha

theorem fueled (fuel : Nat) : Fueled fuel := by
  induction fuel with
  | zero => exact ⟨fun _ h => absurd h (Nat.not_lt_zero _), fun _ h => absurd h (Nat.not_lt_zero _)⟩
  | succ fuel ih =>
    constructor
    · intro s hs
      rw [term?_eq]
      cases hopen : symbol? "(" s with
      | some t => exact ih.group (Nat.le_of_lt_succ hs) hopen
      | none =>
        have hpass := passes_symbol "(" s
        rw [hopen] at hpass
        cases hpass with
        | missed hrun => exact .silent rfl ((agrees_comparison s).left fun _ => .seq_none hrun)
    · intro s hs
      have hjoint := agrees_joint s
      rw [restOfChain?_eq]
      cases hread : joint? s with
      | none =>
        rw [hread] at hjoint
        exact .star_nil (.seq_none hjoint.run_none) .nil
      | some r =>
        obtain ⟨joint, t⟩ := r
        obtain ⟨hletter, hlt⟩ := joint?_atLetter hread
        have hlink : Agrees (.seq (.rule .joint) (.rule .term)) LinkTrees never s
            (link? fuel s) := by
          refine hjoint.bind fun j u us hj hu => ?_
          rw [hread] at hj
          cases hj
          exact (ih.term t (by omega)).last fun x _ vs hx => ⟨_, rfl, us, vs, rfl, hu, hx⟩
        -- Without a term behind the joint the repetition ends in front of it, at its first letter.
        refine hlink.star_cons (fun l u us hl hus => ?_) fun _ => hletter
        simp only [link?, hread, Option.bind_eq_bind, Option.bind_some, Option.bind_eq_some_iff,
          Option.some.injEq, Prod.mk.injEq] at hl
        obtain ⟨⟨x, v⟩, hx, rfl, rfl⟩ := hl
        have hterm := ih.term t (by omega)
        rw [hx] at hterm
        have hle := hterm.length_le
        exact (ih.rest v (by omega)).last fun more _ vs hmore => ⟨_, rfl, .cons hus hmore⟩

theorem agrees_chain (s : List Char) : Agrees (.rule .condition)
    (Settled .condition condition Chain.settle) AtLetter s (chain? s) := by
  have hle := length_skip_le s
  exact (fueled (fuelFor s)).chain (by rw [fuelFor]; omega)

/-! ### Clauses -/

/-- The tree of a clause, or no tree where there is none. -/
def ClauseIfAny (c : Option Chain) (ts : List Tree) : Prop :=
  c = none ∧ ts = [] ∨ ∃ chain, c = some chain ∧
    Settled .whereClause (conditionIn · "WHERE clause") Chain.settle chain ts

theorem ClauseIfAny.given {c : Chain} {text : List Char} (hmark : Mark (.keyword "WHERE") ts)
    (hc : Settled .condition condition Chain.settle c us) :
    ClauseIfAny (some c) [⟨.whereClause, text, ts ++ us⟩] := by
  obtain ⟨word, rfl⟩ := hmark
  obtain ⟨t, rfl, hrule, ht⟩ := hc
  refine .inr ⟨c, rfl, _, rfl, rfl, .tree rfl ?_⟩
  have hfind : conditionIn [⟨.keyword "WHERE", word, []⟩, t] "WHERE clause" =
      condition t.inner := by
    simp [conditionIn, hrule]
  rw [← hfind] at ht
  exact ht.cons (not_hasDefect_leaf rfl)

theorem agrees_clause (s : List Char) :
    Agrees (.optional (.rule .whereClause)) ClauseIfAny Blocked s (clause? s) := by
  have hword := passes_keyword (w := "WHERE") (by decide) s
  rw [clause?]
  cases hread : keyword? "WHERE" s with
  | none =>
    rw [hread] at hword
    cases hword with
    | missed hrun => exact .optional_none (.fails (.seq_none hrun)) (.inl ⟨rfl, rfl⟩)
  | some t =>
    rw [hread] at hword
    have hbody : Agrees (Rule.body .whereClause) (fun c ts => ∃ chain us vs, c = some chain ∧
        ts = us ++ vs ∧ Mark (.keyword "WHERE") us ∧
          Settled .condition condition Chain.settle chain vs) AtLetter s
        ((chain? t).map fun r => (some r.1, r.2)) := by
      cases hword with
      | found hrun hrest hmark =>
        exact .after hrun hrest
          ((agrees_chain t).map fun c ts hc => ⟨c, _, ts, rfl, rfl, hmark, hc⟩)
    have hclause : Agrees (.rule .whereClause) ClauseIfAny AtLetter s
        ((chain? t).map fun r => (some r.1, r.2)) := by
      refine hbody.tree rfl ?_
      rintro c text _ ⟨chain, us, vs, rfl, rfl, hmark, hchain⟩
      exact .given hmark hchain
    exact hclause.optional (keyword?_atLetter rfl hread).1.blocked fun _ => AtLetter.blocked

end PropertyGraph.Grammar
