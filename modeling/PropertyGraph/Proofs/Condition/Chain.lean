import Mathlib.Tactic.Common
import PropertyGraph.Condition

/-! The condition of a chain. Its terms fall into runs, which the ORs between them separate;
the terms of a run are joined by AND and the runs by OR, both from the left. So a chain holds
where all terms of one of its runs hold. -/

namespace PropertyGraph.Condition

/-- The terms of a chain, split at its ORs. -/
def runs (first : Condition) : List (Joint × Condition) → List (List Condition)
  | [] => [[first]]
  | (.and, c) :: rest => (runs c rest).modifyHead (first :: ·)
  | (.or, c) :: rest => [first] :: runs c rest

/-- Conditions joined from the left. -/
def joinAll (join : Condition → Condition → Condition) : List Condition → Condition
  | [] => .always
  | c :: cs => cs.foldl join c

/-- The terms of each run joined by AND, and the runs by OR. -/
def treeOf (runs : List (List Condition)) : Condition := joinAll .or (runs.map (joinAll .and))

/-! ### Reading a chain -/

/-- The first run of a chain starts with its first term. -/
theorem exists_runs (first : Condition) (rest : List (Joint × Condition)) :
    ∃ run others, runs first rest = (first :: run) :: others := by
  cases rest with
  | nil => exact ⟨[], [], rfl⟩
  | cons e rest =>
    obtain ⟨joint, c⟩ := e
    cases joint with
    | and =>
      obtain ⟨run, others, h⟩ := exists_runs c rest
      exact ⟨c :: run, others, by rw [runs, h, List.modifyHead_cons]⟩
    | or => exact ⟨[], runs c rest, rfl⟩

/-- In the midst of a chain the rest of its first run goes behind what is joined already, and
the other runs follow. -/
theorem chainFrom_eq (before : Option Condition) (acc : Condition) {first : Condition}
    {rest : List (Joint × Condition)} {run : List Condition} {others : List (List Condition)}
    (h : runs first rest = (first :: run) :: others) :
    chainFrom before acc rest =
      (others.map (joinAll .and)).foldl .or (joinRun before (run.foldl .and acc)) := by
  induction rest generalizing before acc first run others with
  | nil =>
    cases h
    rfl
  | cons e rest ih =>
    obtain ⟨joint, c⟩ := e
    obtain ⟨run', others', hrest⟩ := exists_runs c rest
    cases joint with
    | and =>
      rw [runs, hrest, List.modifyHead_cons] at h
      cases h
      exact ih before (acc.and c) hrest
    | or =>
      rw [runs, hrest] at h
      cases h
      exact ih (some (joinRun before acc)) c hrest

theorem ofChain_eq (first : Condition) (rest : List (Joint × Condition)) :
    ofChain first rest = treeOf (runs first rest) := by
  obtain ⟨run, others, h⟩ := exists_runs first rest
  rw [ofChain, chainFrom_eq none first h, h]
  rfl

/-! ### Where a chain holds -/

variable (env : Environment)

theorem eval_foldl_and (c : Condition) (cs : List Condition) :
    (cs.foldl .and c).eval env = (c.eval env && cs.all (·.eval env)) := by
  induction cs generalizing c with
  | nil => exact (Bool.and_true _).symm
  | cons d cs ih => rw [List.foldl_cons, ih, List.all_cons, eval, Bool.and_assoc]

theorem eval_foldl_or (c : Condition) (cs : List Condition) :
    (cs.foldl .or c).eval env = (c.eval env || cs.any (·.eval env)) := by
  induction cs generalizing c with
  | nil => exact (Bool.or_false _).symm
  | cons d cs ih => rw [List.foldl_cons, ih, List.any_cons, eval, Bool.or_assoc]

theorem eval_joinAll_and (cs : List Condition) :
    (joinAll .and cs).eval env = cs.all (·.eval env) := by
  cases cs with
  | nil => rfl
  | cons c cs => exact eval_foldl_and env c cs

theorem eval_treeOf {runs : List (List Condition)} (h : runs ≠ []) :
    (treeOf runs).eval env = runs.any (·.all (·.eval env)) := by
  obtain ⟨run, others, rfl⟩ := List.exists_cons_of_ne_nil h
  have hrun : (fun cs => (joinAll .and cs).eval env) = fun cs => cs.all (·.eval env) :=
    funext (eval_joinAll_and env)
  rw [treeOf, List.map_cons, joinAll, eval_foldl_or, List.any_cons, eval_joinAll_and,
    List.any_map, Function.comp_def, hrun]

end PropertyGraph.Condition
