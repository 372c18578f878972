import PropertyGraph.Entity
import PropertyGraph.Value.Comparison

/-! Conditions on bound variables: comparisons of a property with a literal, joined
by AND and OR. A condition always has a truth value. A property that is missing, or
a variable that is not bound, makes every comparison false but `!=`. -/

namespace PropertyGraph

inductive Condition where
  | always
  | comparison (name property : String) (op : Operator) (value : Value)
  | and (left right : Condition)
  | or (left right : Condition)
deriving DecidableEq

/-- What each variable stands for. -/
abbrev Environment := String → Option Entity

namespace Condition

def eval (env : Environment) : Condition → Bool
  | .always => true
  | .comparison x p op v =>
    match (env x).bind (·.property? p) with
    | some actual => op.holds actual v
    | none => op == .ne
  | .and a b => a.eval env && b.eval env
  | .or a b => a.eval env || b.eval env

/-- The variable of every comparison from left to right. -/
def mentions : Condition → List String
  | .always => []
  | .comparison x _ _ _ => [x]
  | .and a b | .or a b => a.mentions ++ b.mentions

/-- Adds the variables of the conditions on a stack to the names found before. The next
condition is on top; the two sides of AND and OR take its place, the left one on top. -/
@[semireducible] -- so that templates can be checked by evaluation
def namesFrom (names : List String) : List Condition → List String
  | [] => names
  | .always :: stack => namesFrom names stack
  | .comparison x _ _ _ :: stack => namesFrom (if x ∈ names then names else names ++ [x]) stack
  | .and a b :: stack | .or a b :: stack => namesFrom names (a :: b :: stack)
termination_by stack => stack.foldr (fun c n => sizeOf c + n) 0
decreasing_by
  all_goals simp only [List.foldr_cons, always.sizeOf_spec, comparison.sizeOf_spec,
    and.sizeOf_spec, or.sizeOf_spec]
  all_goals omega

/-- The variables in the order of their first use. -/
def variableNames (c : Condition) : List String := namesFrom [] [c]

def display : Condition → String
  | .always => "TRUE"
  | .comparison x p op v => x ++ "." ++ p ++ " " ++ op.symbol ++ " " ++ v.display
  | .and a b => "(" ++ a.display ++ " AND " ++ b.display ++ ")"
  | .or a b => "(" ++ a.display ++ " OR " ++ b.display ++ ")"

/-! ### Chains -/

/-- What joins two terms of a chain. -/
inductive Joint where
  | and
  | or
deriving DecidableEq, Repr

/-- Adds a finished run of AND to the runs before it. -/
def joinRun (before : Option Condition) (run : Condition) : Condition :=
  match before with
  | none => run
  | some c => c.or run

/-- Reads a chain of terms: `before` are the runs up to the last OR and `run` the
terms since then. -/
def chainFrom (before : Option Condition) (run : Condition) :
    List (Joint × Condition) → Condition
  | [] => joinRun before run
  | (.and, c) :: rest => chainFrom before (run.and c) rest
  | (.or, c) :: rest => chainFrom (some (joinRun before run)) c rest

/-- The condition that a chain of terms stands for. AND binds tighter than OR, and
both group to the left. -/
def ofChain (first : Condition) (rest : List (Joint × Condition)) : Condition :=
  chainFrom none first rest

end Condition

end PropertyGraph
