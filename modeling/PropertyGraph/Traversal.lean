import PropertyGraph.Execution
import PropertyGraph.Path

/-! Traversal from a start node along a list of steps. Every step follows the
relationships of one kind, in the order they were inserted, and may ask for the label
of the node it reaches. The condition is tested on whole paths. -/

namespace PropertyGraph

structure Step where
  kind : String
  direction : Direction
  /-- The label that the node reached must have, if any. -/
  label : Option String
deriving DecidableEq

/-- A traversal under way: the path to where it has come, and the paths found so far. -/
structure Expansion where
  path : Path
  found : Array Path

namespace Expansion

def push (x : Expansion) (r : Relationship) (n : Node) : Expansion :=
  { x with path := x.path.push r n }

def pop (x : Expansion) : Expansion := { x with path := x.path.pop }

/-- Records the path if the condition holds of it. -/
def record (x : Expansion) (condition : Condition) : Expansion :=
  if condition.eval x.path.environment then { x with found := x.found.push x.path } else x

@[simp] theorem path_push (x : Expansion) (r : Relationship) (n : Node) :
    (x.push r n).path = x.path.push r n := rfl

@[simp] theorem path_pop (x : Expansion) : x.pop.path = x.path.pop := rfl

@[simp] theorem path_record (x : Expansion) (condition : Condition) :
    (x.record condition).path = x.path := by
  rw [record]
  split <;> rfl

end Expansion

namespace Store

/-- The ways to take a step from a node. -/
def hopsAlong (s : Store) (key : NodeKey) (step : Step) :
    Except StoreError (List (Node × Relationship)) := do
  let found ← s.neighbors key (some step.kind) step.direction
  .ok (found.filter fun (n, _) => step.label.all (n.label == ·))

/-- Goes on from the path along the steps behind it, depth first. A hop is pushed onto the
path and popped again, so the path is in the end what it was. -/
def expand (s : Store) (condition : Condition) (steps : List Step) (x : Expansion) :
    Except StoreError { y : Expansion // y.path = x.path } :=
  match hstep : steps[x.path.length]? with
  | none => .ok ⟨x.record condition, x.path_record condition⟩
  | some step => do
    let found ← s.neighbors x.path.last.key (some step.kind) step.direction
    found.foldlM (fun (y : { y : Expansion // y.path = x.path }) (n, r) =>
      if step.label.all (n.label == ·) then do
        let z ← s.expand condition steps (y.1.push r n)
        .ok ⟨z.1.pop, by simp [z.2, y.2]⟩
      else .ok y) ⟨x, rfl⟩
termination_by steps.length - x.path.length
decreasing_by
  have hlt := (List.getElem?_eq_some_iff.1 hstep).1
  simp only [Expansion.path_push, Path.length_push, y.2]
  omega

/-- The paths from a start node along the steps that satisfy the condition. The hop
limit is checked before the start node is looked up. -/
def traverse (s : Store) (start : NodeKey) (steps : List Step) (condition : Condition)
    (limit : Nat) : Except ExecutionError (List Path) :=
  if limit < steps.length then .error (.tooManyHops steps.length limit)
  else
    (do let n ← s.getNode start
        let x ← s.expand condition steps ⟨⟨n, []⟩, #[]⟩
        .ok x.1.found.toList).mapError .store

/-- The paths of one hop, to nodes of any label. -/
def traverseOnce (s : Store) (start : NodeKey) (kind : String) (direction : Direction)
    (condition : Condition) : Except ExecutionError (List Path) :=
  s.traverse start [⟨kind, direction, none⟩] condition 1

end Store

end PropertyGraph
