import PropertyGraph.Condition

/-! Paths through the store: a start node and the hops taken from it. -/

namespace PropertyGraph

structure Path where
  start : Node
  hops : List (Relationship × Node)
deriving DecidableEq, Inhabited

namespace Path

def push (p : Path) (r : Relationship) (n : Node) : Path :=
  { p with hops := p.hops ++ [(r, n)] }

/-- Drops the last hop; the start stays. -/
def pop (p : Path) : Path := { p with hops := p.hops.dropLast }

def length (p : Path) : Nat := p.hops.length

@[simp] theorem pop_push (p : Path) (r : Relationship) (n : Node) : (p.push r n).pop = p := by
  simp [push, pop]

@[simp] theorem length_push (p : Path) (r : Relationship) (n : Node) :
    (p.push r n).length = p.length + 1 := by
  simp [push, length]

def last (p : Path) : Node := (p.hops.getLast?.map Prod.snd).getD p.start

def nodes (p : Path) : List Node := p.start :: p.hops.map Prod.snd

def relationships (p : Path) : List Relationship := p.hops.map Prod.fst

/-- Node identities with the kinds of the relationships between them. -/
def describe (p : Path) : List String :=
  p.start.key.display :: p.hops.flatMap fun (r, n) => [r.kind, n.key.display]

/-- The nodes and relationships along the path, each under the name it goes by: its
label or its kind. -/
def named (p : Path) : List (String × Entity) :=
  (p.start.label, .node p.start) ::
    p.hops.flatMap fun (r, n) => [(r.kind, .relationship r), (n.label, .node n)]

/-- A name stands for the entity nearest the start that goes by it. -/
def environment (p : Path) : Environment := fun name => p.named.lookup name

end Path

end PropertyGraph
