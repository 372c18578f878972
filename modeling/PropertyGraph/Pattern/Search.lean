import PropertyGraph.Pattern
import PropertyGraph.Traversal

/-! The search for all matches of a template, by backtracking over a stack of frames.
A frame holds the candidates of one level of the template and the place of the next
one to try; level zero tries the nodes of the start label and every further level the
hops from the node chosen before it. Choices are undone when their level is looked at
again. Every step uses up a candidate or a frame, and a frame holds no more candidates
than the store has adjacency entries, so the search ends. -/

namespace PropertyGraph

/-- Candidates of one level, and the number of them that were tried. -/
structure Frame where
  candidates : List (Option Relationship × Node)
  next : Nat
deriving Inhabited

/-- A search under way. The frame of the deepest level comes first. -/
structure Search where
  frames : List Frame
  nodes : Array Node
  relationships : Array Relationship
  found : Array Match

/-- What is searched for. An alias of a slot is the first earlier slot of its name. -/
structure Plan where
  template : Template
  condition : Condition
  nodeAliases : List (Option Nat)
  relationshipAliases : List (Option Nat)

/-- For every name the place of its first earlier occurrence. -/
def aliases (names : List (Option String)) : List (Option Nat) :=
  names.mapIdx fun i name => name.bind fun x => (names.take i).findIdx? (· == some x)

namespace Plan

def make (t : Template) (condition : Condition) : Plan where
  template := t
  condition := condition
  nodeAliases := aliases (t.nodeSlots.map (·.name))
  relationshipAliases := aliases (t.relationshipSlots.map (·.name))

/-- Whether what an alias is bound to passes a test; without an alias there is none. -/
def passes {α : Type} (earlier : Option Nat) (chosen : Array α) (test : α → Bool) : Bool :=
  match earlier with
  | some first => (chosen[first]?).all test
  | none => true

/-- Whether a candidate is the entity that its slot's alias was bound to. -/
def agrees (p : Plan) (nodes : Array Node) (relationships : Array Relationship) (depth : Nat)
    (r : Option Relationship) (n : Node) : Bool :=
  passes (p.nodeAliases[depth]?).join nodes (·.key == n.key) &&
    match r, depth with
    | some r, depth + 1 => passes (p.relationshipAliases[depth]?).join relationships (·.id == r.id)
    | _, _ => true

end Plan

namespace Search

/-- The path of the chosen nodes and relationships. -/
def path? (nodes : Array Node) (relationships : Array Relationship) : Option Path :=
  match nodes.toList with
  | [] => none
  | n :: rest => some ⟨n, relationships.toList.zip rest⟩

def start (s : Store) (t : Template) : Search where
  frames := [⟨(s.nodesLabeled t.start.label).map fun n => (none, n), 0⟩]
  nodes := #[]
  relationships := #[]
  found := #[]

/-- Takes back the choice made at a level before. -/
def undo (x : Search) (depth : Nat) : Search :=
  if depth < x.nodes.size then
    { x with
      nodes := x.nodes.pop
      relationships := if 0 < depth then x.relationships.pop else x.relationships }
  else x

/-- Chooses a candidate. -/
def choose (x : Search) (r : Option Relationship) (n : Node) : Search :=
  { x with
    nodes := x.nodes.push n
    relationships := match r with
      | some r => x.relationships.push r
      | none => x.relationships }

/-- Records the match of the chosen path if the condition holds of it. -/
def record (p : Plan) (x : Search) : Search :=
  match path? x.nodes x.relationships with
  | none => x
  | some path =>
    let m := p.template.matchOf path
    if p.condition.eval m.environment then { x with found := x.found.push m } else x

/-- The frame of the candidates that a segment gives a node. -/
def frameFrom (s : Store) (n : Node) (segment : RelationshipSlot × NodeSlot) :
    Except StoreError Frame := do
  let hops ← s.hopsAlong n.key ⟨segment.1.kind, segment.1.direction, some segment.2.label⟩
  .ok ⟨hops.map fun (n, r) => (some r, n), 0⟩

/-- One step, none when no frame is left. -/
def step (s : Store) (p : Plan) (x : Search) : Except StoreError (Option Search) :=
  match x.frames with
  | [] => .ok none
  | frame :: below =>
    let depth := below.length
    let x := x.undo depth
    match frame.candidates[frame.next]? with
    | none => .ok (some { x with frames := below })
    | some (r, n) =>
      let tried := { frame with next := frame.next + 1 } :: below
      if p.agrees x.nodes x.relationships depth r n then
        let x := x.choose r n
        match p.template.segments[depth]? with
        | none => .ok (some { x.record p with frames := tried })
        | some segment => do
          let deeper ← frameFrom s n segment
          .ok (some { x with frames := deeper :: tried })
      else .ok (some { x with frames := tried })

/-- What a step can do: it leaves the frame on top, passes over a candidate, records a path that
a candidate completes, or goes one level deeper. -/
theorem step_cases {s : Store} {p : Plan} {x y : Search} (h : x.step s p = .ok (some y)) :
    ∃ frame below, x.frames = frame :: below ∧
      (y = { x.undo below.length with frames := below } ∨
        ∃ c, frame.candidates[frame.next]? = some c ∧
          (y = { x.undo below.length with
              frames := { frame with next := frame.next + 1 } :: below } ∨
            y = { ((x.undo below.length).choose c.1 c.2).record p with
              frames := { frame with next := frame.next + 1 } :: below } ∨
            ∃ segment deeper, p.template.segments[below.length]? = some segment ∧
              frameFrom s c.2 segment = .ok deeper ∧
              y = { (x.undo below.length).choose c.1 c.2 with
                frames := deeper :: { frame with next := frame.next + 1 } :: below })) := by
  unfold step at h
  split at h
  · cases h
  · next frame below hx =>
    refine ⟨frame, below, hx, ?_⟩
    simp only at h
    split at h
    · cases h
      exact .inl rfl
    · next r n hc =>
      refine .inr ⟨(r, n), hc, ?_⟩
      split at h
      · split at h
        · cases h
          exact .inr (.inl rfl)
        · next segment hsegment =>
          cases hdeeper : frameFrom s n segment with
          | error e => simp [hdeeper, bind, Except.bind] at h
          | ok deeper =>
            simp only [hdeeper, bind, Except.bind] at h
            cases h
            exact .inr (.inr ⟨segment, deeper, hsegment, hdeeper, rfl⟩)
      · cases h
        exact .inl rfl

/-! ### Termination -/

/-- The number of adjacency entries. -/
def adjacencySize (s : Store) : Nat :=
  s.outgoing.toList.flatten.length + s.incoming.toList.flatten.length

/-- An upper bound on the steps left: a candidate outweighs all that its choice can
put on the stack. -/
def weight (s : Store) (levels : Nat) : List Frame → Nat
  | [] => 0
  | frame :: below =>
    (frame.candidates.length - frame.next) * Nat.pow (adjacencySize s + 2) (levels - below.length) +
      1 + weight s levels below

theorem length_getD_le (lists : List (List Nat)) (i : Nat) :
    ((lists[i]?).getD []).length ≤ lists.flatten.length := by
  induction lists generalizing i with
  | nil => simp
  | cons l rest ih =>
    cases i with
    | zero => simp
    | succ i =>
      have := ih i
      simp only [List.getElem?_cons_succ, List.flatten_cons, List.length_append]
      omega

theorem length_adjacent_le (s : Store) (slot : Nat) (d : Direction) :
    (s.adjacent slot d).length ≤ adjacencySize s := by
  have ho := length_getD_le s.outgoing.toList slot
  have hi := length_getD_le s.incoming.toList slot
  simp only [Array.getElem?_toList] at ho hi
  have hm := length_mergeAscending_le ((s.outgoing[slot]?).getD []) ((s.incoming[slot]?).getD [])
  unfold adjacencySize
  cases d <;> simp only [Store.adjacent] <;> omega

theorem length_hopsAlong_le {s : Store} {key : NodeKey} {step : Step}
    {hops : List (Node × Relationship)} (h : s.hopsAlong key step = .ok hops) :
    hops.length ≤ adjacencySize s := by
  unfold Store.hopsAlong Store.neighbors at h
  cases hs : s.nodeSlot key with
  | error e => simp [hs, bind, Except.bind] at h
  | ok slot =>
    simp only [hs, bind, Except.bind, Except.ok.injEq] at h
    subst h
    have hf := List.length_filter_le
      (fun x : Node × Relationship => step.label.all (x.1.label == ·))
      ((s.adjacent slot step.direction).filterMap (s.across? key (some step.kind)))
    have hm := List.length_filterMap_le (s.across? key (some step.kind))
      (s.adjacent slot step.direction)
    exact Nat.le_trans hf (Nat.le_trans hm (length_adjacent_le s slot _))

theorem length_frameFrom_le {s : Store} {n : Node} {segment : RelationshipSlot × NodeSlot}
    {frame : Frame} (h : frameFrom s n segment = .ok frame) :
    frame.next = 0 ∧ frame.candidates.length ≤ adjacencySize s := by
  unfold frameFrom at h
  cases hs : s.hopsAlong n.key ⟨segment.1.kind, segment.1.direction, some segment.2.label⟩ with
  | error e => simp [hs, bind, Except.bind] at h
  | ok hops =>
    simp only [hs, bind, Except.bind, Except.ok.injEq] at h
    subst h
    simpa using length_hopsAlong_le hs

theorem weight_tried (s : Store) (levels : Nat) {frame : Frame} (below : List Frame)
    {c : Option Relationship × Node} (h : frame.candidates[frame.next]? = some c) :
    weight s levels ({ frame with next := frame.next + 1 } :: below) +
        Nat.pow (adjacencySize s + 2) (levels - below.length) =
      weight s levels (frame :: below) := by
  have hlt : frame.next < frame.candidates.length := (List.getElem?_eq_some_iff.1 h).1
  obtain ⟨left, hleft⟩ : ∃ left, frame.candidates.length - frame.next = left + 1 :=
    ⟨_, (Nat.succ_pred_eq_of_pos (by omega)).symm⟩
  have hnext : frame.candidates.length - (frame.next + 1) = left := by omega
  simp only [weight, hleft, hnext, Nat.add_mul, Nat.one_mul]
  omega

theorem weight_deeper_lt (s : Store) (levels : Nat) (tried : List Frame) {deeper : Frame}
    (hnext : deeper.next = 0) (hlen : deeper.candidates.length ≤ adjacencySize s)
    (hlevel : tried.length ≤ levels) (hpos : 0 < tried.length) :
    weight s levels (deeper :: tried) <
      weight s levels tried + Nat.pow (adjacencySize s + 2) (levels - (tried.length - 1)) := by
  have hexp : levels - (tried.length - 1) = levels - tried.length + 1 := by omega
  have hp : 0 < Nat.pow (adjacencySize s + 2) (levels - tried.length) := Nat.pow_pos (by omega)
  have hm := Nat.mul_le_mul_right (Nat.pow (adjacencySize s + 2) (levels - tried.length)) hlen
  have hpow : Nat.pow (adjacencySize s + 2) (levels - tried.length + 1) =
      Nat.pow (adjacencySize s + 2) (levels - tried.length) * (adjacencySize s + 2) := rfl
  simp only [weight, hnext, Nat.sub_zero, hexp, hpow, Nat.mul_add, Nat.mul_two]
  rw [Nat.mul_comm _ (adjacencySize s)]
  omega

/-- Every step takes away weight. -/
theorem weight_step_lt {s : Store} {p : Plan} {x y : Search} (h : x.step s p = .ok (some y)) :
    weight s p.template.segments.length y.frames <
      weight s p.template.segments.length x.frames := by
  obtain ⟨frame, below, hx, rfl | ⟨c, hc, hcases⟩⟩ := step_cases h
  · rw [hx]
    simp only [weight]
    omega
  · have htried := weight_tried s p.template.segments.length below hc
    have hp : 0 < Nat.pow (adjacencySize s + 2) (p.template.segments.length - below.length) :=
      Nat.pow_pos (by omega)
    rw [hx]
    obtain rfl | rfl | ⟨segment, deeper, hsegment, hdeeper, rfl⟩ := hcases
    · simp only
      omega
    · simp only
      omega
    · have hlt : below.length < p.template.segments.length :=
        (List.getElem?_eq_some_iff.1 hsegment).1
      have hd := length_frameFrom_le hdeeper
      have hweight := weight_deeper_lt s p.template.segments.length
        ({ frame with next := frame.next + 1 } :: below) hd.1 hd.2
        (by simp only [List.length_cons]; omega) (by simp)
      simp only [List.length_cons, Nat.add_sub_cancel] at hweight
      simp only
      omega

/-! ### Running -/

/-- Steps until no frame is left. -/
def run (s : Store) (p : Plan) (x : Search) : Except StoreError (Array Match) :=
  match _h : x.step s p with
  | .error e => .error e
  | .ok none => .ok x.found
  | .ok (some y) => run s p y
termination_by weight s p.template.segments.length x.frames
decreasing_by exact weight_step_lt _h

end Search

/-- All matches of a template that satisfy the condition. -/
def Store.findMatches (s : Store) (t : Template) (condition : Condition) :
    Except ExecutionError (List Match) := do
  (t.check s condition).mapError .pattern
  let found ← ((Search.start s t).run s (.make t condition)).mapError .store
  .ok found.toList

end PropertyGraph
