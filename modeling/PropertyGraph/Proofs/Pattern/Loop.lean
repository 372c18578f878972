import Mathlib.Algebra.Group.Nat.Defs
import PropertyGraph.Proofs.Pattern.Matching

/-! The loop of the search, step by step. Whenever it looks at a frame, the choice above is taken
back first, and then what is chosen is what the frames below tried last, one candidate from
each. So everything that a step looks up by a place is there: aliases lead to lower places, a
level below the last one has its segment, and a candidate is a node of the store, whose
neighbours are known. Every step takes away weight, so there are only so many. -/

namespace PropertyGraph

/-! ### Places -/

theorem Choices.length_relationships (chosen : Choices) :
    chosen.relationships.length = chosen.nodes.length - 1 := by
  cases chosen <;> simp [relationships, nodes, Path.relationships, Path.nodes]

theorem Choices.isSome_iff (chosen : Choices) : chosen.isSome = true ↔ 0 < chosen.nodes.length := by
  cases chosen <;> simp [nodes, Path.nodes]

/-- Every place has an entry in the list of aliases, and it is a lower place if it is any. -/
theorem exists_alias_lt {names : List (Option String)} {d : Nat} (hd : d < names.length) :
    ∃ a, (aliases names)[d]? = some a ∧ ∀ i, a = some i → i < d := by
  have hlength : d < (aliases names).length := by simpa [aliases] using hd
  refine ⟨(aliases names)[d], List.getElem?_eq_getElem hlength, fun i hi => ?_⟩
  have halias : ((aliases names)[d]?).join = some i := by
    rw [List.getElem?_eq_getElem hlength, hi, Option.join_some]
  exact (lt_of_alias halias).1

namespace Search

variable {s : Store} {t : Template} {condition : Condition} {p : Plan} {x y : Search} {f : Frame}
  {below : List Frame} {chosen : Choices} {rest left : List Path} {n : Nat}

/-- The candidates that are chosen, from the lowest level on. -/
def choices (x : Search) : List Candidate :=
  (none :: x.relationships.toList.map some).zip x.nodes.toList

/-- What the frames below tried last is what is chosen. -/
theorem Below.map_current (h : Below s p below chosen rest) :
    below.reverse.map Frame.current? =
      ((none :: chosen.relationships.map some).zip chosen.nodes).map some := by
  induction h with
  | nil => rfl
  | @cons f below chosen rest c h hf hc ih =>
    have hsuits := hf.suits_current hc
    rw [List.reverse_cons, List.map_append, ih, List.map_singleton, hc, Choices.relationships,
      Choices.relationships_add hsuits, Choices.nodes, Choices.nodes_add hsuits]
    obtain ⟨_ | r, m⟩ := c <;> rcases chosen with _ | q
    · rfl
    · cases hsuits
    · cases hsuits
    · have hlength : (none :: (Choices.relationships (some q)).map some).length =
          (Choices.nodes (some q)).length := by
        simp [Choices.relationships, Choices.nodes, Path.relationships, Path.nodes]
      rw [Option.toList_some, List.map_append, ← List.cons_append, List.zip_append hlength,
        List.map_append]
      rfl

/-! ### One step -/

/-- What holds when the loop looks at a frame on top of others. -/
structure LoopSound (s : Store) (p : Plan) (x : Search) (f : Frame) (below : List Frame) :
    Prop where
  depth_le : below.length ≤ p.template.segments.length
  /-- After the choice above is taken back, a node is chosen at every level below and a
  relationship at every level but the lowest. -/
  nodes_size : (x.undo below.length).nodes.size = below.length
  relationships_size : (x.undo below.length).relationships.size = below.length - 1
  /-- What is chosen at a level is the candidate just before the next one of its frame. -/
  chosen : below.reverse.map Frame.current? = (x.undo below.length).choices.map some
  nodeAlias : ∃ a, p.nodeAliases[below.length]? = some a ∧ ∀ i, a = some i → i < below.length
  relationshipAlias : ∀ e, below.length = e + 1 →
    ∃ a, p.relationshipAliases[e]? = some a ∧ ∀ i, a = some i → i < e
  segment : below.length ≠ p.template.segments.length →
    ∃ segment, p.template.segments[below.length]? = some segment
  /-- Above the lowest level a candidate comes with a relationship; once it is chosen there is a
  node for every frame and a relationship for every frame but the lowest. -/
  candidate : ∀ c, f.candidates[f.next]? = some c → (c.1.isSome = true ↔ 0 < below.length) ∧
    ((x.undo below.length).choose c.1 c.2).nodes.size = below.length + 1 ∧
    ((x.undo below.length).choose c.1 c.2).relationships.size = below.length
  neighbors : ∀ c, f.candidates[f.next]? = some c →
    ∀ kind d, ∃ found, s.neighbors c.2.key kind d = .ok found
  step : ∃ y, x.step s p = .ok (some y)

theorem Trying.loopSound (hs : s.Invariant)
    (h : Trying s (.make t condition) x f below chosen rest) :
    LoopSound s (.make t condition) x f below := by
  have hdepth := h.below.length_eq
  obtain ⟨hnodes, hrelationships⟩ : (x.undo below.length).Holds chosen :=
    hdepth ▸ holds_undo h.returns
  have hle : below.length ≤ t.segments.length := h.depth_le
  refine ⟨h.depth_le, ?_, ?_, ?_, ?_, fun e he => ?_, fun hne => ?_, fun c hc => ?_,
    fun c hc kind d => ?_, ?_⟩
  · rw [hnodes, hdepth, List.size_toArray]
  · rw [hrelationships, hdepth, List.size_toArray, chosen.length_relationships]
  · rw [choices, hnodes, hrelationships, h.below.map_current]
  · exact exists_alias_lt (by simp [Template.nodeSlots]; omega)
  · exact exists_alias_lt (by simp [Template.relationshipSlots]; omega)
  · exact ⟨_, List.getElem?_eq_getElem (Nat.lt_of_le_of_ne hle hne)⟩
  · have hsuits := (h.offers c (List.mem_of_getElem? hc)).2
    obtain ⟨hnodes', hrelationships'⟩ := holds_choose ⟨hnodes, hrelationships⟩ hsuits
    have hlength : (Choices.nodes (some (chosen.add c))).length = below.length + 1 := by
      rw [Choices.nodes, Choices.nodes_add hsuits, List.length_append, hdepth]
      rfl
    refine ⟨by rw [hsuits, chosen.isSome_iff, hdepth], ?_, ?_⟩
    · rw [hnodes', List.size_toArray, hlength]
    · rw [hrelationships', List.size_toArray, Choices.length_relationships, hlength]
      rfl
  · obtain ⟨found, hfound, -⟩ :=
      hs.neighbors_spec (h.offers c (List.mem_of_getElem? hc)).1 kind d
    exact ⟨found, hfound⟩
  · obtain ⟨y, left, hstep, -⟩ := h.step_spec hs
    exact ⟨y, hstep⟩

/-! ### The run -/

/-- So many steps lead from one search to another. -/
inductive Steps (s : Store) (p : Plan) : Nat → Search → Search → Prop where
  | refl (x : Search) : Steps s p 0 x x
  | step {n : Nat} {x y z : Search} : x.step s p = .ok (some y) → Steps s p n y z →
      Steps s p (n + 1) x z

/-- Steps take away weight, one each at least. -/
theorem Steps.weight_le (h : Steps s p n x y) :
    n + weight s p.template.segments.length y.frames ≤
      weight s p.template.segments.length x.frames := by
  induction h with
  | refl x => exact Nat.le_of_eq (Nat.zero_add _)
  | step hstep _ ih =>
    have hlt := weight_step_lt hstep
    omega

theorem open_of_steps (hs : s.Invariant) (h : Steps s p n x y) (hx : Open s p x left) :
    ∃ left, Open s p y left := by
  induction h generalizing left with
  | refl x => exact ⟨_, hx⟩
  | step hstep _ ih =>
    obtain ⟨-, -, hended⟩ | ⟨z, left', hz, hopen, -⟩ := hx.step_spec hs
    · cases hstep.symm.trans hended
    · cases hstep.symm.trans hz
      exact ih hopen

/-- The loop ends, and what it has found by then is the answer. -/
theorem Open.exists_steps (hs : s.Invariant) (hx : Open s p x left) :
    ∃ n y, Steps s p n x y ∧ y.frames = [] ∧ x.run s p = .ok y.found := by
  have hspec := hx.step_spec hs
  fun_induction run s p x generalizing left with
  | case1 x e he => simp [he] at hspec
  | case2 x he =>
    obtain ⟨hended, -, -⟩ | ⟨y, left, hstep, -⟩ := hspec
    · exact ⟨0, x, .refl x, hended, rfl⟩
    · cases he.symm.trans hstep
  | case3 x y he ih =>
    obtain ⟨left, hy⟩ := open_of_steps hs (.step he (.refl y)) hx
    obtain ⟨n, z, hsteps, hz, hrun⟩ := ih hy (hy.step_spec hs)
    exact ⟨n + 1, z, .step he hsteps, hz, hrun⟩

/-- The loop looks things up where they are and ends. It takes at most as many steps as the
nodes of the first label allow, each of which stands for all candidates above it, and one
step more to leave the lowest frame. -/
theorem loop_sound (h : s.Reachable) (hcheck : t.check s condition = .ok ()) :
    (∀ n x, Steps s (.make t condition) n (start s t) x →
      n ≤ (s.nodesLabeled t.start.label).length * (adjacencySize s + 2) ^ t.segments.length + 1 ∧
      ∀ f below, x.frames = f :: below → LoopSound s (.make t condition) x f below) ∧
    ∃ n x, Steps s (.make t condition) n (start s t) x ∧ x.frames = [] ∧
      s.findMatches t condition = .ok x.found.toList := by
  have hs := h.invariant
  have hopen := open_start hs t condition
  constructor
  · intro n x hsteps
    constructor
    · have hweight := hsteps.weight_le
      simp only [start, weight, List.length_map, List.length_nil, Nat.sub_zero, Plan.make,
        Nat.pow_eq] at hweight
      omega
    · intro f below hx
      obtain ⟨left, hleft⟩ := open_of_steps hs hsteps hopen
      cases hleft with
      | ended hended => cases hx.symm.trans hended
      | trying htrying =>
        cases hx.symm.trans htrying.frames
        exact htrying.loopSound hs
  · obtain ⟨n, x, hsteps, hx, hrun⟩ := hopen.exists_steps hs
    refine ⟨n, x, hsteps, hx, ?_⟩
    rw [Store.findMatches, hcheck, hrun]
    rfl

/-- The first person knows itself, so the graph has a cycle. -/
theorem loop_sound_selfKnowing :
    (∀ n x, Steps .acquaintances (.make Store.selfKnowing .always) n
        (start .acquaintances Store.selfKnowing) x → n ≤ 2 * 6 ^ 1 + 1 ∧
      ∀ f below, x.frames = f :: below →
        LoopSound .acquaintances (.make Store.selfKnowing .always) x f below) ∧
    ∃ n x, Steps .acquaintances (.make Store.selfKnowing .always) n
        (start .acquaintances Store.selfKnowing) x ∧ x.frames = [] ∧
      Store.acquaintances.findMatches Store.selfKnowing .always = .ok x.found.toList :=
  loop_sound Store.reachable_acquaintances Store.check_selfKnowing

end Search

end PropertyGraph
