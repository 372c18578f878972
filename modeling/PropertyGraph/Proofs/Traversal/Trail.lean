import PropertyGraph.Proofs.Except
import PropertyGraph.Proofs.Store.Hops

/-! What a traversal finds. Going depth first along the steps it comes by the trails from
the start, each once and in the order of their ranks, and of these it keeps the ones that
the condition holds of. In the condition a name stands for the entity nearest the start
that goes by it. -/

namespace PropertyGraph

/-- From a node the hops serve the steps, one by one. -/
inductive Follows (s : Store) : Node → List Step → List (Relationship × Node) → Prop where
  | nil (n : Node) : Follows s n [] []
  | cons {n m : Node} {r : Relationship} {step : Step} {steps : List Step}
      {hops : List (Relationship × Node)} :
      r ∈ s.relationshipList → m ∈ s.nodeList → r.Serves step n m → Follows s m steps hops →
      Follows s n (step :: steps) ((r, m) :: hops)

theorem follows_nil_iff {s : Store} {n : Node} {hops : List (Relationship × Node)} :
    Follows s n [] hops ↔ hops = [] := by
  constructor
  · rintro ⟨⟩
    rfl
  · rintro rfl
    exact .nil n

theorem follows_cons_iff {s : Store} (h : s.Invariant) {n : Node} (hn : n ∈ s.nodeList)
    {step : Step} {steps : List Step} {hops : List (Relationship × Node)} :
    Follows s n (step :: steps) hops ↔ ∃ r m rest, hops = (r, m) :: rest ∧
      (r, m) ∈ s.hops n step ∧ Follows s m steps rest := by
  simp only [h.mem_hops_iff hn]
  constructor
  · intro hfollows
    cases hfollows with
    | cons hr hm hserves hrest => exact ⟨_, _, _, rfl, ⟨hr, hm, hserves⟩, hrest⟩
  · rintro ⟨r, m, rest, rfl, ⟨hr, hm, hserves⟩, hrest⟩
    exact .cons hr hm hserves hrest

/-! ### Names along a path -/

namespace Entity

/-- The label or the kind. -/
def tag : Entity → String
  | .node n => n.label
  | .relationship r => r.kind

end Entity

namespace Path

/-- The nodes and relationships along the path. -/
def entities (p : Path) : List Entity :=
  .node p.start :: p.hops.flatMap fun (r, n) => [.relationship r, .node n]

/-- Going along the path, the entity is the first one with this tag. -/
def Denotes (p : Path) (x : String) (e : Entity) : Prop :=
  ∃ before after, p.entities = before ++ e :: after ∧ e.tag = x ∧ ∀ e' ∈ before, e'.tag ≠ x

theorem named_eq_map (p : Path) : p.named = p.entities.map fun e => (e.tag, e) := by
  simp only [named, entities, List.map_cons, List.map_flatMap]
  rfl

theorem environment_eq_find? (p : Path) (x : String) :
    p.environment x = p.entities.find? fun e => e.tag == x := by
  rw [environment, named_eq_map]
  induction p.entities with
  | nil => rfl
  | cons e rest ih =>
    rw [List.map_cons, List.lookup_cons, List.find?_cons, ih, Bool.beq_comm]

theorem environment_eq_some_iff {p : Path} {x : String} {e : Entity} :
    p.environment x = some e ↔ p.Denotes x e := by
  rw [environment_eq_find?, List.find?_eq_some_iff_append]
  simp only [Denotes, beq_iff_eq, Bool.not_eq_true', beq_eq_false_iff_ne]
  constructor
  · rintro ⟨he, before, after, hentities, hbefore⟩
    exact ⟨before, after, hentities, he, hbefore⟩
  · rintro ⟨before, after, hentities, he, hbefore⟩
    exact ⟨he, before, after, hentities, hbefore⟩

end Path

/-! ### Going along the steps -/

namespace Store

variable {s : Store} {p q : Path} {steps : List Step} {condition : Condition} {n : Node}

/-- The paths that go on from a path along the steps. -/
def trails (s : Store) : List Step → Path → List Path
  | [], p => [p]
  | step :: steps, p => (s.hops p.last step).flatMap fun (r, m) => s.trails steps (p.push r m)

/-- The rank of a path begins with the rank of any path that it goes on from. -/
theorem rank_of_mem_trails (hq : q ∈ s.trails steps p) : ∃ rest, s.rank q = s.rank p ++ rest := by
  induction steps generalizing p with
  | nil =>
    rw [trails, List.mem_singleton] at hq
    exact ⟨[], by rw [hq, List.append_nil]⟩
  | cons step steps ih =>
    obtain ⟨⟨r, m⟩, -, hq⟩ := List.mem_flatMap.1 hq
    obtain ⟨rest, hrest⟩ := ih hq
    refine ⟨s.relationshipList.idxOf r :: rest, ?_⟩
    rw [hrest, rank_push, List.append_assoc, List.singleton_append]

theorem flatMap_filter {α β : Type} (test : α → Bool) (f : α → List β) (l : List α) :
    (l.filter test).flatMap f = l.flatMap fun a => if test a then f a else [] := by
  induction l with
  | nil => rfl
  | cons a rest ih =>
    rw [List.filter_cons, List.flatMap_cons, ← ih]
    split <;> rfl

/-- The trails go through the neighbours of the path's end that have the label asked for. -/
theorem filter_trails_cons {step : Step} {found : List (Node × Relationship)}
    (hfound : s.neighbors p.last.key (some step.kind) step.direction = .ok found)
    (test : Path → Bool) : (s.trails (step :: steps) p).filter test = found.flatMap fun (m, r) =>
      if step.label.all (m.label == ·) then (s.trails steps (p.push r m)).filter test else [] := by
  rw [trails, hops_eq_filter hfound, List.flatMap_map, List.filter_flatMap, flatMap_filter]

theorem found_record (x : Expansion) (condition : Condition) :
    (x.record condition).found.toList =
      x.found.toList ++ (s.trails [] x.path).filter fun q => condition.eval q.environment := by
  rw [Expansion.record, trails, List.filter_singleton]
  split
  · next h => simp [h]
  · next h => simp [h]

namespace Invariant

theorem last_push_mem (h : s.Invariant) (hp : p.last ∈ s.nodeList) {step : Step}
    {r : Relationship} {m : Node} (hhop : (r, m) ∈ s.hops p.last step) :
    (p.push r m).last ∈ s.nodeList := by
  rw [Path.last_push]
  exact ((h.mem_hops_iff hp).1 hhop).2.1

/-- The trails that go on from the path along the steps behind it are judged one after the
other, and those of which the condition holds are added to what was found before. -/
theorem expand_spec (h : s.Invariant) {x : Expansion} (hx : x.path.last ∈ s.nodeList) :
    ∃ y, s.expand condition steps x = .ok y ∧ y.1.found.toList = x.found.toList ++
      (s.trails (steps.drop x.path.length) x.path).filter
        fun q => condition.eval q.environment := by
  -- The induction is on the steps left, of which every hop that is pushed takes one away.
  generalize hrest : steps.drop x.path.length = rest
  induction rest generalizing x with
  | nil =>
    have hnone : steps[x.path.length]? = none :=
      List.getElem?_eq_none (List.drop_eq_nil_iff.1 hrest)
    rw [expand]
    split
    · exact ⟨_, rfl, found_record x condition⟩
    · next hsome => cases hnone.symm.trans hsome
  | cons step rest ih =>
    have hstep : steps[x.path.length]? = some step := by
      rw [← List.head?_drop, hrest, List.head?_cons]
    have hlater : steps.drop (x.path.length + 1) = rest := by
      rw [← List.tail_drop, hrest, List.tail_cons]
    obtain ⟨found, hfound, -, hmem⟩ := h.neighbors_spec hx (some step.kind) step.direction
    rw [expand]
    split
    · next hnone => cases hstep.symm.trans hnone
    · next hsome =>
      cases hstep.symm.trans hsome
      rw [hfound, ok_bind, filter_trails_cons hfound]
      refine foldlM_appends (fun hop hhop y => ?_)
        (⟨x, rfl⟩ : { y : Expansion // y.path = x.path })
      obtain ⟨m, r⟩ := hop
      dsimp only
      split
      · have hlast : (y.1.push r m).path.last ∈ s.nodeList := by
          rw [Expansion.path_push, Path.last_push]
          exact ((hmem m r).1 hhop).1
        have hlength : steps.drop (y.1.push r m).path.length = rest := by
          rw [Expansion.path_push, Path.length_push, y.2, hlater]
        obtain ⟨z, hz, hout⟩ := ih hlast hlength
        refine ⟨_, by rw [hz]; rfl, hout.trans ?_⟩
        rw [Expansion.path_push, y.2]
        rfl
      · exact ⟨y, rfl, (List.append_nil _).symm⟩

theorem mem_trails_iff (h : s.Invariant) (hp : p.last ∈ s.nodeList) :
    q ∈ s.trails steps p ↔ ∃ hops, q = p.followed hops ∧ Follows s p.last steps hops := by
  induction steps generalizing p with
  | nil => simp [trails, follows_nil_iff]
  | cons step steps ih =>
    simp only [trails, List.mem_flatMap, follows_cons_iff h hp]
    constructor
    · rintro ⟨⟨r, m⟩, hhop, hq⟩
      have hm := h.last_push_mem hp hhop
      obtain ⟨hops, rfl, hfollows⟩ := (ih hm).1 hq
      rw [Path.last_push] at hfollows
      exact ⟨(r, m) :: hops, (Path.followed_cons ..).symm, r, m, hops, rfl, hhop, hfollows⟩
    · rintro ⟨_, rfl, r, m, hops, rfl, hhop, hfollows⟩
      have hm := h.last_push_mem hp hhop
      refine ⟨(r, m), hhop, (ih hm).2 ⟨hops, Path.followed_cons .., ?_⟩⟩
      rwa [Path.last_push]

theorem pairwise_trails (h : s.Invariant) (hp : p.last ∈ s.nodeList) :
    (s.trails steps p).Pairwise fun a b => s.rank a < s.rank b := by
  induction steps generalizing p with
  | nil => exact List.pairwise_singleton _ _
  | cons step steps ih =>
    refine List.pairwise_flatMap.2 ⟨fun hop hhop => ih (h.last_push_mem hp hhop), ?_⟩
    refine (h.pairwise_hops hp step).imp fun hlt a ha b hb => ?_
    obtain ⟨as, ha⟩ := rank_of_mem_trails ha
    obtain ⟨bs, hb⟩ := rank_of_mem_trails hb
    rw [ha, hb]
    simp only [rank_push, List.append_assoc]
    exact List.append_left_lt (List.cons_lt_cons_iff.2 (.inl hlt))

end Invariant

/-! ### Traversals -/

/-- A path from a node along the steps of which the condition holds, if every name stands
for what it denotes on the path. -/
structure IsTrail (s : Store) (n : Node) (steps : List Step) (condition : Condition) (p : Path) :
    Prop where
  start : p.start = n
  follows : Follows s n steps p.hops
  holds : ∃ env : Environment, (∀ x e, env x = some e ↔ p.Denotes x e) ∧ condition.eval env = true

theorem Path.eval_environment_iff {p : Path} : condition.eval p.environment = true ↔
    ∃ env : Environment, (∀ x e, env x = some e ↔ p.Denotes x e) ∧ condition.eval env = true := by
  constructor
  · intro h
    exact ⟨p.environment, fun _ _ => p.environment_eq_some_iff, h⟩
  · rintro ⟨env, hdenotes, h⟩
    have henv : env = p.environment := by
      funext x
      ext e
      rw [hdenotes, p.environment_eq_some_iff]
    exact henv ▸ h

namespace Invariant

theorem getNode_eq_ok (h : s.Invariant) (hn : n ∈ s.nodeList) : s.getNode n.key = .ok n := by
  rw [getNode, h.node?_eq_some_iff.2 ⟨hn, rfl⟩]

theorem getNode_eq_error (h : s.Invariant) {key : NodeKey} (hkey : ∀ n ∈ s.nodeList, n.key ≠ key) :
    s.getNode key = .error (.nodeNotFound key) := by
  have hnone : s.node? key = none := by
    refine Option.eq_none_iff_forall_ne_some.2 fun n hn => ?_
    obtain ⟨hmem, hk⟩ := h.node?_eq_some_iff.1 hn
    exact hkey n hmem hk
  rw [getNode, hnone]

theorem traverse_eq (h : s.Invariant) (hn : n ∈ s.nodeList) {limit : Nat}
    (hlimit : steps.length ≤ limit) : s.traverse n.key steps condition limit =
      .ok ((s.trails steps ⟨n, []⟩).filter fun p => condition.eval p.environment) := by
  have hlast : (Path.mk n []).last ∈ s.nodeList := hn
  obtain ⟨y, hy, hfound⟩ :
      ∃ y, s.expand condition steps ⟨⟨n, []⟩, #[]⟩ = .ok y ∧ y.1.found.toList = _ :=
    h.expand_spec hlast
  rw [traverse, if_neg (Nat.not_lt.2 hlimit), h.getNode_eq_ok hn, ok_bind, hy, ok_bind, hfound]
  rfl

theorem mem_filter_trails_iff (h : s.Invariant) (hn : n ∈ s.nodeList) :
    p ∈ (s.trails steps ⟨n, []⟩).filter (fun p => condition.eval p.environment) ↔
      s.IsTrail n steps condition p := by
  have hlast : (Path.mk n []).last ∈ s.nodeList := hn
  rw [List.mem_filter, h.mem_trails_iff hlast, Path.eval_environment_iff]
  constructor
  · rintro ⟨⟨hops, rfl, hfollows⟩, hholds⟩
    exact ⟨rfl, hfollows, hholds⟩
  · rintro ⟨rfl, hfollows, hholds⟩
    exact ⟨⟨p.hops, rfl, hfollows⟩, hholds⟩

end Invariant

/-- A traversal of more steps than the limit allows is refused, whether its start is there
or not; one whose start is not there is told so; every other one goes through and finds
exactly the trails, each once, in strictly ascending order of rank. -/
theorem traverse_spec (h : s.Reachable) (start : NodeKey) (steps : List Step)
    (condition : Condition) (limit : Nat) :
    (limit < steps.length ∧
      s.traverse start steps condition limit = .error (.tooManyHops steps.length limit)) ∨
    (steps.length ≤ limit ∧ (∀ n ∈ s.nodeList, n.key ≠ start) ∧
      s.traverse start steps condition limit = .error (.store (.nodeNotFound start))) ∨
    (steps.length ≤ limit ∧ ∃ n ∈ s.nodeList, n.key = start ∧
      ∃ found, s.traverse start steps condition limit = .ok found ∧
        (∀ p, p ∈ found ↔ s.IsTrail n steps condition p) ∧ found.Nodup ∧
        found.Pairwise fun a b => s.rank a < s.rank b) := by
  have hs := h.invariant
  rcases Nat.lt_or_ge limit steps.length with hlimit | hlimit
  · exact .inl ⟨hlimit, if_pos hlimit⟩
  · by_cases hstart : ∃ n ∈ s.nodeList, n.key = start
    · obtain ⟨n, hn, rfl⟩ := hstart
      have hlast : (Path.mk n []).last ∈ s.nodeList := hn
      have hordered : ((s.trails steps ⟨n, []⟩).filter
          fun p => condition.eval p.environment).Pairwise fun a b => s.rank a < s.rank b :=
        (hs.pairwise_trails hlast).filter _
      exact .inr (.inr ⟨hlimit, n, hn, rfl, _, hs.traverse_eq hn hlimit,
        fun p => hs.mem_filter_trails_iff hn, nodup_of_pairwise_rank hordered, hordered⟩)
    · have hkey : ∀ n ∈ s.nodeList, n.key ≠ start := fun n hn hk => hstart ⟨n, hn, hk⟩
      refine .inr (.inl ⟨hlimit, hkey, ?_⟩)
      rw [traverse, if_neg (Nat.not_lt.2 hlimit), hs.getNode_eq_error hkey]
      rfl

theorem traverse_acquaintances : ∃ n ∈ acquaintances.nodeList, n.key = ⟨"Person", 1⟩ ∧
    ∃ found, acquaintances.traverse ⟨"Person", 1⟩ [⟨"KNOWS", .both, none⟩] .always 1 = .ok found ∧
      (∀ p, p ∈ found ↔ acquaintances.IsTrail n [⟨"KNOWS", .both, none⟩] .always p) ∧
      found.Nodup ∧ found.Pairwise fun a b => acquaintances.rank a < acquaintances.rank b := by
  rcases traverse_spec reachable_acquaintances ⟨"Person", 1⟩ [⟨"KNOWS", .both, none⟩] .always 1 with
    ⟨hlimit, -⟩ | ⟨-, hkey, -⟩ | ⟨-, hfound⟩
  · exact absurd hlimit (by decide)
  · exact absurd hkey (by decide)
  · exact hfound

example : (acquaintances.traverse ⟨"Person", 1⟩
    [⟨"KNOWS", .outgoing, none⟩, ⟨"KNOWS", .outgoing, none⟩] .always 2).map (·.map (·.describe)) =
      .ok [["Person:1", "KNOWS", "Person:1", "KNOWS", "Person:1"],
        ["Person:1", "KNOWS", "Person:1", "KNOWS", "Person:2"]] := by
  decide +kernel

end Store

end PropertyGraph
