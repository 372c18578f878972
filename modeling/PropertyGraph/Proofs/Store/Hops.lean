import PropertyGraph.Proofs.Store.Scan
import PropertyGraph.Traversal

/-! Hops. A step taken from a node follows the relationships of one kind in one direction,
and each of them leads to one node. The hops of a step come in the order in which their
relationships were inserted, so paths are compared by the places of their relationships,
hop by hop. -/

namespace PropertyGraph

namespace Relationship

variable {r : Relationship} {n m : Node} {step : Step}

/-- The relationship is a way to take the step from one node to another. -/
structure Serves (r : Relationship) (step : Step) (n m : Node) : Prop where
  kind : r.kind = step.kind
  joins : r.Joins step.direction n.key m.key
  label : ∀ l ∈ step.label, m.label = l

theorem isKind_some_iff {kind : String} : r.IsKind (some kind) ↔ r.kind = kind := by
  simp [IsKind]

end Relationship

namespace Path

/-- The path with more hops. -/
def followed (p : Path) (hops : List (Relationship × Node)) : Path :=
  { p with hops := p.hops ++ hops }

@[simp] theorem followed_nil (p : Path) : p.followed [] = p := by simp [followed]

theorem followed_cons (p : Path) (r : Relationship) (n : Node) (hops : List (Relationship × Node)) :
    p.followed ((r, n) :: hops) = (p.push r n).followed hops := by
  simp [followed, push]

@[simp] theorem last_push (p : Path) (r : Relationship) (n : Node) : (p.push r n).last = n := by
  simp [last, push]

end Path

namespace Store

/-- The ways to take a step from a node; none if the node is not there. -/
def hops (s : Store) (n : Node) (step : Step) : List (Relationship × Node) :=
  match s.hopsAlong n.key step with
  | .ok hops => hops.map fun (m, r) => (r, m)
  | .error _ => []

theorem hops_eq_filter {s : Store} {n : Node} {step : Step}
    {found : List (Node × Relationship)}
    (hfound : s.neighbors n.key (some step.kind) step.direction = .ok found) :
    s.hops n step = (found.filter fun (m, _) => step.label.all (m.label == ·)).map
      fun (m, r) => (r, m) := by
  rw [hops, hopsAlong, hfound]
  rfl

/-- The place of the start in the scan of nodes, and the places of the relationships in
the scan of relationships. -/
def rank (s : Store) (p : Path) : List Nat :=
  s.nodeList.idxOf p.start :: p.relationships.map (s.relationshipList.idxOf ·)

theorem rank_push (s : Store) (p : Path) (r : Relationship) (n : Node) :
    s.rank (p.push r n) = s.rank p ++ [s.relationshipList.idxOf r] := by
  simp [rank, Path.push, Path.relationships]

theorem pairwise_idxOf {α : Type} [DecidableEq α] {l : List α} (h : l.Nodup) :
    l.Pairwise fun a b => l.idxOf a < l.idxOf b := by
  refine List.pairwise_iff_getElem.2 fun i j hi hj hij => ?_
  rwa [h.idxOf_getElem, h.idxOf_getElem]

theorem nodup_of_pairwise_rank {s : Store} {l : List Path}
    (h : l.Pairwise fun a b => s.rank a < s.rank b) : l.Nodup := by
  apply h.imp
  rintro a _ hlt rfl
  exact List.lt_irrefl _ hlt

/-- Paths in strictly ascending order are told by which ones they are. -/
theorem eq_of_pairwise_rank {s : Store} {l m : List Path}
    (hl : l.Pairwise fun a b => s.rank a < s.rank b)
    (hm : m.Pairwise fun a b => s.rank a < s.rank b) (h : ∀ p, p ∈ l ↔ p ∈ m) : l = m := by
  refine ((List.perm_ext_iff_of_nodup (nodup_of_pairwise_rank hl)
    (nodup_of_pairwise_rank hm)).2 h).eq_of_pairwise ?_ hl hm
  intro a b _ _ hab hba
  exact absurd hba (List.lt_asymm hab)

namespace Invariant

variable {s : Store} {n m : Node} {r : Relationship} {step : Step}

theorem nodup_nodeList (h : s.Invariant) : s.nodeList.Nodup :=
  List.Pairwise.of_map Node.key (fun _ _ hne e => hne (congrArg _ e)) h.nodes.indexed.nodup_keys

theorem nodup_relationshipList (h : s.Invariant) : s.relationshipList.Nodup :=
  List.Pairwise.of_map Relationship.id (fun _ _ hne e => hne (congrArg _ e))
    h.relationships.indexed.nodup_keys

theorem hopsAlong_spec (h : s.Invariant) (hn : n ∈ s.nodeList) (step : Step) : ∃ found,
    s.hopsAlong n.key step = .ok found ∧ (found.map Prod.snd).Sublist s.relationshipList ∧
      ∀ m r, (m, r) ∈ found ↔ r ∈ s.relationshipList ∧ m ∈ s.nodeList ∧ r.Serves step n m := by
  obtain ⟨found, hfound, hscan, hmem⟩ := h.neighbors_spec hn (some step.kind) step.direction
  refine ⟨found.filter fun (m, _) => step.label.all (m.label == ·), ?_, ?_, fun m r => ?_⟩
  · rw [hopsAlong, hfound]
    rfl
  · refine (List.filter_sublist.map Prod.snd).trans ?_
    rw [hscan]
    exact List.filter_sublist
  · rw [List.mem_filter, hmem, Relationship.isKind_some_iff]
    simp only [Option.all_eq_true, beq_iff_eq]
    constructor
    · rintro ⟨⟨hm, hr, hkind, hjoins⟩, hlabel⟩
      exact ⟨hr, hm, hkind, hjoins, hlabel⟩
    · rintro ⟨hr, hm, hkind, hjoins, hlabel⟩
      exact ⟨⟨hm, hr, hkind, hjoins⟩, hlabel⟩

theorem mem_hops_iff (h : s.Invariant) (hn : n ∈ s.nodeList) : (r, m) ∈ s.hops n step ↔
    r ∈ s.relationshipList ∧ m ∈ s.nodeList ∧ r.Serves step n m := by
  obtain ⟨found, hfound, -, hmem⟩ := h.hopsAlong_spec hn step
  rw [hops, hfound, ← hmem]
  simp

theorem pairwise_hops (h : s.Invariant) (hn : n ∈ s.nodeList) (step : Step) :
    (s.hops n step).Pairwise fun a b =>
      s.relationshipList.idxOf a.1 < s.relationshipList.idxOf b.1 := by
  obtain ⟨found, hfound, hsub, -⟩ := h.hopsAlong_spec hn step
  have hordered := (pairwise_idxOf h.nodup_relationshipList).sublist hsub
  rw [hops, hfound]
  exact (List.pairwise_map.1 hordered).map _ fun _ _ hlt => hlt

end Invariant

end Store

end PropertyGraph
