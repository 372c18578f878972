import PropertyGraph.Proofs.Pattern.Fit
import PropertyGraph.Proofs.Store.Hops

/-! The paths of a template, by recursion along its segments. A candidate is taken if it
agrees with what is chosen before it, and the hops from it are candidates for the next
segment. The paths found in this way are those that fit, and because the hops of a
segment come in the order of their relationships the paths come in lexicographic order. -/

namespace PropertyGraph

/-! ### Hops -/

/-- The step that a segment asks for. -/
def Template.stepOf : RelationshipSlot × NodeSlot → Step
  | (rs, ns) => ⟨rs.kind, rs.direction, some ns.label⟩

namespace Store

/-- The hops that a segment allows from a node; none if the node is not there. -/
def hopsFrom (s : Store) (n : Node) (segment : RelationshipSlot × NodeSlot) :
    List (Relationship × Node) :=
  match s.hopsAlong n.key ⟨segment.1.kind, segment.1.direction, some segment.2.label⟩ with
  | .ok hops => hops.map fun (m, r) => (r, m)
  | .error _ => []

theorem hopsFrom_eq (s : Store) (n : Node) (segment : RelationshipSlot × NodeSlot) :
    s.hopsFrom n segment = s.hops n (Template.stepOf segment) := rfl

namespace Invariant

variable {s : Store} {n m : Node} {r : Relationship} {segment : RelationshipSlot × NodeSlot}

theorem mem_hopsFrom_iff (h : s.Invariant) (hn : n ∈ s.nodeList) :
    (r, m) ∈ s.hopsFrom n segment ↔ r ∈ s.relationshipList ∧ r.kind = segment.1.kind ∧
      m ∈ s.nodeList ∧ m.label = segment.2.label ∧ r.Joins segment.1.direction n.key m.key := by
  rw [hopsFrom_eq, h.mem_hops_iff hn]
  constructor
  · rintro ⟨hr, hm, hkind, hjoins, hlabel⟩
    exact ⟨hr, hkind, hm, hlabel _ rfl, hjoins⟩
  · rintro ⟨hr, hkind, hm, hlabel, hjoins⟩
    refine ⟨hr, hm, hkind, hjoins, fun l hl => ?_⟩
    cases hl
    exact hlabel

theorem pairwise_hopsFrom (h : s.Invariant) (hn : n ∈ s.nodeList)
    (segment : RelationshipSlot × NodeSlot) : (s.hopsFrom n segment).Pairwise fun a b =>
      s.relationshipList.idxOf a.1 < s.relationshipList.idxOf b.1 :=
  h.pairwise_hops hn (Template.stepOf segment)

theorem frameFrom_eq (h : s.Invariant) (hn : n ∈ s.nodeList)
    (segment : RelationshipSlot × NodeSlot) : Search.frameFrom s n segment =
      .ok ⟨(s.hopsFrom n segment).map fun (r, m) => (some r, m), 0⟩ := by
  obtain ⟨found, hfound, -, -⟩ := h.hopsAlong_spec hn (Template.stepOf segment)
  simp only [Template.stepOf] at hfound
  rw [Search.frameFrom, hopsFrom, hfound, List.map_map]
  rfl

end Invariant

end Store

/-! ### Choices -/

/-- What is chosen at the levels before some level: nothing at the lowest one, a path at
every other. -/
abbrev Choices := Option Path

abbrev Candidate := Option Relationship × Node

namespace Choices

variable {chosen : Choices} {c : Candidate}

def nodes : Choices → List Node
  | none => []
  | some p => p.nodes

def relationships : Choices → List Relationship
  | none => []
  | some p => p.relationships

/-- The lowest level offers nodes, every other one nodes with relationships to them. -/
def Suits (chosen : Choices) (c : Candidate) : Prop := c.1.isSome = chosen.isSome

theorem suits_start (n : Node) : Suits none (none, n) := rfl

theorem suits_hop (p : Path) (r : Relationship) (n : Node) : Suits (some p) (some r, n) := rfl

/-- The path after a candidate is chosen. -/
def add : Choices → Candidate → Path
  | some p, (some r, n) => p.push r n
  | _, (_, n) => ⟨n, []⟩

theorem nodes_add (h : chosen.Suits c) : (chosen.add c).nodes = chosen.nodes ++ [c.2] := by
  obtain ⟨_ | r, n⟩ := c <;> rcases chosen with _ | p <;>
    simp_all [Suits, add, nodes, Path.nodes, Path.push]

theorem relationships_add (h : chosen.Suits c) :
    (chosen.add c).relationships = chosen.relationships ++ c.1.toList := by
  obtain ⟨_ | r, n⟩ := c <;> rcases chosen with _ | p <;>
    simp_all [Suits, add, relationships, Path.relationships, Path.push]

end Choices

/-! ### Agreement with the choices before -/

namespace Plan

variable {t : Template} {condition : Condition} {chosen : Choices} {c : Candidate}

/-- The test of a candidate on its level. -/
def admits (p : Plan) (chosen : Choices) (c : Candidate) : Bool :=
  p.agrees chosen.nodes.toArray chosen.relationships.toArray chosen.nodes.length c.1 c.2

theorem passes_iff {α κ : Type} [BEq κ] [LawfulBEq κ] {earlier : Option Nat} {l : List α}
    (h : ∀ i, earlier = some i → i < l.length) (f : α → κ) (k : κ) :
    passes earlier l.toArray (fun a => f a == k) = true ↔
      ∀ i, earlier = some i → (l.map f)[i]? = some k := by
  cases earlier with
  | none => simp [passes]
  | some i =>
    have hi := h i rfl
    simp [passes, hi]

/-- The next entity passes the test of its level exactly if places of one name still hold
the same when it is added. -/
theorem passes_alias_iff {α κ : Type} [BEq κ] [LawfulBEq κ] {names : List (Option String)}
    {l : List α} {f : α → κ} (h : SameNamed names (l.map f)) (a : α) :
    passes ((aliases names)[l.length]?).join l.toArray (fun b => f b == f a) = true ↔
      SameNamed names ((l ++ [a]).map f) := by
  have hlt : ∀ i, ((aliases names)[l.length]?).join = some i → i < l.length := by
    intro i hi
    exact (lt_of_alias hi).1
  rw [passes_iff hlt, List.map_append, List.map_singleton, sameNamed_concat_iff, List.length_map,
    and_iff_right h]

/-- A candidate is admitted exactly if names stay consistent when it is added. -/
theorem admits_iff (hc : chosen.Suits c) (h : t.Consistent chosen.nodes chosen.relationships) :
    (make t condition).admits chosen c = true ↔
      t.Consistent (chosen.add c).nodes (chosen.add c).relationships := by
  have hnodes : passes ((aliases t.nodeNames)[chosen.nodes.length]?).join chosen.nodes.toArray
      (fun m => m.key == c.2.key) = true ↔
        SameNamed t.nodeNames ((chosen.add c).nodes.map (·.key)) := by
    rw [Choices.nodes_add hc, passes_alias_iff h.nodes]
  obtain ⟨r, n⟩ := c
  cases r with
  | none =>
    have hsame : (chosen.add (none, n)).relationships = chosen.relationships := by
      rw [Choices.relationships_add hc, Option.toList_none, List.append_nil]
    have hadmits : (make t condition).admits chosen (none, n) =
        (passes ((aliases t.nodeNames)[chosen.nodes.length]?).join chosen.nodes.toArray
          (fun m => m.key == n.key) && true) := rfl
    rw [hadmits, Bool.and_true, hnodes]
    constructor
    · intro hn
      exact ⟨hn, hsame ▸ h.relationships⟩
    · intro hadd
      exact hadd.nodes
  | some r =>
    obtain ⟨p, rfl⟩ : ∃ p, chosen = some p := Option.isSome_iff_exists.1 hc.symm
    have hdepth : (Choices.nodes (some p)).length = p.relationships.length + 1 := by
      simp [Choices.nodes, Path.nodes, Path.relationships]
    have hrelationships : passes ((aliases t.relationshipNames)[p.relationships.length]?).join
        p.relationships.toArray (fun x => x.id == r.id) = true ↔
          SameNamed t.relationshipNames
            ((Choices.add (some p) (some r, n)).relationships.map (·.id)) := by
      rw [Choices.relationships_add hc, Option.toList_some]
      exact passes_alias_iff h.relationships r
    have hadmits : (make t condition).admits (some p) (some r, n) =
        (passes ((aliases t.nodeNames)[(Choices.nodes (some p)).length]?).join
            (Choices.nodes (some p)).toArray (fun m => m.key == n.key) &&
          passes ((aliases t.relationshipNames)[p.relationships.length]?).join
            p.relationships.toArray (fun x => x.id == r.id)) := by
      rw [admits, hdepth]
      rfl
    rw [hadmits, Bool.and_eq_true, hnodes, hrelationships]
    constructor
    · rintro ⟨hn, hr⟩
      exact ⟨hn, hr⟩
    · intro hadd
      exact ⟨hadd.nodes, hadd.relationships⟩

end Plan

/-! ### Paths -/

namespace Path

variable {p : Path} {hops : List (Relationship × Node)}

theorem consistent_of_followed {t : Template}
    (h : t.Consistent (p.followed hops).nodes (p.followed hops).relationships) :
    t.Consistent p.nodes p.relationships := by
  have hnodes : (p.followed hops).nodes = p.nodes ++ hops.map Prod.snd := by
    simp [followed, nodes]
  have hrelationships :
      (p.followed hops).relationships = p.relationships ++ hops.map Prod.fst := by
    simp [followed, relationships]
  rw [hnodes, hrelationships] at h
  exact ⟨sameNamed_of_append (List.map_append ▸ h.nodes),
    sameNamed_of_append (List.map_append ▸ h.relationships)⟩

end Path

theorem walks_nil_iff {s : Store} {m : Node} {hops : List (Relationship × Node)} :
    Walks s m [] hops ↔ hops = [] := by
  constructor
  · rintro ⟨⟩
    rfl
  · rintro rfl
    exact .nil m

theorem walks_cons_iff {s : Store} (h : s.Invariant) {m : Node} (hm : m ∈ s.nodeList)
    {segment : RelationshipSlot × NodeSlot} {segments : List (RelationshipSlot × NodeSlot)}
    {hops : List (Relationship × Node)} : Walks s m (segment :: segments) hops ↔
      ∃ r n rest, hops = (r, n) :: rest ∧ (r, n) ∈ s.hopsFrom m segment ∧
        Walks s n segments rest := by
  simp only [h.mem_hopsFrom_iff hm]
  constructor
  · intro hwalks
    cases hwalks with
    | cons hr hkind hn hlabel hjoins hrest =>
      exact ⟨_, _, _, rfl, ⟨hr, hkind, hn, hlabel, hjoins⟩, hrest⟩
  · rintro ⟨r, n, rest, rfl, ⟨hr, hkind, hn, hlabel, hjoins⟩, hrest⟩
    exact .cons hr hkind hn hlabel hjoins hrest

/-! ### Exploring -/

/-- The paths that begin with the choices and a candidate and go on along the segments. -/
def explore (s : Store) (p : Plan) :
    List (RelationshipSlot × NodeSlot) → Choices → Candidate → List Path
  | [], chosen, c => if p.admits chosen c then [chosen.add c] else []
  | segment :: rest, chosen, c =>
    if p.admits chosen c then
      (s.hopsFrom c.2 segment).flatMap fun (r, n) =>
        explore s p rest (some (chosen.add c)) (some r, n)
    else []

section Exploring

variable {s : Store} {t : Template} {condition : Condition}
  {segments : List (RelationshipSlot × NodeSlot)} {chosen : Choices} {c : Candidate} {q : Path}

theorem explore_refused {p : Plan} (h : ¬ p.admits chosen c = true) :
    explore s p segments chosen c = [] := by
  cases segments <;> rw [explore, if_neg h]

theorem explore_last {p : Plan} (h : p.admits chosen c = true) :
    explore s p [] chosen c = [chosen.add c] := by
  rw [explore, if_pos h]

theorem explore_cons {p : Plan} (h : p.admits chosen c = true)
    {segment : RelationshipSlot × NodeSlot} : explore s p (segment :: segments) chosen c =
      (s.hopsFrom c.2 segment).flatMap fun (r, n) =>
        explore s p segments (some (chosen.add c)) (some r, n) := by
  rw [explore, if_pos h]

/-- Exploring finds the ways to go on that follow the segments and keep names consistent. -/
theorem mem_explore_iff (h : s.Invariant) (hc : chosen.Suits c) (hmem : c.2 ∈ s.nodeList)
    (hcons : t.Consistent chosen.nodes chosen.relationships) :
    q ∈ explore s (.make t condition) segments chosen c ↔
      ∃ hops, q = (chosen.add c).followed hops ∧ Walks s c.2 segments hops ∧
        t.Consistent q.nodes q.relationships := by
  induction segments generalizing chosen c with
  | nil =>
    simp only [explore, walks_nil_iff]
    split
    · next hadm =>
      have hadd := (Plan.admits_iff hc hcons).1 hadm
      rw [List.mem_singleton]
      constructor
      · rintro rfl
        exact ⟨[], by simp, rfl, hadd⟩
      · rintro ⟨hops, rfl, rfl, -⟩
        simp
    · next hadm =>
      refine iff_of_false (List.not_mem_nil) ?_
      rintro ⟨hops, rfl, rfl, hq⟩
      exact hadm ((Plan.admits_iff hc hcons).2 (Path.consistent_of_followed hq))
  | cons segment rest ih =>
    simp only [explore, walks_cons_iff h hmem]
    split
    · next hadm =>
      have hadd := (Plan.admits_iff hc hcons).1 hadm
      rw [List.mem_flatMap]
      constructor
      · rintro ⟨⟨r, n⟩, hhop, hq⟩
        have hn : n ∈ s.nodeList := ((h.mem_hopsFrom_iff hmem).1 hhop).2.2.1
        obtain ⟨hops, rfl, hwalks, hq⟩ := (ih (Choices.suits_hop _ r n) hn hadd).1 hq
        exact ⟨(r, n) :: hops, (Path.followed_cons ..).symm, ⟨r, n, hops, rfl, hhop, hwalks⟩, hq⟩
      · rintro ⟨_, rfl, ⟨r, n, hops, rfl, hhop, hwalks⟩, hq⟩
        have hn : n ∈ s.nodeList := ((h.mem_hopsFrom_iff hmem).1 hhop).2.2.1
        refine ⟨(r, n), hhop, (ih (Choices.suits_hop _ r n) hn hadd).2 ?_⟩
        exact ⟨hops, Path.followed_cons .., hwalks, hq⟩
    · next hadm =>
      refine iff_of_false (List.not_mem_nil) ?_
      rintro ⟨hops, rfl, -, hq⟩
      exact hadm ((Plan.admits_iff hc hcons).2 (Path.consistent_of_followed hq))

/-- What is found begins with the choices and the candidate, and so does its rank. -/
theorem rank_of_mem_explore {p : Plan} (hq : q ∈ explore s p segments chosen c) :
    ∃ rest, s.rank q = s.rank (chosen.add c) ++ rest := by
  induction segments generalizing chosen c with
  | nil =>
    simp only [explore] at hq
    split at hq
    · rw [List.mem_singleton] at hq
      exact ⟨[], by rw [hq, List.append_nil]⟩
    · cases hq
  | cons segment segments ih =>
    simp only [explore] at hq
    split at hq
    · obtain ⟨⟨r, n⟩, -, hq⟩ := List.mem_flatMap.1 hq
      obtain ⟨rest, hrest⟩ := ih hq
      refine ⟨s.relationshipList.idxOf r :: rest, ?_⟩
      calc s.rank q = s.rank ((chosen.add c).push r n) ++ rest := hrest
        _ = _ := by rw [Store.rank_push, List.append_assoc, List.singleton_append]
    · cases hq

/-- Exploring finds paths in the order of their ranks. -/
theorem pairwise_explore (h : s.Invariant) {p : Plan} (hmem : c.2 ∈ s.nodeList) :
    (explore s p segments chosen c).Pairwise fun a b => s.rank a < s.rank b := by
  induction segments generalizing chosen c with
  | nil =>
    simp only [explore]
    split
    · exact List.pairwise_singleton _ _
    · exact .nil
  | cons segment segments ih =>
    simp only [explore]
    split
    · refine List.pairwise_flatMap.2 ⟨fun (r, n) hhop => ?_, ?_⟩
      · exact ih ((h.mem_hopsFrom_iff hmem).1 hhop).2.2.1
      · refine (h.pairwise_hopsFrom hmem segment).imp fun hlt a ha b hb => ?_
        obtain ⟨as, ha⟩ := rank_of_mem_explore ha
        obtain ⟨bs, hb⟩ := rank_of_mem_explore hb
        rw [ha, hb]
        simp only [Choices.add, Store.rank_push, List.append_assoc]
        exact List.append_left_lt (List.cons_lt_cons_iff.2 (.inl hlt))
    · exact .nil

end Exploring

/-- The paths of a plan, from every node of the first label. -/
def Store.paths (s : Store) (p : Plan) : List Path :=
  (s.nodesLabeled p.template.start.label).flatMap fun n =>
    explore s p p.template.segments none (none, n)

namespace Store.Invariant

variable {s : Store}

theorem mem_nodesLabeled_iff (h : s.Invariant) {n : Node} {label : String} :
    n ∈ s.nodesLabeled label ↔ n ∈ s.nodeList ∧ n.label = label := by
  rw [h.nodesLabeled_eq_filter, List.mem_filter, decide_eq_true_iff]

theorem mem_paths_iff (h : s.Invariant) {t : Template} {condition : Condition} {q : Path} :
    q ∈ s.paths (.make t condition) ↔ t.Fits s q := by
  have hnone : t.Consistent (Choices.nodes none) (Choices.relationships none) :=
    ⟨fun _ _ _ _ _ _ _ ha => (nomatch ha), fun _ _ _ _ _ _ _ ha => (nomatch ha)⟩
  rw [paths, List.mem_flatMap]
  constructor
  · rintro ⟨n, hn, hq⟩
    obtain ⟨hmem, hlabel⟩ := h.mem_nodesLabeled_iff.1 hn
    obtain ⟨hops, rfl, hwalks, hcons⟩ := (mem_explore_iff h (Choices.suits_start _) hmem hnone).1 hq
    exact ⟨hmem, hlabel, hwalks, hcons⟩
  · rintro ⟨hmem, hlabel, hwalks, hcons⟩
    exact ⟨q.start, h.mem_nodesLabeled_iff.2 ⟨hmem, hlabel⟩,
      (mem_explore_iff h (Choices.suits_start _) hmem hnone).2 ⟨q.hops, rfl, hwalks, hcons⟩⟩

theorem pairwise_paths (h : s.Invariant) (p : Plan) :
    (s.paths p).Pairwise fun a b => s.rank a < s.rank b := by
  refine List.pairwise_flatMap.2 ⟨fun n hn => ?_, ?_⟩
  · exact pairwise_explore h (h.mem_nodesLabeled_iff.1 hn).1
  · rw [h.nodesLabeled_eq_filter]
    refine ((pairwise_idxOf h.nodup_nodeList).filter _).imp fun hlt a ha b hb => ?_
    obtain ⟨as, ha⟩ := rank_of_mem_explore ha
    obtain ⟨bs, hb⟩ := rank_of_mem_explore hb
    rw [ha, hb]
    exact List.cons_lt_cons_iff.2 (.inl hlt)

end Store.Invariant

end PropertyGraph
