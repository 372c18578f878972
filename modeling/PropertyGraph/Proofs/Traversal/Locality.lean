import PropertyGraph.Proofs.Store.Remainder
import PropertyGraph.Proofs.Traversal.Agreement

/-! Queries after deletions. The paths that either engine finds in what is left of a store
are the paths of before whose parts are all left. They come in the old order, since what is
left stands in the scans as it stood before, and the same templates are admitted, since tags
stay known. So a deletion takes from the results those that use what is deleted. -/

namespace PropertyGraph

/-! ### Paths of what is left -/

/-- All parts of the path have a property. -/
def Path.within (p : Node → Bool) (q : Relationship → Bool) (x : Path) : Bool :=
  x.nodes.all p && x.relationships.all q

theorem Path.within_iff {p : Node → Bool} {q : Relationship → Bool} {x : Path} :
    x.within p q = true ↔
      p x.start = true ∧ ∀ hop ∈ x.hops, q hop.1 = true ∧ p hop.2 = true := by
  simp only [within, nodes, relationships, Bool.and_eq_true, List.all_eq_true,
    List.forall_mem_cons, List.forall_mem_map]
  constructor
  · rintro ⟨⟨hstart, hnodes⟩, hrelationships⟩
    exact ⟨hstart, fun hop hhop => ⟨hrelationships hop hhop, hnodes hop hhop⟩⟩
  · rintro ⟨hstart, hhops⟩
    exact ⟨⟨hstart, fun hop hhop => (hhops hop hhop).2⟩, fun hop hhop => (hhops hop hhop).1⟩

theorem Follows.hop_mem {s : Store} {n : Node} {steps : List Step}
    {hops : List (Relationship × Node)} (h : Follows s n steps hops) :
    ∀ hop ∈ hops, hop.1 ∈ s.relationshipList ∧ hop.2 ∈ s.nodeList := by
  induction h with
  | nil => nofun
  | cons hr hm _ _ ih => exact List.forall_mem_cons.2 ⟨⟨hr, hm⟩, ih⟩

theorem Plan.report_filter (p : Plan) (f : Path → Bool) (paths : List Path) :
    p.report (paths.filter f) = (p.report paths).filter fun m => f m.path := by
  simp only [report, List.filter_map, List.filter_filter, Function.comp_def, Bool.and_comm]
  rfl

namespace Store

/-- Positions in a part of a list are in the order of the positions in the list. -/
theorem idxOf_lt_of_sublist {α : Type} [DecidableEq α] {l m : List α} {a b : α}
    (hl : l.Nodup) (hm : m.Sublist l) (ha : a ∈ m) (hb : b ∈ m) (hlt : m.idxOf a < m.idxOf b) :
    l.idxOf a < l.idxOf b := by
  have hordered := List.pairwise_iff_getElem.1 ((pairwise_idxOf hl).sublist hm)
    _ _ (List.idxOf_lt_length_iff.2 ha) (List.idxOf_lt_length_iff.2 hb) hlt
  rwa [List.getElem_idxOf, List.getElem_idxOf] at hordered

theorem map_idxOf_lt_of_sublist {α : Type} [DecidableEq α] {l m : List α} (hl : l.Nodup)
    (hm : m.Sublist l) {as bs : List α} (has : ∀ a ∈ as, a ∈ m) (hbs : ∀ b ∈ bs, b ∈ m)
    (hlt : as.map (m.idxOf ·) < bs.map (m.idxOf ·)) :
    as.map (l.idxOf ·) < bs.map (l.idxOf ·) := by
  induction as generalizing bs with
  | nil =>
    cases bs with
    | nil => exact absurd hlt (List.lt_irrefl _)
    | cons b bs => exact List.nil_lt_cons _ _
  | cons a as ih =>
    cases bs with
    | nil => exact absurd hlt (List.not_lt_nil _)
    | cons b bs =>
      obtain ⟨ha, has⟩ := List.forall_mem_cons.1 has
      obtain ⟨hb, hbs⟩ := List.forall_mem_cons.1 hbs
      rw [List.map_cons, List.map_cons, List.cons_lt_cons_iff] at hlt ⊢
      rcases hlt with hlt | ⟨heq, hlt⟩
      · exact .inl (idxOf_lt_of_sublist hl hm ha hb hlt)
      · rw [List.idxOf_inj ha] at heq
        exact .inr ⟨congrArg l.idxOf heq, ih has hbs hlt⟩

namespace Leaves

variable {s t : Store} {p : Node → Bool} {q : Relationship → Bool} {n : Node} {x y : Path}
  {steps : List Step} {condition : Condition} {T : Template}

theorem follows_iff (h : s.Leaves t p q) {hops : List (Relationship × Node)} :
    Follows t n steps hops ↔
      Follows s n steps hops ∧ ∀ hop ∈ hops, q hop.1 = true ∧ p hop.2 = true := by
  constructor
  · intro hfollows
    induction hfollows with
    | nil n => exact ⟨.nil n, nofun⟩
    | cons hr hm hserves _ ih =>
      obtain ⟨hr, hq⟩ := h.mem_relationshipList_iff.1 hr
      obtain ⟨hm, hp⟩ := h.mem_nodeList_iff.1 hm
      exact ⟨.cons hr hm hserves ih.1, List.forall_mem_cons.2 ⟨⟨hq, hp⟩, ih.2⟩⟩
  · rintro ⟨hfollows, hleft⟩
    induction hfollows with
    | nil n => exact .nil n
    | cons hr hm hserves _ ih =>
      obtain ⟨⟨hq, hp⟩, hleft⟩ := List.forall_mem_cons.1 hleft
      exact .cons (h.mem_relationshipList_iff.2 ⟨hr, hq⟩) (h.mem_nodeList_iff.2 ⟨hm, hp⟩) hserves
        (ih hleft)

/-- Paths that are left are in the order in which they were. -/
theorem rank_lt (h : s.Leaves t p q) (hs : s.Invariant) (hx : x.start ∈ t.nodeList)
    (hxs : ∀ r ∈ x.relationships, r ∈ t.relationshipList) (hy : y.start ∈ t.nodeList)
    (hys : ∀ r ∈ y.relationships, r ∈ t.relationshipList) (hlt : t.rank x < t.rank y) :
    s.rank x < s.rank y := by
  have hnodes : t.nodeList.Sublist s.nodeList := h.nodeList ▸ List.filter_sublist
  have hrelationships : t.relationshipList.Sublist s.relationshipList :=
    h.relationshipList ▸ List.filter_sublist
  rw [rank, rank, List.cons_lt_cons_iff] at hlt ⊢
  rcases hlt with hlt | ⟨heq, hlt⟩
  · exact .inl (idxOf_lt_of_sublist hs.nodup_nodeList hnodes hx hy hlt)
  · rw [List.idxOf_inj hx] at heq
    exact .inr ⟨congrArg s.nodeList.idxOf heq,
      map_idxOf_lt_of_sublist hs.nodup_relationshipList hrelationships hxs hys hlt⟩

/-- Ordered lists of paths in the two stores, one with the paths of the other that are left. -/
theorem eq_filter_within (h : s.Leaves t p q) (hs : s.Invariant) {before after : List Path}
    (hbefore : before.Pairwise fun a b => s.rank a < s.rank b)
    (hafter : after.Pairwise fun a b => t.rank a < t.rank b)
    (hleft : ∀ x ∈ after, x.start ∈ t.nodeList ∧ ∀ r ∈ x.relationships, r ∈ t.relationshipList)
    (hmem : ∀ x, x ∈ after ↔ x ∈ before ∧ x.within p q = true) :
    after = before.filter (Path.within p q) := by
  refine eq_of_pairwise_rank (s := s) ?_ (hbefore.filter _) fun x => by
    rw [hmem, List.mem_filter]
  refine hafter.imp_of_mem fun {x y} hx hy hlt => ?_
  obtain ⟨hstart, hrelationships⟩ := hleft x hx
  obtain ⟨hstart', hrelationships'⟩ := hleft y hy
  exact h.rank_lt hs hstart hrelationships hstart' hrelationships' hlt

/-! ### The two engines -/

theorem isTrail_iff (h : s.Leaves t p q) (hn : n ∈ t.nodeList) :
    t.IsTrail n steps condition x ↔ s.IsTrail n steps condition x ∧ x.within p q = true := by
  rw [Path.within_iff]
  constructor
  · rintro ⟨rfl, hfollows, hholds⟩
    obtain ⟨hfollows, hleft⟩ := h.follows_iff.1 hfollows
    exact ⟨⟨rfl, hfollows, hholds⟩, (h.mem_nodeList_iff.1 hn).2, hleft⟩
  · rintro ⟨⟨rfl, hfollows, hholds⟩, -, hleft⟩
    exact ⟨rfl, h.follows_iff.2 ⟨hfollows, hleft⟩, hholds⟩

theorem traverse_eq (h : s.Leaves t p q) (hs : s.Invariant) (hn : n ∈ t.nodeList)
    (steps : List Step) (condition : Condition) (limit : Nat) :
    t.traverse n.key steps condition limit =
      (s.traverse n.key steps condition limit).map (List.filter (Path.within p q)) := by
  have ht := h.invariant
  have hn' := (h.mem_nodeList_iff.1 hn).1
  by_cases hlimit : steps.length ≤ limit
  · rw [hs.traverse_eq hn' hlimit, ht.traverse_eq hn hlimit]
    have hlast : (Path.mk n []).last ∈ t.nodeList := hn
    have hlast' : (Path.mk n []).last ∈ s.nodeList := hn'
    refine congrArg Except.ok (h.eq_filter_within hs ((hs.pairwise_trails hlast').filter _)
      ((ht.pairwise_trails hlast).filter _) (fun x hx => ?_) fun x => ?_)
    · obtain ⟨rfl, hfollows, -⟩ := (ht.mem_filter_trails_iff hn).1 hx
      exact ⟨hn, List.forall_mem_map.2 fun hop hhop => (hfollows.hop_mem hop hhop).1⟩
    · rw [ht.mem_filter_trails_iff hn, hs.mem_filter_trails_iff hn', h.isTrail_iff hn]
  · have hlt : limit < steps.length := Nat.lt_of_not_le hlimit
    rw [traverse, traverse, if_pos hlt, if_pos hlt]
    rfl

theorem knows_eq (h : s.Leaves t p q) (role : Role) : t.knows role = s.knows role := by
  cases role with
  | node label => exact h.hasLabel label
  | relationship kind => exact h.hasKind kind

theorem check_eq (h : s.Leaves t p q) (T : Template) (condition : Condition) :
    T.check t condition = T.check s condition := by
  have hdeclare : Roles.declareUse t = Roles.declareUse s := by
    funext roles use
    rw [Roles.declareUse, Roles.declareUse, h.knows_eq]
  rw [Template.check, Template.check, Template.roles_eq, Template.roles_eq, hdeclare]

theorem fits_iff (h : s.Leaves t p q) :
    T.Fits t x ↔ T.Fits s x ∧ x.within p q = true := by
  rw [Path.within_iff]
  constructor
  · rintro ⟨hstart, hlabel, hwalks, hconsistent⟩
    obtain ⟨hstart, hp⟩ := h.mem_nodeList_iff.1 hstart
    obtain ⟨hfollows, hleft⟩ := h.follows_iff.1 (Template.walks_iff_follows.1 hwalks)
    exact ⟨⟨hstart, hlabel, Template.walks_iff_follows.2 hfollows, hconsistent⟩, hp, hleft⟩
  · rintro ⟨⟨hstart, hlabel, hwalks, hconsistent⟩, hp, hleft⟩
    exact ⟨h.mem_nodeList_iff.2 ⟨hstart, hp⟩, hlabel, Template.walks_iff_follows.2
      (h.follows_iff.2 ⟨Template.walks_iff_follows.1 hwalks, hleft⟩), hconsistent⟩

theorem findMatches_eq (h : s.Leaves t p q) (hs : s.Invariant) (T : Template)
    (condition : Condition) : t.findMatches T condition =
      (s.findMatches T condition).map (List.filter fun m => m.path.within p q) := by
  have ht := h.invariant
  have hcheck := h.check_eq T condition
  cases hs' : T.check s condition with
  | error e =>
    rw [findMatches, findMatches, hcheck, hs']
    rfl
  | ok _ =>
    rw [hs.findMatches_eq hs', ht.findMatches_eq (hcheck.trans hs')]
    have hpaths : t.paths (.make T condition) =
        (s.paths (.make T condition)).filter (Path.within p q) := by
      refine h.eq_filter_within hs (hs.pairwise_paths _) (ht.pairwise_paths _) (fun x hx => ?_)
        fun x => ?_
      · have hfits := ht.mem_paths_iff.1 hx
        exact ⟨hfits.start_mem, hfits.mem.2⟩
      · rw [ht.mem_paths_iff, hs.mem_paths_iff, h.fits_iff]
    rw [hpaths, Plan.report_filter]
    rfl

end Leaves

end Store

/-! ### Results that use what is deleted -/

namespace Path

/-- The path takes the relationship with the id. -/
def Uses (x : Path) (id : Nat) : Prop := ∃ r ∈ x.relationships, r.id = id

/-- The path comes by the node with the key. -/
def Visits (x : Path) (key : NodeKey) : Prop := ∃ n ∈ x.nodes, n.key = key

instance (id : Nat) : DecidablePred (Uses · id) := fun x =>
  inferInstanceAs (Decidable (∃ r ∈ x.relationships, r.id = id))

instance (key : NodeKey) : DecidablePred (Visits · key) := fun x =>
  inferInstanceAs (Decidable (∃ n ∈ x.nodes, n.key = key))

theorem within_id_iff {x : Path} {id : Nat} :
    x.within (fun _ => true) (fun r => decide (r.id ≠ id)) = true ↔ ¬ x.Uses id := by
  simp [within, Uses]

end Path

theorem Relationship.touches_both_iff {r : Relationship} {d : Direction} {a b key : NodeKey}
    (h : r.Joins d a b) : r.Touches .both key ↔ a = key ∨ b = key := by
  unfold Touches
  cases d with
  | outgoing =>
    obtain ⟨rfl, rfl⟩ := h
    exact Iff.rfl
  | incoming =>
    obtain ⟨rfl, rfl⟩ := h
    exact or_comm
  | both =>
    rcases h with ⟨rfl, rfl⟩ | ⟨rfl, rfl⟩
    · exact Iff.rfl
    · exact or_comm

/-- A relationship is taken between its ends, so a path that takes one at a node visits the
node. -/
theorem Follows.visits {s : Store} {n : Node} {steps : List Step}
    {hops : List (Relationship × Node)} (h : Follows s n steps hops) {key : NodeKey} :
    ∀ hop ∈ hops, hop.1.Touches .both key → n.key = key ∨ ∃ hop ∈ hops, hop.2.key = key := by
  induction h with
  | nil => nofun
  | cons _ _ hserves _ ih =>
    refine List.forall_mem_cons.2 ⟨fun htouches => ?_, fun hop hhop htouches => ?_⟩
    · rcases (Relationship.touches_both_iff hserves.joins).1 htouches with hk | hk
      · exact .inl hk
      · exact .inr ⟨_, List.mem_cons_self, hk⟩
    · rcases ih hop hhop htouches with hk | ⟨hop', hhop', hk⟩
      · exact .inr ⟨_, List.mem_cons_self, hk⟩
      · exact .inr ⟨hop', List.mem_cons_of_mem _ hhop', hk⟩

theorem Follows.within_key_iff {s : Store} {x : Path} {steps : List Step}
    (h : Follows s x.start steps x.hops) {key : NodeKey} :
    x.within (fun m => decide (m.key ≠ key)) (fun r => decide (¬ r.Touches .both key)) = true ↔
      ¬ x.Visits key := by
  rw [Path.within_iff]
  simp only [decide_eq_true_iff, Path.Visits, Path.nodes, List.mem_cons, List.mem_map]
  constructor
  · rintro ⟨hstart, hhops⟩ ⟨m, rfl | ⟨hop, hhop, rfl⟩, hk⟩
    · exact hstart hk
    · exact (hhops hop hhop).2 hk
  · intro hvisits
    have hstart : x.start.key ≠ key := fun hk => hvisits ⟨_, .inl rfl, hk⟩
    have hhops : ∀ hop ∈ x.hops, hop.2.key ≠ key := fun hop hhop hk =>
      hvisits ⟨_, .inr ⟨hop, hhop, rfl⟩, hk⟩
    refine ⟨hstart, fun hop hhop => ⟨fun htouches => ?_, hhops hop hhop⟩⟩
    rcases h.visits hop hhop htouches with hk | ⟨hop', hhop', hk⟩
    · exact hstart hk
    · exact hhops hop' hhop' hk

namespace Store

variable {s t : Store}

/-- Both queries answer in `t` what they answer in `s`, without the results whose path is
lost and in the same order, a traversal from every start that stays. What goes through in
`s` are the templates that are admitted and the traversals within the limit. -/
structure LosesResults (s t : Store) (stays : Node → Prop) (lost : Path → Prop)
    [DecidablePred lost] : Prop where
  findMatches : ∀ T condition, t.findMatches T condition =
    (s.findMatches T condition).map (List.filter fun m => decide (¬ lost m.path))
  findMatches_ok : ∀ T condition, T.check s condition = .ok () →
    ∃ found, s.findMatches T condition = .ok found
  traverse : ∀ n ∈ s.nodeList, stays n → ∀ steps condition limit,
    t.traverse n.key steps condition limit =
      (s.traverse n.key steps condition limit).map (List.filter fun x => decide (¬ lost x))
  traverse_ok : ∀ n ∈ s.nodeList, ∀ steps condition limit, steps.length ≤ limit →
    ∃ found, s.traverse n.key steps condition limit = .ok found

namespace Invariant

theorem follows_of_mem_traverse (h : s.Invariant) {n : Node} (hn : n ∈ s.nodeList)
    {steps : List Step} {condition : Condition} {limit : Nat} {found : List Path}
    (hfound : s.traverse n.key steps condition limit = .ok found) :
    ∀ x ∈ found, Follows s x.start steps x.hops := by
  intro x hx
  by_cases hlimit : steps.length ≤ limit
  · cases hfound.symm.trans (h.traverse_eq hn hlimit)
    obtain ⟨rfl, hfollows, -⟩ := (h.mem_filter_trails_iff hn).1 hx
    exact hfollows
  · rw [Store.traverse, if_pos (Nat.lt_of_not_le hlimit)] at hfound
    cases hfound

end Invariant

theorem Leaves.losesResults {p : Node → Bool} {q : Relationship → Bool} (h : s.Leaves t p q)
    (hs : s.Invariant) {stays : Node → Prop} {lost : Path → Prop} [DecidablePred lost]
    (hstays : ∀ n, stays n → p n = true) (hlost : ∀ x steps, Follows s x.start steps x.hops →
      (x.within p q = true ↔ ¬ lost x)) : s.LosesResults t stays lost where
  findMatches T condition := by
    rw [h.findMatches_eq hs]
    refine map_congr_ok fun found hfound => List.filter_congr fun m hm => ?_
    have hwalks := ((hs.mem_found_iff hfound).1 hm).fits.walks
    rw [Bool.eq_iff_iff, decide_eq_true_iff, hlost _ _ (Template.walks_iff_follows.1 hwalks)]
  findMatches_ok T condition hcheck := ⟨_, hs.findMatches_eq hcheck⟩
  traverse n hn hn' steps condition limit := by
    rw [h.traverse_eq hs (h.mem_nodeList_iff.2 ⟨hn, hstays n hn'⟩)]
    refine map_congr_ok fun found hfound => List.filter_congr fun x hx => ?_
    have hfollows := hs.follows_of_mem_traverse hn hfound x hx
    rw [Bool.eq_iff_iff, decide_eq_true_iff, hlost _ _ hfollows]
  traverse_ok n hn steps condition limit hlimit := ⟨_, hs.traverse_eq hn hlimit⟩

/-- Deletions are local. A relationship takes with it the results that use it, and a node
those that visit it; all others stay and keep their order. -/
theorem losesResults_of_deletion (h : s.Reachable) :
    (∀ r ∈ s.relationshipList, ∃ t, s.deleteRelationship r.id = .ok (r, t) ∧
      s.LosesResults t (fun _ => True) (·.Uses r.id)) ∧
    ∀ n ∈ s.nodeList, ∃ t, s.deleteNode n.key = .ok (n, t) ∧
      s.LosesResults t (·.key ≠ n.key) (·.Visits n.key) := by
  have hs := h.invariant
  constructor
  · intro r hr
    obtain ⟨t, ht, hleaves⟩ := hs.deleteRelationship_leaves hr
    exact ⟨t, ht, hleaves.losesResults hs (fun _ _ => rfl) fun _ _ _ => Path.within_id_iff⟩
  · intro n hn
    obtain ⟨t, ht, hleaves⟩ := hs.deleteNode_leaves hn
    exact ⟨t, ht, hleaves.losesResults hs (fun _ => decide_eq_true)
      fun _ _ hfollows => hfollows.within_key_iff⟩

theorem losesResults_acquaintances :
    (∃ r t, acquaintances.deleteRelationship 3 = .ok (r, t) ∧
      acquaintances.LosesResults t (fun _ => True) (·.Uses 3)) ∧
    ∃ n t, acquaintances.deleteNode ⟨"Person", 1⟩ = .ok (n, t) ∧
      acquaintances.LosesResults t (·.key ≠ ⟨"Person", 1⟩) (·.Visits ⟨"Person", 1⟩) := by
  obtain ⟨hrelationship, hnode⟩ := losesResults_of_deletion reachable_acquaintances
  exact ⟨⟨_, hrelationship ⟨3, "KNOWS", ⟨"Person", 1⟩, ⟨"Person", 2⟩, ∅⟩ (by decide)⟩,
    ⟨_, hnode ⟨⟨"Person", 1⟩, ∅⟩ (by decide)⟩⟩

end Store

end PropertyGraph
