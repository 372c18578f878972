import PropertyGraph.Proofs.Pattern.Binding
import PropertyGraph.Proofs.Pattern.Search

/-! What matching answers. For an admitted template it finds exactly the matches, each
once, in the order in which their parts were inserted. -/

namespace PropertyGraph

/-- A path that fits, with its variables bound, of which the condition holds. -/
structure Store.IsMatch (s : Store) (t : Template) (condition : Condition) (m : Match) : Prop where
  fits : t.Fits s m.path
  binds : t.Binds m
  holds : condition.eval m.environment = true

namespace Store

variable {s : Store} {t : Template} {condition : Condition} {m : Match}

theorem Invariant.findMatches_eq (h : s.Invariant) (hcheck : t.check s condition = .ok ()) :
    s.findMatches t condition =
      .ok ((Plan.make t condition).report (s.paths (.make t condition))) := by
  obtain ⟨found, hrun, hfound⟩ := (Search.open_start h t condition).run_eq h
  rw [findMatches, hcheck, hrun, ← List.nil_append (Plan.report _ _)]
  exact congrArg Except.ok hfound

/-! ### Acceptance -/

/-- Matching the template gives an answer, be it empty. -/
def Accepts (s : Store) (t : Template) (condition : Condition) : Prop :=
  ∃ found, s.findMatches t condition = .ok found

theorem findMatches_of_not_admissible (h : ¬ t.Admissible s condition) :
    ∃ fault, s.findMatches t condition = .error (.pattern fault) := by
  cases hcheck : t.check s condition with
  | ok _ => exact absurd (Template.check_eq_ok_iff.1 hcheck) h
  | error fault =>
    refine ⟨fault, ?_⟩
    rw [findMatches, hcheck]
    rfl

theorem Invariant.accepts_iff (h : s.Invariant) :
    s.Accepts t condition ↔ t.Admissible s condition := by
  constructor
  · rintro ⟨found, hfound⟩
    by_contra hno
    obtain ⟨fault, hfault⟩ := findMatches_of_not_admissible hno
    cases hfound.symm.trans hfault
  · intro hadmissible
    exact ⟨_, h.findMatches_eq (Template.check_eq_ok_iff.2 hadmissible)⟩

/-! ### What is found -/

theorem Invariant.mem_report_iff (h : s.Invariant) (hcheck : t.check s condition = .ok ()) :
    m ∈ (Plan.make t condition).report (s.paths (.make t condition)) ↔
      s.IsMatch t condition m := by
  rw [Plan.report, List.mem_filter, List.mem_map]
  constructor
  · rintro ⟨⟨q, hq, rfl⟩, hholds⟩
    have hfits := h.mem_paths_iff.1 hq
    exact ⟨hfits, Template.binds_matchOf h hcheck hfits, hholds⟩
  · rintro ⟨hfits, hbinds, hholds⟩
    exact ⟨⟨m.path, h.mem_paths_iff.2 hfits, (Template.eq_matchOf h hcheck hfits hbinds).symm⟩,
      hholds⟩

theorem Invariant.mem_found_iff (h : s.Invariant) {found : List Match}
    (hfound : s.findMatches t condition = .ok found) : m ∈ found ↔ s.IsMatch t condition m := by
  have hcheck := Template.check_eq_ok_iff.2 (h.accepts_iff.1 ⟨found, hfound⟩)
  cases hfound.symm.trans (h.findMatches_eq hcheck)
  exact h.mem_report_iff hcheck

theorem Invariant.pairwise_report (h : s.Invariant) (p : Plan) :
    (p.report (s.paths p)).Pairwise fun a b => s.rank a.path < s.rank b.path :=
  List.Pairwise.filter _ (List.pairwise_map.2 (h.pairwise_paths p))

theorem Invariant.nodup_found (h : s.Invariant) {found : List Match}
    (hfound : s.findMatches t condition = .ok found) : (found.map (·.path)).Nodup := by
  have hcheck := Template.check_eq_ok_iff.2 (h.accepts_iff.1 ⟨found, hfound⟩)
  cases hfound.symm.trans (h.findMatches_eq hcheck)
  exact nodup_of_pairwise_rank (List.pairwise_map.2 (h.pairwise_report (.make t condition)))

/-- Matching finds all matches and nothing else, in strictly ascending order of rank and
so without repetition. -/
theorem findMatches_spec (h : s.Reachable) (hcheck : t.check s condition = .ok ()) :
    ∃ found, s.findMatches t condition = .ok found ∧
      (∀ m, m ∈ found ↔ s.IsMatch t condition m) ∧ (found.map (·.path)).Nodup ∧
      found.Pairwise fun a b => s.rank a.path < s.rank b.path := by
  have hs := h.invariant
  have hordered := hs.pairwise_report (.make t condition)
  refine ⟨_, hs.findMatches_eq hcheck, fun m => hs.mem_report_iff hcheck, ?_, hordered⟩
  rw [List.Nodup, List.pairwise_map]
  apply hordered.imp
  intro a b hlt heq
  rw [heq] at hlt
  exact List.lt_irrefl _ hlt

/-- People who know themselves. -/
def selfKnowing : Template :=
  ⟨⟨some "a", "Person"⟩, [(⟨some "r", "KNOWS", .outgoing⟩, ⟨some "a", "Person"⟩)]⟩

theorem check_selfKnowing : selfKnowing.check acquaintances .always = .ok () := rfl

theorem findMatches_selfKnowing : ∃ found,
    acquaintances.findMatches selfKnowing .always = .ok found ∧
    (∀ m, m ∈ found ↔ acquaintances.IsMatch selfKnowing .always m) ∧
    (found.map (·.path)).Nodup ∧
    found.Pairwise fun a b => acquaintances.rank a.path < acquaintances.rank b.path :=
  findMatches_spec reachable_acquaintances check_selfKnowing

example : (acquaintances.findMatches selfKnowing .always).map (·.map (·.path.describe)) =
    .ok [["Person:1", "KNOWS", "Person:1"]] := by
  rw [reachable_acquaintances.invariant.findMatches_eq check_selfKnowing]
  decide

end Store

end PropertyGraph
