import PropertyGraph.Proofs.Pattern.Exploration

/-! The loop of the search. Its stack stands for the paths that are still to be found:
those of the candidates left in the frame on top, and after them those of the frames
below, each explored from the choices made below it. A step takes paths from there to the
matches found, or rearranges the stack; what was found, followed by what the open paths
will add, stays the same. So the search ends with the matches of all paths, in order. -/

namespace PropertyGraph

/-- The matches of paths, as far as the condition holds of them. -/
def Plan.report (p : Plan) (paths : List Path) : List Match :=
  (paths.map p.template.matchOf).filter fun m => p.condition.eval m.environment

theorem Plan.report_append (p : Plan) (l m : List Path) :
    p.report (l ++ m) = p.report l ++ p.report m := by
  rw [report, List.map_append, List.filter_append]
  rfl

namespace Frame

variable {f : Frame} {s : Store} {p : Plan} {level : Nat} {chosen : Choices} {c : Candidate}

/-- All candidates are nodes of the store and suit the choices below. -/
def Offers (s : Store) (f : Frame) (chosen : Choices) : Prop :=
  ∀ c ∈ f.candidates, c.2 ∈ s.nodeList ∧ chosen.Suits c

/-- The paths of the candidates left. -/
def paths (s : Store) (p : Plan) (level : Nat) (chosen : Choices) (f : Frame) : List Path :=
  (f.candidates.drop f.next).flatMap (explore s p (p.template.segments.drop level) chosen)

def tried (f : Frame) : Frame := { f with next := f.next + 1 }

/-- The candidate that was tried last. -/
def current? (f : Frame) : Option Candidate :=
  match f.next with
  | 0 => none
  | i + 1 => f.candidates[i]?

theorem mem_of_current? (h : f.current? = some c) : c ∈ f.candidates := by
  unfold current? at h
  split at h
  · cases h
  · exact List.mem_of_getElem? h

theorem Offers.suits_current (h : f.Offers s chosen) (hc : f.current? = some c) :
    chosen.Suits c := (h c (mem_of_current? hc)).2

theorem paths_exhausted (h : f.candidates[f.next]? = none) : f.paths s p level chosen = [] := by
  rw [paths, List.drop_eq_nil_of_le (List.getElem?_eq_none_iff.1 h), List.flatMap_nil]

theorem drop_eq_cons {α : Type} {l : List α} {i : Nat} {a : α} (h : l[i]? = some a) :
    l.drop i = a :: l.drop (i + 1) := by
  obtain ⟨hi, rfl⟩ := List.getElem?_eq_some_iff.1 h
  exact List.drop_eq_getElem_cons hi

theorem paths_next (h : f.candidates[f.next]? = some c) : f.paths s p level chosen =
    explore s p (p.template.segments.drop level) chosen c ++ f.tried.paths s p level chosen := by
  rw [paths, drop_eq_cons h, List.flatMap_cons]
  rfl

end Frame

namespace Search

variable {s : Store} {p : Plan} {x y : Search} {f : Frame} {below : List Frame}
  {chosen : Choices} {rest : List Path} {c : Candidate} {q : Path}

/-! ### Choices of a search -/

/-- The search has made exactly these choices. -/
def Holds (x : Search) (chosen : Choices) : Prop :=
  x.nodes = chosen.nodes.toArray ∧ x.relationships = chosen.relationships.toArray

/-- The search has made these choices, and perhaps one on the level above, which it is
about to take back. -/
def Returns (x : Search) (chosen : Choices) : Prop :=
  x.Holds chosen ∨ ∃ c, chosen.Suits c ∧ x.Holds (some (chosen.add c))

theorem holds_undo (h : x.Returns chosen) : (x.undo chosen.nodes.length).Holds chosen := by
  unfold undo
  rcases h with ⟨hn, hr⟩ | ⟨c, hc, hn, hr⟩
  · rw [if_neg (by simp [hn])]
    exact ⟨hn, hr⟩
  · rw [Choices.nodes, Choices.nodes_add hc] at hn
    rw [Choices.relationships, Choices.relationships_add hc] at hr
    rw [if_pos (by simp [hn])]
    refine ⟨by simp [hn], ?_⟩
    obtain ⟨_ | r, n⟩ := c <;> rcases chosen with _ | path
    · simp [hr, Choices.nodes]
    · cases hc
    · cases hc
    · simp [hr, Choices.nodes, Path.nodes]

theorem undo_found (x : Search) (depth : Nat) : (x.undo depth).found = x.found := by
  unfold undo
  split <;> rfl

theorem holds_choose (h : x.Holds chosen) (hc : chosen.Suits c) :
    (x.choose c.1 c.2).Holds (some (chosen.add c)) := by
  obtain ⟨hn, hr⟩ := h
  refine ⟨?_, ?_⟩
  · rw [Choices.nodes, Choices.nodes_add hc]
    simp [choose, hn]
  · rw [Choices.relationships, Choices.relationships_add hc]
    obtain ⟨_ | r, n⟩ := c <;> simp [choose, hr]

theorem path?_eq (q : Path) : path? q.nodes.toArray q.relationships.toArray = some q := by
  have hzip : (q.hops.map Prod.fst).zip (q.hops.map Prod.snd) = q.hops := by
    rw [← List.unzip_fst, ← List.unzip_snd, List.zip_unzip]
  simp [path?, Path.nodes, Path.relationships, hzip]

theorem record_eq (h : x.Holds (some q)) : x.record p =
    { x with found := x.found ++ (p.report [q]).toArray } := by
  obtain ⟨frames, nodes, relationships, found⟩ := x
  obtain ⟨rfl, rfl⟩ := h
  simp only [record, Choices.nodes, Choices.relationships, path?_eq, Plan.report,
    List.map_singleton]
  split
  · next hholds => simp [hholds]
  · next hholds => simp [hholds]

/-! ### The stack -/

/-- The frames below the one on top, with what is chosen at their levels, which is what they
tried last, and the paths that they will still lead to. -/
inductive Below (s : Store) (p : Plan) : List Frame → Choices → List Path → Prop where
  | nil : Below s p [] none []
  | cons {f : Frame} {below : List Frame} {chosen : Choices} {rest : List Path} {c : Candidate} :
      Below s p below chosen rest → f.Offers s chosen → f.current? = some c →
      Below s p (f :: below) (some (chosen.add c)) (f.paths s p below.length chosen ++ rest)

theorem Below.length_eq (h : Below s p below chosen rest) :
    below.length = chosen.nodes.length := by
  induction h with
  | nil => rfl
  | cons h hf hc ih =>
    rw [List.length_cons, ih, Choices.nodes, Choices.nodes_add (hf.suits_current hc),
      List.length_append]
    rfl

/-- A search whose frame on top is looked at, with what is chosen below it. -/
structure Trying (s : Store) (p : Plan) (x : Search) (f : Frame) (below : List Frame)
    (chosen : Choices) (rest : List Path) : Prop where
  frames : x.frames = f :: below
  depth_le : below.length ≤ p.template.segments.length
  below : Below s p below chosen rest
  offers : f.Offers s chosen
  returns : x.Returns chosen

/-- A search with the paths that are open. -/
inductive Open (s : Store) (p : Plan) (x : Search) : List Path → Prop where
  | ended : x.frames = [] → Open s p x []
  | trying {f : Frame} {below : List Frame} {chosen : Choices} {rest : List Path} :
      Trying s p x f below chosen rest →
      Open s p x (f.paths s p below.length chosen ++ rest)

/-! ### One step -/

namespace Trying

/-- A step looks at the next candidate with the choice above taken back. -/
theorem step_eq (h : Trying s p x f below chosen rest) :
    ∃ z : Search, z.Holds chosen ∧ z.found = x.found ∧ x.step s p =
      match f.candidates[f.next]? with
      | none => .ok (some { z with frames := below })
      | some c =>
        if p.admits chosen c then
          match p.template.segments[below.length]? with
          | none => .ok (some { (z.choose c.1 c.2).record p with frames := f.tried :: below })
          | some segment => do
            let deeper ← frameFrom s c.2 segment
            .ok (some { z.choose c.1 c.2 with frames := deeper :: f.tried :: below })
        else .ok (some { z with frames := f.tried :: below }) := by
  have hz := h.below.length_eq ▸ holds_undo h.returns
  refine ⟨x.undo below.length, hz, undo_found _ _, ?_⟩
  have hadmits : ∀ c : Candidate, p.agrees (x.undo below.length).nodes
      (x.undo below.length).relationships below.length c.1 c.2 = p.admits chosen c := by
    intro c
    rw [hz.1, hz.2, h.below.length_eq]
    rfl
  unfold step
  rw [h.frames]
  cases hc : f.candidates[f.next]? with
  | none => simp only [hc]
  | some c =>
    simp only [hc, ← hadmits]
    rfl

theorem retry (h : Trying s p x f below chosen rest) (hy : y.frames = f.tried :: below)
    (hreturns : y.Returns chosen) :
    Open s p y (f.tried.paths s p below.length chosen ++ rest) :=
  .trying ⟨hy, h.depth_le, h.below, h.offers, hreturns⟩

/-- Without the frame on top, the frame below it is looked at next. -/
theorem leave (h : Trying s p x f below chosen rest) (hy : y.frames = below)
    (hholds : y.Holds chosen) : Open s p y rest := by
  have hdepth := h.depth_le
  cases h.below with
  | nil => exact .ended hy
  | cons hbelow hoffers hc =>
    exact .trying ⟨hy, Nat.le_of_succ_le hdepth, hbelow, hoffers,
      .inr ⟨_, hoffers.suits_current hc, hholds⟩⟩

/-- A frame of the hops from an admitted candidate goes on top. -/
theorem descend (hs : s.Invariant) (h : Trying s p x f below chosen rest)
    (hc : f.candidates[f.next]? = some c) (hadmits : p.admits chosen c = true)
    {segment : RelationshipSlot × NodeSlot}
    (hsegment : p.template.segments[below.length]? = some segment)
    (hy : y.frames = ⟨(s.hopsFrom c.2 segment).map fun (r, m) => (some r, m), 0⟩ ::
      f.tried :: below) (hholds : y.Holds (some (chosen.add c))) :
    Open s p y (f.paths s p below.length chosen ++ rest) := by
  have hmem := (h.offers c (List.mem_of_getElem? hc)).1
  have hdepth := (List.getElem?_eq_some_iff.1 hsegment).1
  have hbelow : Below s p (f.tried :: below) (some (chosen.add c))
      (f.tried.paths s p below.length chosen ++ rest) := .cons h.below h.offers hc
  have hoffers : Frame.Offers s ⟨(s.hopsFrom c.2 segment).map fun (r, m) => (some r, m), 0⟩
      (some (chosen.add c)) := by
    intro c' hc'
    obtain ⟨⟨r, m⟩, hhop, rfl⟩ := List.mem_map.1 hc'
    exact ⟨((hs.mem_hopsFrom_iff hmem).1 hhop).2.2.1, Choices.suits_hop _ r m⟩
  have hopen := Open.trying (⟨hy, hdepth, hbelow, hoffers, .inl hholds⟩ : Trying s p y _ _ _ _)
  have hpaths : explore s p (p.template.segments.drop below.length) chosen c =
      Frame.paths s p (f.tried :: below).length (some (chosen.add c))
        ⟨(s.hopsFrom c.2 segment).map fun (r, m) => (some r, m), 0⟩ := by
    rw [Frame.drop_eq_cons hsegment, explore_cons hadmits, Frame.paths, List.drop_zero,
      List.flatMap_map]
    rfl
  rwa [Frame.paths_next hc, hpaths, List.append_assoc]

/-- A step does not fail, and what is found and what is open stay the same together. -/
theorem step_spec (hs : s.Invariant) (h : Trying s p x f below chosen rest) :
    ∃ y left, x.step s p = .ok (some y) ∧ Open s p y left ∧
      x.found.toList ++ p.report (f.paths s p below.length chosen ++ rest) =
        y.found.toList ++ p.report left := by
  obtain ⟨z, hz, hfound, hstep⟩ := h.step_eq
  rw [← hfound]
  cases hc : f.candidates[f.next]? with
  | none =>
    rw [hc] at hstep
    exact ⟨_, rest, hstep, h.leave rfl hz, by rw [Frame.paths_exhausted hc, List.nil_append]⟩
  | some c =>
    obtain ⟨hmem, hsuits⟩ := h.offers c (List.mem_of_getElem? hc)
    simp only [hc] at hstep
    by_cases hadmits : p.admits chosen c = true
    · rw [if_pos hadmits] at hstep
      have hchosen := holds_choose hz hsuits
      cases hsegment : p.template.segments[below.length]? with
      | none =>
        rw [hsegment, record_eq hchosen] at hstep
        have hlast : p.template.segments.drop below.length = [] :=
          List.drop_eq_nil_of_le (List.getElem?_eq_none_iff.1 hsegment)
        refine ⟨_, _, hstep, h.retry rfl (.inr ⟨c, hsuits, hchosen⟩), ?_⟩
        rw [Frame.paths_next hc, hlast, explore_last hadmits, List.append_assoc,
          Plan.report_append p [chosen.add c]]
        simp [choose]
      | some segment =>
        rw [hsegment] at hstep
        simp only [hs.frameFrom_eq hmem] at hstep
        exact ⟨_, _, hstep, h.descend hs hc hadmits hsegment rfl hchosen, rfl⟩
    · rw [if_neg hadmits] at hstep
      refine ⟨_, _, hstep, h.retry rfl (.inl hz), ?_⟩
      rw [Frame.paths_next hc, explore_refused hadmits, List.nil_append]

end Trying

/-- A search with open paths has ended or takes a step. -/
theorem Open.step_spec (hs : s.Invariant) {paths : List Path} (h : Open s p x paths) :
    (x.frames = [] ∧ paths = [] ∧ x.step s p = .ok none) ∨
      ∃ y left, x.step s p = .ok (some y) ∧ Open s p y left ∧
        x.found.toList ++ p.report paths = y.found.toList ++ p.report left := by
  cases h with
  | ended hx => exact .inl ⟨hx, rfl, by simp [step, hx]⟩
  | trying h => exact .inr (h.step_spec hs)

/-! ### The run -/

theorem Open.run_eq (hs : s.Invariant) {paths : List Path} (h : Open s p x paths) :
    ∃ found, x.run s p = .ok found ∧ found.toList = x.found.toList ++ p.report paths := by
  have hspec := h.step_spec hs
  fun_induction run s p x generalizing paths with
  | case1 x e he => simp [he] at hspec
  | case2 x he =>
    obtain ⟨-, rfl, -⟩ | ⟨y, left, hstep, -⟩ := hspec
    · exact ⟨x.found, rfl, (List.append_nil _).symm⟩
    · cases he.symm.trans hstep
  | case3 x y he ih =>
    obtain ⟨-, -, hstep⟩ | ⟨z, left, hstep, hopen, hsame⟩ := hspec
    · cases he.symm.trans hstep
    · cases he.symm.trans hstep
      obtain ⟨found, hrun, hfound⟩ := ih hopen (hopen.step_spec hs)
      exact ⟨found, hrun, hfound.trans hsame.symm⟩

theorem open_start (hs : s.Invariant) (t : Template) (condition : Condition) :
    Open s (.make t condition) (start s t) (s.paths (.make t condition)) := by
  have hoffers : Frame.Offers s ⟨(s.nodesLabeled t.start.label).map fun n => (none, n), 0⟩
      none := by
    intro c hc
    obtain ⟨n, hn, rfl⟩ := List.mem_map.1 hc
    exact ⟨(hs.mem_nodesLabeled_iff.1 hn).1, Choices.suits_start n⟩
  have hopen := Open.trying (⟨rfl, Nat.zero_le _, .nil, hoffers, .inl ⟨rfl, rfl⟩⟩ :
    Trying s (.make t condition) (start s t) _ _ _ _)
  rw [Frame.paths, List.drop_zero, List.flatMap_map, List.append_nil] at hopen
  exact hopen

end Search

end PropertyGraph
