import PropertyGraph.Proofs.Pattern.Loop

/-! What a search judges by its condition. Whatever the store is like, there is a choice at every
level below the frame on top when a candidate is looked at, so a path that is judged has an entity
for every slot. It binds every variable of the template, and the condition of an admitted template
asks for those only: what other names stand for makes no difference. -/

namespace PropertyGraph

namespace Template

variable {t : Template} {p : Path} {x : String}

theorem mem_declared_of_use {role : Role} (h : (some x, role) ∈ t.uses) : x ∈ t.declared := by
  rw [declared, List.mem_eraseDups, List.mem_filterMap]
  refine ⟨some x, ?_, rfl⟩
  rw [List.mem_cons, List.mem_flatMap]
  rcases mem_uses_iff.1 h with ⟨slot, hslot, heq⟩ | ⟨slot, hslot, heq⟩
  · have hname : slot.name = some x := congrArg Prod.fst heq
    rcases List.mem_cons.1 hslot with rfl | hslot
    · exact .inl hname.symm
    · obtain ⟨segment, hsegment, rfl⟩ := List.mem_map.1 hslot
      exact .inr ⟨segment, hsegment, by simp [hname]⟩
  · have hname : slot.name = some x := congrArg Prod.fst heq
    obtain ⟨segment, hsegment, rfl⟩ := List.mem_map.1 hslot
    exact .inr ⟨segment, hsegment, by simp [hname]⟩

/-- A path with an entity for every slot binds every variable. -/
theorem exists_bound (hlength : p.hops.length = t.segments.length) (hx : x ∈ t.declared) :
    ∃ e, (t.matchOf p).environment x = some e := by
  rw [← keys_matchOf hlength] at hx
  exact OrderedMap.contains_iff.1 (OrderedMap.mem_keys_iff.1 hx)

end Template

namespace Search

variable {s : Store} {p : Plan} {x y : Search} {f : Frame} {below : List Frame} {c : Candidate}
  {n : Nat}

/-! ### Choices and levels -/

theorem record_nodes (p : Plan) (x : Search) : (x.record p).nodes = x.nodes := by
  unfold record
  split
  · rfl
  · simp only
    split <;> rfl

theorem record_relationships (p : Plan) (x : Search) :
    (x.record p).relationships = x.relationships := by
  unfold record
  split
  · rfl
  · simp only
    split <;> rfl

theorem isSome_of_frameFrom {m : Node} {segment : RelationshipSlot × NodeSlot}
    (h : frameFrom s m segment = .ok f) : ∀ c ∈ f.candidates, c.1.isSome = true := by
  obtain ⟨hops, -, hf⟩ := bind_eq_ok_iff.1 h
  cases hf
  exact List.forall_mem_map.2 fun _ _ => rfl

/-- The lowest frame has candidates without a relationship, and every other one candidates with
one. -/
def Graded : List Frame → Prop
  | [] => True
  | f :: below => (∀ c ∈ f.candidates, c.1.isSome = !below.isEmpty) ∧ Graded below

/-- A node is chosen at every level below the frame on top, and perhaps one at its own, and a
relationship wherever a node is but at the lowest level. -/
structure Leveled (p : Plan) (x : Search) : Prop where
  graded : Graded x.frames
  levels_le : x.frames.length ≤ p.template.segments.length + 1
  nodes_size : x.nodes.size = x.frames.length ∨ x.nodes.size + 1 = x.frames.length
  relationships_size : x.relationships.size = x.nodes.size - 1

theorem leveled_start (s : Store) (t : Template) (condition : Condition) :
    Leveled (.make t condition) (start s t) where
  graded := ⟨List.forall_mem_map.2 fun _ _ => rfl, trivial⟩
  levels_le := Nat.le_add_left _ _
  nodes_size := .inr rfl
  relationships_size := rfl

namespace Leveled

theorem undo (h : Leveled p x) (hx : x.frames = f :: below) :
    (x.undo below.length).nodes.size = below.length ∧
      (x.undo below.length).relationships.size = below.length - 1 := by
  have hnodes := h.nodes_size
  have hrelationships := h.relationships_size
  rw [hx, List.length_cons] at hnodes
  unfold Search.undo
  split
  · simp only [Array.size_pop]
    split
    · simp only [Array.size_pop]
      omega
    · omega
  · omega

theorem choose (h : Leveled p x) (hx : x.frames = f :: below) (hc : c ∈ f.candidates) :
    ((x.undo below.length).choose c.1 c.2).nodes.size = below.length + 1 ∧
      ((x.undo below.length).choose c.1 c.2).relationships.size = below.length := by
  obtain ⟨hnodes, hrelationships⟩ := h.undo hx
  have hgraded := h.graded
  rw [hx] at hgraded
  have hhop := hgraded.1 c hc
  refine ⟨by simp [Search.choose, hnodes], ?_⟩
  -- the level says whether the candidate has a relationship, so two of the four cases remain
  obtain ⟨_ | r, m⟩ := c <;> cases below <;> simp_all [Search.choose]

/-- A step keeps this, on every store. -/
theorem step (h : Leveled p x) (hstep : x.step s p = .ok (some y)) : Leveled p y := by
  obtain ⟨f, below, hx, hcases⟩ := step_cases hstep
  obtain ⟨hnodes, hrelationships⟩ := h.undo hx
  have hlevels := h.levels_le
  have hgraded := h.graded
  rw [hx, List.length_cons] at hlevels
  rw [hx] at hgraded
  obtain rfl | ⟨c, hc, rfl | rfl | ⟨segment, deeper, hsegment, hdeeper, rfl⟩⟩ := hcases
  · exact ⟨hgraded.2, Nat.le_of_succ_le hlevels, .inl hnodes, by rw [hnodes, hrelationships]⟩
  · exact ⟨hgraded, hlevels, .inr (congrArg (· + 1) hnodes), by rw [hnodes, hrelationships]⟩
  · obtain ⟨hn, hr⟩ := h.choose hx (List.mem_of_getElem? hc)
    rw [← record_nodes p] at hn
    rw [← record_relationships p] at hr
    exact ⟨hgraded, hlevels, .inl hn, by rw [hn, hr]; rfl⟩
  · obtain ⟨hn, hr⟩ := h.choose hx (List.mem_of_getElem? hc)
    have hlt := (List.getElem?_eq_some_iff.1 hsegment).1
    refine ⟨⟨isSome_of_frameFrom hdeeper, hgraded⟩, ?_, .inr (congrArg (· + 1) hn), ?_⟩
    · exact Nat.succ_le_succ hlt
    · rw [hn, hr]
      rfl

theorem steps (h : Leveled p x) (hsteps : Steps s p n x y) : Leveled p y := by
  induction hsteps with
  | refl x => exact h
  | step hstep _ ih => exact ih (h.step hstep)

end Leveled

/-! ### Judging -/

/-- The next step fills the last slot with a candidate that agrees, and these are the choices
that it judges. -/
def Judges (p : Plan) (x y : Search) : Prop :=
  ∃ f below c, x.frames = f :: below ∧ f.candidates[f.next]? = some c ∧
    p.agrees (x.undo below.length).nodes (x.undo below.length).relationships below.length
      c.1 c.2 = true ∧
    p.template.segments[below.length]? = none ∧ y = (x.undo below.length).choose c.1 c.2

theorem Judges.step_eq (s : Store) (h : x.Judges p y) :
    ∃ frames, x.step s p = .ok (some { y.record p with frames := frames }) := by
  obtain ⟨f, below, c, hx, hc, hagrees, hlast, rfl⟩ := h
  exact ⟨f.tried :: below, by simp [step, hx, hc, hagrees, hlast, Frame.tried]⟩

/-- What is judged is a path with an entity for every slot. -/
theorem Leveled.exists_path (h : Leveled p x) (hjudges : x.Judges p y) :
    ∃ q, path? y.nodes y.relationships = some q ∧ q.hops.length = p.template.segments.length := by
  obtain ⟨f, below, c, hx, hc, -, hlast, rfl⟩ := hjudges
  obtain ⟨hn, hr⟩ := h.choose hx (List.mem_of_getElem? hc)
  have hle := h.levels_le
  have hge := List.getElem?_eq_none_iff.1 hlast
  rw [hx, List.length_cons] at hle
  generalize (x.undo below.length).choose c.1 c.2 = y at hn hr
  unfold path?
  rw [← Array.length_toList] at hn hr
  split
  · next hnil => simp [hnil] at hn
  · next m rest hcons =>
    refine ⟨_, rfl, ?_⟩
    rw [hcons, List.length_cons] at hn
    rw [List.length_zip, hr]
    omega

/-- The variables of a condition are found each once, in the order of their first uses, and the
value of the condition depends only on what they stand for. A search for a template that was
admitted with the condition judges paths only that bind them all, so what other names stand for
never makes a difference there. -/
theorem variables_determine (c : Condition) :
    c.variableNames.Nodup ∧ Condition.InFirstUse c.variableNames c.mentions ∧
    (∀ env env' : Environment, (∀ v ∈ c.variableNames, env v = env' v) →
      c.eval env = c.eval env') ∧
    ∀ (s : Store) t, t.check s c = .ok () → ∀ n x y,
      Steps s (.make t c) n (start s t) x → x.Judges (.make t c) y →
        (∃ frames, x.step s (.make t c) =
          .ok (some { y.record (.make t c) with frames := frames })) ∧
        ∃ q, path? y.nodes y.relationships = some q ∧
          c.SettledBy (t.matchOf q).environment := by
  have hfirst := Condition.inFirstUse_variableNames c
  refine ⟨hfirst.nodup, hfirst, fun env env' h => ?_, fun s t hcheck n x y hsteps hjudges => ?_⟩
  · exact Condition.eval_congr fun v hv => h v (Condition.mem_variableNames.2 hv)
  · obtain ⟨q, hq, hlength⟩ := ((leveled_start s t c).steps hsteps).exists_path hjudges
    refine ⟨hjudges.step_eq s, q, hq, Condition.settledBy_of_bound fun v hv => ?_⟩
    obtain ⟨role, huse⟩ :=
      (Template.check_eq_ok_iff.1 hcheck).declared v (Condition.mem_variableNames.1 hv)
    exact Template.exists_bound hlength (Template.mem_declared_of_use huse)

/-- It asks twice for the relationship, at first and at last. -/
def repeating : Condition :=
  .or (.and (.comparison "r" "since" .ge (.integer 3)) (.comparison "a" "age" .eq (.integer 1)))
    (.comparison "r" "since" .ne (.integer 5))

theorem variables_determine_repeating :
    repeating.variableNames = ["r", "a"] ∧
    Store.selfKnowing.check .acquaintances repeating = .ok () ∧
    repeating.eval (fun _ => none) =
      repeating.eval (fun v => if v = "b" then some (.node ⟨⟨"Person", 1⟩, ∅⟩) else none) ∧
    ∃ q, path? #[⟨⟨"Person", 1⟩, ∅⟩, ⟨⟨"Person", 1⟩, ∅⟩]
        #[⟨1, "KNOWS", ⟨"Person", 1⟩, ⟨"Person", 1⟩, ∅⟩] = some q ∧
      repeating.SettledBy (Store.selfKnowing.matchOf q).environment := by
  obtain ⟨-, -, hcongr, hjudged⟩ := variables_determine repeating
  have hcheck : Store.selfKnowing.check .acquaintances repeating = .ok () := rfl
  refine ⟨rfl, hcheck, hcongr _ _ (by decide), ?_⟩
  have hstep : (start .acquaintances Store.selfKnowing).step .acquaintances
      (.make Store.selfKnowing repeating) = .ok (some _) := rfl
  exact (hjudged _ _ hcheck 1 _ _ (.step hstep (.refl _)) ⟨_, _, _, rfl, rfl, rfl, rfl, rfl⟩).2

end Search

end PropertyGraph
