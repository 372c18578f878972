import Mathlib.Data.List.Nodup
import PropertyGraph.Condition

/-! Conditions and their variables. The value of a condition depends on what the names it
mentions stand for and on nothing else, so renaming the variables of a condition comes to
looking its names up in another way. The variables are gathered with a stack, which stands for
the uses that are still to come; so they are found in the order of their first uses. -/

namespace PropertyGraph.Condition

variable {env env' : Environment}

/-- The condition with other names for its variables. -/
def rename (f : String → String) : Condition → Condition
  | .always => .always
  | .comparison x p op v => .comparison (f x) p op v
  | .and a b => .and (a.rename f) (b.rename f)
  | .or a b => .or (a.rename f) (b.rename f)

theorem eval_congr {c : Condition} (h : ∀ x ∈ c.mentions, env x = env' x) :
    c.eval env = c.eval env' := by
  induction c with
  | always => rfl
  | comparison x p op v => simp only [eval, h x List.mem_cons_self]
  | and a b iha ihb | or a b iha ihb =>
    obtain ⟨ha, hb⟩ := List.forall_mem_append.1 h
    rw [eval, eval, iha ha, ihb hb]

theorem eval_rename (f : String → String) (c : Condition) :
    (c.rename f).eval env = c.eval fun x => env (f x) := by
  induction c with
  | always => rfl
  | comparison x p op v => rfl
  | and a b iha ihb | or a b iha ihb => rw [rename, eval, eval, iha, ihb]

theorem mentions_rename (f : String → String) (c : Condition) :
    (c.rename f).mentions = c.mentions.map f := by
  induction c with
  | always => rfl
  | comparison x p op v => rfl
  | and a b iha ihb | or a b iha ihb => rw [rename, mentions, mentions, iha, ihb, List.map_append]

/-! ### Variables in the order of their first use -/

/-- The names are those in use, in the order of their first uses, so each once. -/
structure InFirstUse (names uses : List String) : Prop where
  mem_iff : ∀ x, x ∈ names ↔ x ∈ uses
  ordered : names.Pairwise fun x y => uses.idxOf x < uses.idxOf y

namespace InFirstUse

variable {names uses : List String}

theorem nil : InFirstUse [] [] := ⟨fun _ => .rfl, .nil⟩

theorem nodup (h : InFirstUse names uses) : names.Nodup := by
  refine h.ordered.imp ?_
  rintro a _ hlt rfl
  exact Nat.lt_irrefl _ hlt

/-- One more use. -/
theorem add (h : InFirstUse names uses) (x : String) :
    InFirstUse (if x ∈ names then names else names ++ [x]) (uses ++ [x]) := by
  -- a further use does not move the first uses
  have hordered : names.Pairwise fun a b => (uses ++ [x]).idxOf a < (uses ++ [x]).idxOf b := by
    refine h.ordered.imp_of_mem fun ha hb hlt => ?_
    rwa [List.idxOf_append_of_mem ((h.mem_iff _).1 ha),
      List.idxOf_append_of_mem ((h.mem_iff _).1 hb)]
  split
  · next hx =>
    refine ⟨fun y => ?_, hordered⟩
    rw [List.mem_append, List.mem_singleton, h.mem_iff]
    refine ⟨.inl, ?_⟩
    rintro (hy | rfl)
    · exact hy
    · exact (h.mem_iff y).1 hx
  · next hx =>
    constructor
    · intro y
      rw [List.mem_append, List.mem_append, List.mem_singleton, h.mem_iff]
    · refine List.pairwise_append.2 ⟨hordered, List.pairwise_singleton _ _, fun a ha b hb => ?_⟩
      have hau := (h.mem_iff a).1 ha
      have hxu : x ∉ uses := fun hxu => hx ((h.mem_iff x).2 hxu)
      rw [List.mem_singleton.1 hb, List.idxOf_append_of_mem hau, List.idxOf_append_of_notMem hxu]
      exact Nat.lt_add_right _ (List.idxOf_lt_length_iff.2 hau)

/-- The stack stands for the uses to come: those of its conditions, from the top down. -/
theorem namesFrom (h : InFirstUse names uses) (stack : List Condition) :
    InFirstUse (namesFrom names stack) (uses ++ stack.flatMap mentions) := by
  fun_induction Condition.namesFrom names stack generalizing uses with
  | case1 names => simpa using h
  | case2 names stack ih => simpa [mentions] using ih h
  | case3 names x p op v stack ih => simpa [mentions] using ih (h.add x)
  | case4 names a b stack ih | case5 names a b stack ih => simpa [mentions] using ih h

end InFirstUse

theorem inFirstUse_variableNames (c : Condition) : InFirstUse c.variableNames c.mentions := by
  have hnames := InFirstUse.nil.namesFrom [c]
  rwa [List.nil_append, List.flatMap_singleton] at hnames

theorem mem_variableNames {c : Condition} {x : String} : x ∈ c.variableNames ↔ x ∈ c.mentions :=
  (inFirstUse_variableNames c).mem_iff x

/-! ### Bound variables -/

/-- Every variable is bound, and what other names stand for makes no difference. -/
structure SettledBy (c : Condition) (env : Environment) : Prop where
  bound : ∀ x ∈ c.variableNames, ∃ e, env x = some e
  eval_eq : ∀ env' : Environment, (∀ x e, env x = some e → env' x = some e) →
    c.eval env' = c.eval env

theorem settledBy_of_bound {c : Condition} (h : ∀ x ∈ c.variableNames, ∃ e, env x = some e) :
    c.SettledBy env := by
  refine ⟨h, fun env' henv => eval_congr fun x hx => ?_⟩
  obtain ⟨e, he⟩ := h x (mem_variableNames.2 hx)
  rw [he, henv x e he]

end PropertyGraph.Condition
