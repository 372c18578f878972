import PropertyGraph.Job

/-! What a job ends in whatever it is answered. A tree of files is one way to answer; a
statement about every answer says more, since it does not depend on what a file held a
moment ago or on which writes go through. -/

namespace PropertyGraph.Job

variable {α β : Type} {p q : α → Prop}

/-- However its questions are answered, the job ends in a result with the property. -/
def Every (p : α → Prop) : Job α → Prop
  | .done a => p a
  | .readFile _ next => ∀ content, (next content).Every p
  | .replaceFile _ _ next => ∀ ok, (next ok).Every p
  | .print _ next => next.Every p
  | .warn _ next => next.Every p

theorem Every.mono {x : Job α} (h : x.Every p) (hpq : ∀ a, p a → q a) : x.Every q := by
  induction x with
  | done a => exact hpq a h
  | readFile path next ih => exact fun content => ih content (h content)
  | replaceFile path content next ih => exact fun ok => ih ok (h ok)
  | print text next ih => exact ih h
  | warn text next ih => exact ih h

theorem every_bind {p : β → Prop} {x : Job α} {f : α → Job β} :
    (x >>= f).Every p ↔ x.Every fun a => (f a).Every p := by
  rw [bind_eq]
  induction x with
  | done a => exact Iff.rfl
  | readFile path next ih => exact forall_congr' ih
  | replaceFile path content next ih => exact forall_congr' ih
  | print text next ih => exact ih
  | warn text next ih => exact ih

/-- A world answers in some way, so what holds however a job is answered holds there. -/
theorem Every.run {x : Job α} (h : x.Every p) (w : World) : p (x.run w).1 := by
  induction x generalizing w with
  | done a => exact h
  | readFile path next ih => exact ih _ (h _) w
  | replaceFile path content next ih => exact ih _ (h _) _
  | print text next ih => exact ih h _
  | warn text next ih => exact ih h _

/-! ### Jobs that only read -/

/-- The job replaces no file and prints nothing. -/
def OnlyReads : Job α → Prop
  | .done _ => True
  | .readFile _ next => ∀ content, (next content).OnlyReads
  | .replaceFile .. | .print .. | .warn .. => False

/-- What a job ends in when it runs among files. -/
def resultAmong (x : Job α) (files : FileTree) : α := (x.run ⟨files, "", ""⟩).1

/-- A job that only reads leaves the world as it was, and all that it looks at there are
the files. -/
theorem OnlyReads.run_eq {x : Job α} (h : x.OnlyReads) (w : World) :
    x.run w = (x.resultAmong w.files, w) := by
  unfold resultAmong
  induction x with
  | done a => rfl
  | readFile path next ih => exact ih _ (h _)
  | replaceFile path content next ih | print text next ih | warn text next ih => cases h

end PropertyGraph.Job
