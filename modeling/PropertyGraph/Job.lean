import PropertyGraph.FileTree

/-! Jobs: computations that read and replace files and print, given as data. A job says
what it asks for and how it goes on from the answer; whoever runs it answers. Here a job
runs on a tree of files. -/

namespace PropertyGraph

inductive Job (α : Type) where
  | done (result : α)
  | readFile (path : String) (next : FileContent → Job α)
  /-- Replaces a file in one step; the answer tells whether that was possible. -/
  | replaceFile (path content : String) (next : Bool → Job α)
  | print (text : String) (next : Job α)
  /-- Prints where errors go. -/
  | warn (text : String) (next : Job α)

namespace Job

variable {α β : Type}

/-- The job `x`, and then what `f` makes of its result. -/
def bind (x : Job α) (f : α → Job β) : Job β :=
  match x with
  | .done a => f a
  | .readFile path next => .readFile path fun c => (next c).bind f
  | .replaceFile path content next => .replaceFile path content fun ok => (next ok).bind f
  | .print text next => .print text (next.bind f)
  | .warn text next => .warn text (next.bind f)

instance : Monad Job where
  pure := .done
  bind := bind

@[simp] theorem pure_eq (a : α) : (pure a : Job α) = .done a := rfl

@[simp] theorem bind_eq (x : Job α) (f : α → Job β) : x >>= f = x.bind f := rfl

@[simp] theorem done_bind (a : α) (f : α → Job β) : (done a).bind f = f a := rfl

theorem bind_done (x : Job α) : x.bind .done = x := by
  induction x with
  | done a => rfl
  | readFile path next ih | replaceFile path content next ih =>
    simp only [bind]
    congr 1
    exact funext ih
  | print text next ih | warn text next ih => rw [bind, ih]

theorem bind_assoc {γ : Type} (x : Job α) (f : α → Job β) (g : β → Job γ) :
    (x.bind f).bind g = x.bind fun a => (f a).bind g := by
  induction x with
  | done a => rfl
  | readFile path next ih | replaceFile path content next ih =>
    simp only [bind]
    congr 1
    exact funext ih
  | print text next ih | warn text next ih => simp only [bind, ih]

instance : LawfulMonad Job :=
  LawfulMonad.mk' Job (fun x => bind_done x) (fun _ _ => rfl) bind_assoc

def fileContent (path : String) : Job FileContent := .readFile path .done

def replace (path content : String) : Job Bool := .replaceFile path content .done

def say (text : String) : Job Unit := .print text (.done ())

def complain (text : String) : Job Unit := .warn text (.done ())

/-! ### Running -/

/-- What jobs work on: files and what has been printed. -/
structure World where
  files : FileTree
  output : String := ""
  errors : String := ""

/-- The result of a job on a world, and the world afterwards. -/
def run : Job α → World → α × World
  | .done a, w => (a, w)
  | .readFile path next, w => (next (w.files.read path)).run w
  | .replaceFile path content next, w =>
    let (ok, files) := w.files.replace path content
    (next ok).run { w with files }
  | .print text next, w => next.run { w with output := w.output ++ text }
  | .warn text next, w => next.run { w with errors := w.errors ++ text }

theorem run_bind (x : Job α) (f : α → Job β) (w : World) :
    (x.bind f).run w = (f (x.run w).1).run (x.run w).2 := by
  induction x generalizing w with
  | done a => rfl
  | readFile path next ih | replaceFile path content next ih => exact ih _ _
  | print text next ih | warn text next ih => exact ih _

end Job

end PropertyGraph
