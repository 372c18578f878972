import PropertyGraph.Proofs.Job
import PropertyGraph.Proofs.Store.Reachable
import PropertyGraph.Session

/-! Sessions. The change behind a command is atomic, since it only looks around before the
one operation that it performs; so a command that fails leaves the session as it was. A
command that goes through performs one operation, so sessions that begin with a reachable
store never leave the reachable stores. Nothing here depends on what the files hold or on
which of them can be written. -/

namespace PropertyGraph

open Store

def Outcome.Failed (o : Outcome) : Prop := ∃ e, o.result = .error e

namespace Change

/-! ### The change behind a command is atomic -/

theorem atomic_answerCreateNode (label : String) (properties : Bag) :
    Atomic (answerCreateNode label properties) :=
  (keeps_require _).bind_atomic fun _ =>
    (atomic_createNode label _ _).bind_goes fun _ => goes_pure _

theorem atomic_answerCreateRelationship (kind : String) (source target : NodeKey)
    (properties : Bag) : Atomic (answerCreateRelationship kind source target properties) :=
  (atomic_createRelationship kind source target properties).bind_goes fun _ => goes_pure _

theorem atomic_answerUpdateNode (key : NodeKey) (properties : Bag) :
    Atomic (answerUpdateNode key properties) :=
  (atomic_updateNode key properties).bind_goes fun _ => goes_pure _

theorem atomic_answerDeleteNode (key : NodeKey) : Atomic (answerDeleteNode key) :=
  keeps_get.bind_atomic fun _ => (atomic_deleteNode key).bind_goes fun _ =>
    goes_get.bind fun _ => goes_pure _

theorem atomic_answerUpdateRelationship (kind : String) (source target : NodeKey)
    (properties : Bag) : Atomic (answerUpdateRelationship kind source target properties) :=
  (keeps_ask _).bind_atomic fun _ => (keeps_ask _).bind_atomic fun _ =>
    (keeps_ask _).bind_atomic fun id =>
      (atomic_updateRelationship id properties).bind_goes fun _ => goes_pure _

theorem atomic_answerDeleteRelationship (id : Nat) : Atomic (answerDeleteRelationship id) :=
  (atomic_deleteRelationship id).bind_goes fun _ => goes_pure _

/-! ### The change behind a command performs one operation -/

/-- If the change goes through, one operation goes through with the same store left. -/
def Performs (c : Change Output) : Prop :=
  ∀ s output t, c.run s = .ok output t → ∃ op : Operation, op.change.run s = .ok () t

theorem run_bind_pure {α β : Type} {s t : Store} {c : Change α} {a : α} (b : β)
    (h : c.run s = .ok a t) : (c >>= fun _ => pure b).run s = .ok b t :=
  run_bind_eq_ok_iff.2 ⟨a, t, h, rfl⟩

theorem performs_answerCreateNode (label : String) (properties : Bag) :
    Performs (answerCreateNode label properties) := by
  intro s output t h
  obtain ⟨⟨id, bag⟩, -, h⟩ := run_require_bind_eq_ok_iff.1 h
  obtain ⟨key, u, hc, hu⟩ := run_bind_eq_ok_iff.1 h
  cases hu
  exact ⟨.createNode label id bag, run_bind_pure () hc⟩

theorem performs_answerCreateRelationship (kind : String) (source target : NodeKey)
    (properties : Bag) : Performs (answerCreateRelationship kind source target properties) := by
  intro s output t h
  obtain ⟨id, u, hc, hu⟩ := run_bind_eq_ok_iff.1 h
  cases hu
  exact ⟨.createRelationship kind source target properties, run_bind_pure () hc⟩

theorem performs_answerUpdateNode (key : NodeKey) (properties : Bag) :
    Performs (answerUpdateNode key properties) := by
  intro s output t h
  obtain ⟨x, u, hc, hu⟩ := run_bind_eq_ok_iff.1 h
  cases hu
  exact ⟨.updateNode key properties, hc⟩

theorem performs_answerDeleteNode (key : NodeKey) : Performs (answerDeleteNode key) := by
  intro s output t h
  rw [answerDeleteNode, run_get_bind] at h
  obtain ⟨n, u, hc, hu⟩ := run_bind_eq_ok_iff.1 h
  rw [run_get_bind] at hu
  cases hu
  exact ⟨.deleteNode key, run_bind_pure () hc⟩

theorem performs_answerUpdateRelationship (kind : String) (source target : NodeKey)
    (properties : Bag) : Performs (answerUpdateRelationship kind source target properties) := by
  intro s output t h
  obtain ⟨-, -, h⟩ := run_ask_bind_eq_ok_iff.1 h
  obtain ⟨-, -, h⟩ := run_ask_bind_eq_ok_iff.1 h
  obtain ⟨id, -, h⟩ := run_ask_bind_eq_ok_iff.1 h
  obtain ⟨x, u, hc, hu⟩ := run_bind_eq_ok_iff.1 h
  cases hu
  exact ⟨.updateRelationship id properties, hc⟩

theorem performs_answerDeleteRelationship (id : Nat) : Performs (answerDeleteRelationship id) := by
  intro s output t h
  obtain ⟨r, u, hc, hu⟩ := run_bind_eq_ok_iff.1 h
  cases hu
  exact ⟨.deleteRelationship id, run_bind_pure () hc⟩

end Change

namespace Session

open Change

variable {s : Session} {c : Change Output}

/-! ### Outcomes -/

theorem changing_failed (hc : Atomic c) (h : (s.changing c).Failed) :
    (s.changing c).session = s := by
  obtain ⟨e, h⟩ := h
  unfold changing at h ⊢
  split at h
  · cases h
  · next e' t hr =>
    have ht := hc _ _ _ hr
    subst ht
    rfl

theorem replacing_failed {r : Except QueryError (Output × Store)} (h : (s.replacing r).Failed) :
    (s.replacing r).session = s := by
  obtain ⟨e, h⟩ := h
  cases r with
  | error e' => rfl
  | ok found => cases h

theorem every_exportTo (s : Session) (path : String) :
    (s.exportTo path).Every fun o => o.session = s := by
  refine Job.every_bind.2 fun ok => ?_
  cases ok <;> rfl

/-! ### Commands that fail and commands that only read -/

theorem every_run_readOnly (s : Session) {command : Command} (h : command.isReadOnly = true) :
    (s.run command).Every fun o => o.session = s := by
  cases command with
  | getNode key | getNeighbors key kind direction | traverse start steps condition
  | findMatches template condition => exact rfl
  | exportTo path => exact every_exportTo s path
  | createNode label properties | createRelationship kind source target properties
  | updateNode key properties | deleteNode key
  | updateRelationship kind source target properties | deleteRelationship id
  | importFrom path => cases h

theorem every_run_failed (s : Session) (command : Command) :
    (s.run command).Every fun o => o.Failed → o.session = s := by
  cases command with
  | createNode label properties => exact changing_failed (atomic_answerCreateNode label properties)
  | createRelationship kind source target properties =>
    exact changing_failed (atomic_answerCreateRelationship kind source target properties)
  | updateNode key properties => exact changing_failed (atomic_answerUpdateNode key properties)
  | deleteNode key => exact changing_failed (atomic_answerDeleteNode key)
  | updateRelationship kind source target properties =>
    exact changing_failed (atomic_answerUpdateRelationship kind source target properties)
  | deleteRelationship id => exact changing_failed (atomic_answerDeleteRelationship id)
  | importFrom path => exact Job.every_bind.2 fun content => replacing_failed
  | getNode key | getNeighbors key kind direction | traverse start steps condition
  | findMatches template condition | exportTo path =>
    exact (every_run_readOnly s rfl).mono fun o h _ => h

theorem every_execute_failed (s : Session) (text : String) :
    (s.execute text).Every fun o => o.Failed → o.session = s := by
  unfold execute
  split
  · exact fun _ => rfl
  · next command h => exact every_run_failed s command

/-- A command leaves the session as it was if it fails for any reason, given as a text or
as it is, and if it only reads, even when it goes through; an operation that fails leaves
the store as it was. -/
theorem session_eq_of_failed (s : Session) :
    (∀ text, (s.execute text).Every fun o => o.Failed → o.session = s) ∧
    (∀ command, (s.run command).Every fun o => o.Failed → o.session = s) ∧
    (∀ command, command.isReadOnly = true → (s.run command).Every fun o => o.session = s) ∧
    (∀ (op : Operation) e t, op.change.run s.store = .error e t → t = s.store) :=
  ⟨s.every_execute_failed, s.every_run_failed, fun _ h => s.every_run_readOnly h,
    fun op => atomic_operation op s.store⟩

/-- A session with one node, which nothing can be related to yet. -/
def loneNode : Session := ⟨{}, history [.createNode "Person" none ∅]⟩

theorem loneNode_eq_of_failed :
    (loneNode.run (.createRelationship "KNOWS" ⟨"Person", 1⟩ ⟨"Person", 2⟩ ∅)).Every fun o =>
      o.Failed ∧ o.session = loneNode := by
  have hfailed : (loneNode.changing (.answerCreateRelationship "KNOWS" ⟨"Person", 1⟩
      ⟨"Person", 2⟩ ∅)).Failed := ⟨_, rfl⟩
  have hkept := (session_eq_of_failed loneNode).2.1
    (.createRelationship "KNOWS" ⟨"Person", 1⟩ ⟨"Person", 2⟩ ∅)
  exact ⟨hfailed, hkept hfailed⟩

/-! ### Sessions stay reachable -/

theorem reachable_changing (hs : s.store.Reachable) (hc : Atomic c) (hp : Performs c) :
    (s.changing c).session.store.Reachable := by
  unfold changing
  split
  · next output t hr =>
    obtain ⟨op, hop⟩ := hp _ _ _ hr
    exact hs.step hop
  · next e t hr =>
    have ht := hc _ _ _ hr
    subst ht
    exact hs

theorem toStore_of_storeOf {content : FileContent} {t : Store} (h : storeOf content = .ok t) :
    ∃ d : Document, d.toStore = .ok t := by
  cases content with
  | absent | unreadable => cases h
  | text content =>
    rw [storeOf, ofText] at h
    split at h
    · cases h
    · next d hd => exact ⟨d, mapError_eq_ok_iff.1 h⟩

theorem every_importFrom_reachable (hs : s.store.Reachable) (path : String) :
    (s.importFrom path).Every fun o => o.session.store.Reachable := by
  refine Job.every_bind.2 fun content => ?_
  change (s.replacing _).session.store.Reachable
  cases hc : storeOf content with
  | error e => exact hs
  | ok t =>
    obtain ⟨d, hd⟩ := toStore_of_storeOf hc
    have hload : (Operation.load d).change.run s.store = .ok () t :=
      run_require_bind_eq_ok_iff.2 ⟨t, hd, rfl⟩
    exact hs.step hload

/-- Whatever is run in a session whose store is reachable, its store is reachable again. -/
theorem every_run_reachable (hs : s.store.Reachable) (command : Command) :
    (s.run command).Every fun o => o.session.store.Reachable := by
  cases command with
  | createNode label properties =>
    exact reachable_changing hs (atomic_answerCreateNode label properties)
      (performs_answerCreateNode label properties)
  | createRelationship kind source target properties =>
    exact reachable_changing hs (atomic_answerCreateRelationship kind source target properties)
      (performs_answerCreateRelationship kind source target properties)
  | updateNode key properties =>
    exact reachable_changing hs (atomic_answerUpdateNode key properties)
      (performs_answerUpdateNode key properties)
  | deleteNode key =>
    exact reachable_changing hs (atomic_answerDeleteNode key) (performs_answerDeleteNode key)
  | updateRelationship kind source target properties =>
    exact reachable_changing hs (atomic_answerUpdateRelationship kind source target properties)
      (performs_answerUpdateRelationship kind source target properties)
  | deleteRelationship id =>
    exact reachable_changing hs (atomic_answerDeleteRelationship id)
      (performs_answerDeleteRelationship id)
  | importFrom path => exact every_importFrom_reachable hs path
  | getNode key | getNeighbors key kind direction | traverse start steps condition
  | findMatches template condition | exportTo path =>
    exact (every_run_readOnly s rfl).mono fun o h => h ▸ hs

theorem every_execute_reachable (hs : s.store.Reachable) (text : String) :
    (s.execute text).Every fun o => o.session.store.Reachable := by
  unfold execute
  split
  · exact hs
  · next command h => exact every_run_reachable hs command

end Session

end PropertyGraph
