import CommitCloud.Server.MemoryStore

/-!
# Request handlers

A handler reads and writes the store and ends in a response, in an error
status, or in a panic.  A failure does not undo what the handler wrote.
-/

namespace CommitCloud.Server

inductive Code where
  | notFound
  | invalidArgument
  | unimplemented
  deriving DecidableEq

structure Status where
  code : Code
  message : String
  deriving DecidableEq

inductive Failure where
  | status (status : Status)
  | panicked
  deriving DecidableEq

abbrev Handler (α : Type) := ExceptT Failure (StateM MemoryStore) α

namespace Handler

variable {α β : Type}

def call (handler : Handler α) (s : MemoryStore) :
    Except Failure α × MemoryStore :=
  StateT.run (ExceptT.run handler) s

def notFound (message : String) : Handler α :=
  throw (.status ⟨.notFound, message⟩)

def invalidArgument (message : String) : Handler α :=
  throw (.status ⟨.invalidArgument, message⟩)

def unimplemented (message : String) : Handler α :=
  throw (.status ⟨.unimplemented, message⟩)

def okOr (value : Option α) (failure : Handler α) : Handler α :=
  match value with
  | some a => pure a
  | none => failure

/-- Computations that may panic give `none` when they do. -/
def orPanic (value : Option α) : Handler α := okOr value (throw .panicked)

@[simp] theorem call_pure (a : α) (s : MemoryStore) :
    (pure a : Handler α).call s = (.ok a, s) := rfl

@[simp] theorem call_throw (failure : Failure) (s : MemoryStore) :
    (throw failure : Handler α).call s = (.error failure, s) := rfl

@[simp] theorem call_notFound (message : String) (s : MemoryStore) :
    (notFound message : Handler α).call s =
      (.error (.status ⟨.notFound, message⟩), s) := rfl

@[simp] theorem call_invalidArgument (message : String) (s : MemoryStore) :
    (invalidArgument message : Handler α).call s =
      (.error (.status ⟨.invalidArgument, message⟩), s) := rfl

@[simp] theorem call_unimplemented (message : String) (s : MemoryStore) :
    (unimplemented message : Handler α).call s =
      (.error (.status ⟨.unimplemented, message⟩), s) := rfl

@[simp] theorem call_get (s : MemoryStore) :
    (get : Handler MemoryStore).call s = (.ok s, s) := rfl

@[simp] theorem call_set (s' s : MemoryStore) :
    (set s' : Handler PUnit).call s = (.ok ⟨⟩, s') := rfl

@[simp] theorem call_modify (f : MemoryStore → MemoryStore) (s : MemoryStore) :
    (modify f : Handler PUnit).call s = (.ok ⟨⟩, f s) := rfl

@[simp] theorem call_bind (handler : Handler α) (next : α → Handler β)
    (s : MemoryStore) :
    (handler >>= next).call s =
      match handler.call s with
      | (.ok a, s') => (next a).call s'
      | (.error failure, s') => (.error failure, s') := by
  change StateT.run (ExceptT.run handler >>= ExceptT.bindCont next) s = _
  rw [StateT.run_bind]
  simp only [call]
  cases (ExceptT.run handler).run s with
  | mk result s' =>
      cases result <;> rfl

@[simp] theorem call_map (f : α → β) (handler : Handler α) (s : MemoryStore) :
    (f <$> handler).call s =
      match handler.call s with
      | (.ok a, s') => (.ok (f a), s')
      | (.error failure, s') => (.error failure, s') := by
  rw [map_eq_pure_bind, call_bind]
  rfl

theorem call_map_state (f : α → β) (handler : Handler α) (s : MemoryStore) :
    ((f <$> handler).call s).2 = (handler.call s).2 := by
  rw [call_map]
  rcases handler.call s with ⟨result, s'⟩
  cases result <;> rfl

@[simp] theorem call_okOr_some (a : α) (failure : Handler α)
    (s : MemoryStore) : (okOr (some a) failure).call s = (.ok a, s) := rfl

@[simp] theorem call_okOr_none (failure : Handler α) (s : MemoryStore) :
    (okOr none failure).call s = failure.call s := rfl

@[simp] theorem call_orPanic_some (a : α) (s : MemoryStore) :
    (orPanic (some a)).call s = (.ok a, s) := rfl

@[simp] theorem call_orPanic_none (s : MemoryStore) :
    (orPanic (none : Option α)).call s = (.error .panicked, s) := rfl

end Handler

def unregisteredMessage (action : String) (repoId : RepoId) : String :=
  "repository should have been registered before " ++ action ++ ": " ++ repoId

def ensureRepoRegisteredError (repoId : RepoId) (action : String) :
    Handler Unit := do
  if !(← get).isRepoRegistered repoId then
    Handler.notFound (unregisteredMessage action repoId)

@[simp] theorem call_ensureRepoRegisteredError (repoId : RepoId)
    (action : String) (s : MemoryStore) :
    (ensureRepoRegisteredError repoId action).call s =
      bif s.isRepoRegistered repoId then (.ok (), s)
      else (.error (.status ⟨.notFound, unregisteredMessage action repoId⟩), s) := by
  unfold ensureRepoRegisteredError
  cases h : s.isRepoRegistered repoId <;> simp [h]

def unregistered {α : Type} (s : MemoryStore) (action : String)
    (repoId : RepoId) : Except Failure α × MemoryStore :=
  (.error (.status ⟨.notFound, unregisteredMessage action repoId⟩), s)

end CommitCloud.Server
