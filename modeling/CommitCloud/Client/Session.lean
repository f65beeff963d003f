import CommitCloud.Server.Rpc

/-!
# Client sessions

Every method of the client's stores makes one remote call and turns the answer
into a value.  A `Session` is such a method: it acts on the store of the server
it is connected to.
-/

namespace CommitCloud.Client

open Foundation CommitCloud.Server

/-- A failed remote call, or a response the client cannot use. -/
inductive ClientError where
  | rpc (failure : Failure)
  | response (message : String)
  deriving DecidableEq

abbrev Session (α : Type) := MemoryStore → Except ClientError α × MemoryStore

section RemoteCall

variable {ε α β : Type}

def remoteCall (handler : Handler α) (onFailure : Failure → ε)
    (decode : α → Except ε β) : MemoryStore → Except ε β × MemoryStore :=
  fun s =>
    match handler.call s with
    | (.ok response, s') => (decode response, s')
    | (.error failure, s') => (.error (onFailure failure), s')

variable {handler : Handler α} {onFailure : Failure → ε} {decode : α → Except ε β}
  {s s' : MemoryStore}

theorem remoteCall_state :
    (remoteCall handler onFailure decode s).2 = (handler.call s).2 := by
  unfold remoteCall
  split
  next h => rw [h]
  next h => rw [h]

/-- A method that returns a value was answered. -/
theorem remoteCall_eq_ok_iff {b : β} :
    remoteCall handler onFailure decode s = (.ok b, s') ↔
      ∃ a, handler.call s = (.ok a, s') ∧ decode a = .ok b := by
  unfold remoteCall
  split
  next a _ h =>
    rw [h]
    constructor
    · intro heq
      obtain ⟨hdecode, rfl⟩ := Prod.mk.inj heq
      exact ⟨a, rfl, hdecode⟩
    · rintro ⟨a', heq, hdecode⟩
      cases heq
      rw [hdecode]
  next h => simp [h]

end RemoteCall

namespace Session

variable {α β : Type}

def rpc (handler : Handler α) (decode : α → Except ClientError β) : Session β :=
  remoteCall handler .rpc decode

end Session

end CommitCloud.Client
