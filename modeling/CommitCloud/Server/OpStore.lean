import CommitCloud.Server.Handler
import CommitCloud.Server.HashUtils

/-!
# The operation store service

The handlers of `server/src/op_store.rs`, and for each handler what a call
does.
-/

namespace CommitCloud.Server.OpStoreService

open Foundation CommitCloud.Proto.OpStore

variable (P : Platform)

/-- The operation that is read at the root id when none is stored there. -/
def rootOperation : Operation where
  viewId := rootViewIdBytes
  parents := []
  metadata := some {
    startTimeMillis := 0
    endTimeMillis := 0
    description := "root()"
    hostname := ""
    username := ""
    isSnapshot := false
    workspaceName := none
    attributes := .empty }
  commitPredecessors := []
  commitPredecessorsSet := true

/-- The view that is read at the root id when none is stored there. -/
def rootView : View where
  headIds := [rootCommitIdBytes]
  wcCommitIds := .empty
  localBookmarks := .empty
  remoteBookmarks := .empty

def missingMessage (object : String) (id : Bytes) (repoId : RepoId) : String :=
  object ++ " should have been present in cloud database: " ++ hexEncode id ++
    " in repo: " ++ repoId

def readOperation (req : ReadOperationRequest) :
    Handler ReadOperationResponse := do
  ensureRepoRegisteredError req.repoId "reading operations"
  match (← get).getOperation req.repoId req.operationId with
  | some op => return { operation := some op }
  | none =>
      if req.operationId = rootOperationIdBytes then
        return { operation := some rootOperation }
      else
        Handler.notFound
          (missingMessage "operation" req.operationId req.repoId)

def writeOperation (req : WriteOperationRequest) :
    Handler WriteOperationResponse := do
  let op ← Handler.okOr req.operation
    (Handler.invalidArgument
      "request should have contained an operation object")
  ensureRepoRegisteredError req.repoId "writing operations"
  let opId := hashOperation P op
  modify fun s => s.putOperation req.repoId opId op
  return { operationId := opId }

def readView (req : ReadViewRequest) : Handler ReadViewResponse := do
  ensureRepoRegisteredError req.repoId "reading views"
  match (← get).getView req.repoId req.viewId with
  | some view => return { viewId := req.viewId, view := some view }
  | none =>
      if req.viewId = rootViewIdBytes then
        return { viewId := req.viewId, view := some rootView }
      else
        Handler.notFound (missingMessage "view" req.viewId req.repoId)

def writeView (req : WriteViewRequest) : Handler WriteViewResponse := do
  let view ← Handler.okOr req.view
    (Handler.invalidArgument "request should have contained a view object")
  ensureRepoRegisteredError req.repoId "writing views"
  let viewId := hashView P view
  modify fun s => s.putView req.repoId viewId view
  return { viewId := viewId }

def getOpHeads (req : GetOpHeadsRequest) : Handler GetOpHeadsResponse := do
  ensureRepoRegisteredError req.repoId "requesting op heads"
  let heads := ((← get).getOpHeads req.repoId).getD [rootOperationIdBytes]
  return { opHeadIds := heads }

def updateOpHeads (req : UpdateOpHeadsRequest) :
    Handler UpdateOpHeadsResponse := do
  ensureRepoRegisteredError req.repoId "updating op heads"
  let (currentHeads, s) :=
    (← get).updateOpHeads req.repoId req.oldOpHeadIds req.newOpHeadId
  set s
  return { currentOpHeadIds := currentHeads }

/-! ## What a call does -/

section Calls

variable {P} (s : MemoryStore)

theorem call_readOperation (req : ReadOperationRequest) :
    (readOperation req).call s =
      if s.isRepoRegistered req.repoId then
        match s.getOperation req.repoId req.operationId with
        | some op => (.ok { operation := some op }, s)
        | none =>
            if req.operationId = rootOperationIdBytes then
              (.ok { operation := some rootOperation }, s)
            else (.error (.status ⟨.notFound,
              missingMessage "operation" req.operationId req.repoId⟩), s)
      else unregistered s "reading operations" req.repoId := by
  unfold readOperation
  cases hreg : s.isRepoRegistered req.repoId with
  | false => simp [hreg, unregistered]
  | true =>
      cases hget : s.getOperation req.repoId req.operationId with
      | some op => simp [hreg, hget]
      | none =>
          by_cases hroot : req.operationId = rootOperationIdBytes
          · rw [hroot] at hget
            simp [hreg, hget, hroot]
          · simp [hreg, hget, hroot]

theorem readOperation_state (req : ReadOperationRequest) :
    ((readOperation req).call s).2 = s := by
  rw [call_readOperation]
  split
  · split
    · rfl
    · split <;> rfl
  · rfl

theorem call_writeOperation (req : WriteOperationRequest) :
    (writeOperation P req).call s =
      match req.operation with
      | none => (.error (.status ⟨.invalidArgument,
          "request should have contained an operation object"⟩), s)
      | some op =>
          if s.isRepoRegistered req.repoId then
            (.ok { operationId := hashOperation P op },
              s.putOperation req.repoId (hashOperation P op) op)
          else unregistered s "writing operations" req.repoId := by
  unfold writeOperation
  cases hop : req.operation with
  | none => simp
  | some op =>
      cases hreg : s.isRepoRegistered req.repoId <;> simp [hreg, unregistered]

theorem call_readView (req : ReadViewRequest) :
    (readView req).call s =
      if s.isRepoRegistered req.repoId then
        match s.getView req.repoId req.viewId with
        | some view => (.ok { viewId := req.viewId, view := some view }, s)
        | none =>
            if req.viewId = rootViewIdBytes then
              (.ok { viewId := req.viewId, view := some rootView }, s)
            else (.error (.status ⟨.notFound,
              missingMessage "view" req.viewId req.repoId⟩), s)
      else unregistered s "reading views" req.repoId := by
  unfold readView
  cases hreg : s.isRepoRegistered req.repoId with
  | false => simp [hreg, unregistered]
  | true =>
      cases hget : s.getView req.repoId req.viewId with
      | some view => simp [hreg, hget]
      | none =>
          by_cases hroot : req.viewId = rootViewIdBytes
          · rw [hroot] at hget
            simp [hreg, hget, hroot]
          · simp [hreg, hget, hroot]

theorem readView_state (req : ReadViewRequest) :
    ((readView req).call s).2 = s := by
  rw [call_readView]
  split
  · split
    · rfl
    · split <;> rfl
  · rfl

theorem call_writeView (req : WriteViewRequest) :
    (writeView P req).call s =
      match req.view with
      | none => (.error (.status ⟨.invalidArgument,
          "request should have contained a view object"⟩), s)
      | some view =>
          if s.isRepoRegistered req.repoId then
            (.ok { viewId := hashView P view },
              s.putView req.repoId (hashView P view) view)
          else unregistered s "writing views" req.repoId := by
  unfold writeView
  cases hview : req.view with
  | none => simp
  | some view =>
      cases hreg : s.isRepoRegistered req.repoId <;> simp [hreg, unregistered]

theorem call_getOpHeads (req : GetOpHeadsRequest) :
    (getOpHeads req).call s =
      if s.isRepoRegistered req.repoId then
        (.ok { opHeadIds := s.heads req.repoId }, s)
      else unregistered s "requesting op heads" req.repoId := by
  unfold getOpHeads
  cases hreg : s.isRepoRegistered req.repoId <;>
    simp [hreg, unregistered, MemoryStore.heads]

theorem getOpHeads_state (req : GetOpHeadsRequest) :
    ((getOpHeads req).call s).2 = s := by
  rw [call_getOpHeads]
  split <;> rfl

theorem call_updateOpHeads (req : UpdateOpHeadsRequest) :
    (updateOpHeads req).call s =
      if s.isRepoRegistered req.repoId then
        let updated := s.updateOpHeads req.repoId req.oldOpHeadIds
          req.newOpHeadId
        (.ok { currentOpHeadIds := updated.1 }, updated.2)
      else unregistered s "updating op heads" req.repoId := by
  unfold updateOpHeads
  cases hreg : s.isRepoRegistered req.repoId <;> simp [hreg, unregistered]

end Calls

end CommitCloud.Server.OpStoreService
