import CommitCloud.Client.Session
import CommitCloud.Foundation.Delimited
import CommitCloud.JjLib

/-!
# The client's operation store

`lib/src/cc_op_store.rs`: operations and views of jj to messages and back, and
the remote calls that write and read them.
-/

namespace CommitCloud.Client.OpStore

open Foundation CommitCloud.Server

variable (J : JjLib)

/-! ## Targets -/

def refTargetToProto (target : J.RefTarget) : Proto.OpStore.RefTarget where
  removes := (J.removedIds target).map fun id => { commitId := id }
  adds := (J.addedIds target).map fun id => { commitId := id }

def refTargetFromProto (target : Proto.OpStore.RefTarget) : J.RefTarget :=
  J.fromLegacyForm (target.removes.map (·.commitId))
    (target.adds.map (·.commitId))

/-! ## Operations -/

def operationToProto (op : Jj.Operation) : Proto.OpStore.Operation where
  viewId := op.viewId
  parents := op.parents
  metadata := some {
    startTimeMillis := op.metadata.time.start.timestamp
    endTimeMillis := op.metadata.time.end_.timestamp
    description := op.metadata.description
    hostname := op.metadata.hostname
    username := op.metadata.username
    isSnapshot := op.metadata.isSnapshot
    workspaceName := op.metadata.workspaceName
    attributes := HashMap.collect op.metadata.attributes.entries }
  commitPredecessors :=
    match op.commitPredecessors with
    | some map => map.entries.map fun entry =>
        { commitId := entry.1, predecessorIds := entry.2 }
    | none => []
  commitPredecessorsSet := op.commitPredecessors.isSome

def operationFromProto (op : Proto.OpStore.Operation) : Jj.Operation :=
  let metadata := op.metadata.getD {}
  { viewId := op.viewId
    parents := op.parents
    metadata := {
      time := {
        start := { timestamp := metadata.startTimeMillis, tzOffset := 0 }
        end_ := { timestamp := metadata.endTimeMillis, tzOffset := 0 } }
      description := metadata.description
      hostname := metadata.hostname
      username := metadata.username
      isSnapshot := metadata.isSnapshot
      workspaceName := metadata.workspaceName
      attributes := HashMap.collect metadata.attributes.entries }
    commitPredecessors :=
      if op.commitPredecessorsSet then
        some (op.commitPredecessors.foldl
          (fun map pred => map.insert pred.commitId pred.predecessorIds) .empty)
      else none }

/-! ## Views -/

def remoteRefToProto (remoteRef : Jj.RemoteRef J.RefTarget) :
    Proto.OpStore.RemoteRef where
  target := some (refTargetToProto J remoteRef.target)
  isTracked := remoteRef.state = .tracked

def remoteRefFromProto (remoteRef : Proto.OpStore.RemoteRef) :
    Jj.RemoteRef J.RefTarget where
  target := (remoteRef.target.map (refTargetFromProto J)).getD J.absent
  state := if remoteRef.isTracked then .tracked else .new

/-- The key of a remote bookmark in a message: `bookmark@remote`. -/
def remoteBookmarkKey (remote bookmark : String) : String :=
  bookmark ++ "@" ++ remote

/-- A later bookmark with the same key takes the place of an earlier one. -/
def remoteBookmarksToProto
    (remoteViews : BTreeMap String (Jj.RemoteView J.RefTarget)) :
    HashMap String Proto.OpStore.RemoteRef :=
  remoteViews.entries.foldl
    (fun map remote => remote.2.bookmarks.entries.foldl
      (fun map bookmark => map.insert (remoteBookmarkKey remote.1 bookmark.1)
        (remoteRefToProto J bookmark.2)) map) .empty

def viewToProto (view : Jj.View J.RefTarget) : Proto.OpStore.View where
  headIds := view.headIds.elements
  wcCommitIds := HashMap.collect view.wcCommitIds.entries
  localBookmarks := HashMap.collect
    (view.localBookmarks.entries.map fun entry =>
      (entry.1, refTargetToProto J entry.2))
  remoteBookmarks := remoteBookmarksToProto J view.remoteViews

/-- `entry(remote).or_default().bookmarks.insert(bookmark, remote_ref)` -/
def insertRemoteBookmark {RefTarget : Type}
    (remoteViews : BTreeMap String (Jj.RemoteView RefTarget))
    (remote bookmark : String) (remoteRef : Jj.RemoteRef RefTarget) :
    BTreeMap String (Jj.RemoteView RefTarget) :=
  let remoteView := (remoteViews.get remote).getD {}
  remoteViews.insert remote
    { bookmarks := remoteView.bookmarks.insert bookmark remoteRef }

/-- A key without `@` is skipped. -/
def readRemoteBookmark (remoteViews : BTreeMap String (Jj.RemoteView J.RefTarget))
    (entry : String × Proto.OpStore.RemoteRef) :
    BTreeMap String (Jj.RemoteView J.RefTarget) :=
  match rsplitOnce '@' entry.1 with
  | some (bookmark, remote) =>
      insertRemoteBookmark remoteViews remote bookmark
        (remoteRefFromProto J entry.2)
  | none => remoteViews

def remoteViewsFromProto
    (remoteBookmarks : HashMap String Proto.OpStore.RemoteRef) :
    BTreeMap String (Jj.RemoteView J.RefTarget) :=
  remoteBookmarks.entries.foldl (readRemoteBookmark J) .empty

def viewFromProto (view : Proto.OpStore.View) : Jj.View J.RefTarget where
  headIds := HashSet.collect view.headIds
  wcCommitIds := BTreeMap.collect view.wcCommitIds.entries
  localBookmarks := BTreeMap.collect
    (view.localBookmarks.entries.map fun entry =>
      (entry.1, refTargetFromProto J entry.2))
  localTags := .empty
  remoteViews := remoteViewsFromProto J view.remoteBookmarks
  gitRefs := .empty
  gitHead := J.absent

/-! ## Remote calls -/

/--
What arrives is what was sent, up to the iteration order of maps.  A message of
any size arrives.
-/
structure Transport where
  operation : Proto.OpStore.Operation → Proto.OpStore.Operation
  view : Proto.OpStore.View → Proto.OpStore.View
  operation_equiv : ∀ op, (operation op).Equiv op
  view_equiv : ∀ message, (view message).Equiv message

def Transport.direct : Transport where
  operation := id
  view := id
  operation_equiv := .refl
  view_equiv := .refl

variable (P : Platform) (T : Transport) (repoId : RepoId)

def readView (id : ViewId) : Session (Jj.View J.RefTarget) :=
  Session.rpc (OpStoreService.readView { repoId := repoId, viewId := id })
    fun response =>
      match response.view with
      | some view => .ok (viewFromProto J (T.view view))
      | none => .error
          (.response "server response should have contained a view")

def writeView (contents : Jj.View J.RefTarget) : Session ViewId :=
  Session.rpc
    (OpStoreService.writeView P
      { repoId := repoId, view := some (T.view (viewToProto J contents)) })
    fun response => .ok response.viewId

def readOperation (id : OpId) : Session Jj.Operation :=
  Session.rpc
    (OpStoreService.readOperation { repoId := repoId, operationId := id })
    fun response =>
      match response.operation with
      | some op => .ok (operationFromProto (T.operation op))
      | none => .error
          (.response "server response should have contained an operation")

def writeOperation (contents : Jj.Operation) : Session OpId :=
  Session.rpc
    (OpStoreService.writeOperation P
      { repoId := repoId
        operation := some (T.operation (operationToProto contents)) })
    fun response => .ok response.operationId

variable {J P T repoId} {s : MemoryStore}

theorem writeView_eq (hreg : s.isRepoRegistered repoId)
    (contents : Jj.View J.RefTarget) :
    let message := T.view (viewToProto J contents)
    writeView J P T repoId contents s =
      (.ok (hashView P message), s.putView repoId (hashView P message) message) := by
  simp [writeView, Session.rpc, remoteCall, OpStoreService.call_writeView, hreg]

theorem writeOperation_eq (hreg : s.isRepoRegistered repoId)
    (contents : Jj.Operation) :
    let message := T.operation (operationToProto contents)
    writeOperation P T repoId contents s =
      (.ok (hashOperation P message),
        s.putOperation repoId (hashOperation P message) message) := by
  simp [writeOperation, Session.rpc, remoteCall, OpStoreService.call_writeOperation, hreg]

theorem readView_eq {id : ViewId} {message : Proto.OpStore.View}
    (hreg : s.isRepoRegistered repoId)
    (hstored : s.getView repoId id = some message) :
    readView J T repoId id s = (.ok (viewFromProto J (T.view message)), s) := by
  simp [readView, Session.rpc, remoteCall, OpStoreService.call_readView, hreg, hstored]

theorem readOperation_eq {id : OpId} {message : Proto.OpStore.Operation}
    (hreg : s.isRepoRegistered repoId)
    (hstored : s.getOperation repoId id = some message) :
    readOperation T repoId id s =
      (.ok (operationFromProto (T.operation message)), s) := by
  simp [readOperation, Session.rpc, remoteCall, OpStoreService.call_readOperation, hreg,
    hstored]

end CommitCloud.Client.OpStore
