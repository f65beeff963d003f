import CommitCloud.Common
import CommitCloud.Foundation.Maps

/-!
# Operation store messages

The messages of `common/proto/op_store.proto`.  Protobuf maps are hash maps:
their iteration order is not part of a message.  `Operation.Equiv` and `View.Equiv` are
equality of messages in that sense; `View.SameUpToOrder` moreover ignores the
order of heads and of the terms of a target.
-/

namespace CommitCloud.Proto.OpStore

open Foundation

structure OperationMetadata where
  startTimeMillis : Int64 := 0
  endTimeMillis : Int64 := 0
  description : String := ""
  isSnapshot : Bool := false
  workspaceName : Option String := none
  hostname : String := ""
  username : String := ""
  attributes : HashMap String String := .empty
  deriving DecidableEq

structure CommitPredecessors where
  commitId : Bytes := []
  predecessorIds : List Bytes := []
  deriving DecidableEq

structure Operation where
  viewId : Bytes := []
  parents : List Bytes := []
  metadata : Option OperationMetadata := none
  commitPredecessors : List CommitPredecessors := []
  commitPredecessorsSet : Bool := false
  deriving DecidableEq

structure RefTargetTerm where
  commitId : Bytes := []
  deriving DecidableEq

structure RefTarget where
  removes : List RefTargetTerm := []
  adds : List RefTargetTerm := []
  deriving DecidableEq

structure RemoteRef where
  target : Option RefTarget := none
  isTracked : Bool := false
  deriving DecidableEq

structure View where
  headIds : List Bytes := []
  wcCommitIds : HashMap String Bytes := .empty
  localBookmarks : HashMap String RefTarget := .empty
  remoteBookmarks : HashMap String RemoteRef := .empty
  deriving DecidableEq

/-! ## Equality of messages -/

def OperationMetadata.Equiv (a b : OperationMetadata) : Prop :=
  { a with attributes := .empty } = { b with attributes := .empty } ∧
    a.attributes.Equiv b.attributes

def Operation.Equiv (a b : Operation) : Prop :=
  { a with metadata := none } = { b with metadata := none } ∧
    Option.Rel OperationMetadata.Equiv a.metadata b.metadata

@[refl] theorem Operation.Equiv.refl (op : Operation) : op.Equiv op := by
  refine ⟨rfl, ?_⟩
  cases op.metadata with
  | none => exact .none
  | some metadata => exact .some ⟨rfl, .refl _⟩

structure View.Equiv (a b : View) : Prop where
  headIds : a.headIds = b.headIds
  wcCommitIds : a.wcCommitIds.Equiv b.wcCommitIds
  localBookmarks : a.localBookmarks.Equiv b.localBookmarks
  remoteBookmarks : a.remoteBookmarks.Equiv b.remoteBookmarks

@[refl] theorem View.Equiv.refl (view : View) : view.Equiv view :=
  ⟨rfl, .refl _, .refl _, .refl _⟩

@[trans] theorem View.Equiv.trans {a b c : View} (h : a.Equiv b)
    (h' : b.Equiv c) : a.Equiv c where
  headIds := h.headIds.trans h'.headIds
  wcCommitIds := h.wcCommitIds.trans h'.wcCommitIds
  localBookmarks := h.localBookmarks.trans h'.localBookmarks
  remoteBookmarks := h.remoteBookmarks.trans h'.remoteBookmarks

def RefTarget.SameTerms (a b : RefTarget) : Prop :=
  a.removes.Perm b.removes ∧ a.adds.Perm b.adds

def RemoteRef.SameTerms (a b : RemoteRef) : Prop :=
  a.isTracked = b.isTracked ∧ Option.Rel RefTarget.SameTerms a.target b.target

structure View.SameUpToOrder (a b : View) : Prop where
  headIds : a.headIds.Perm b.headIds
  wcCommitIds : a.wcCommitIds.Equiv b.wcCommitIds
  localBookmarks : ∀ name, Option.Rel RefTarget.SameTerms
    (a.localBookmarks.get name) (b.localBookmarks.get name)
  remoteBookmarks : ∀ name, Option.Rel RemoteRef.SameTerms
    (a.remoteBookmarks.get name) (b.remoteBookmarks.get name)

@[refl] theorem RefTarget.SameTerms.refl (target : RefTarget) :
    target.SameTerms target := ⟨.rfl, .rfl⟩

@[refl] theorem RemoteRef.SameTerms.refl (remote : RemoteRef) :
    remote.SameTerms remote := by
  refine ⟨rfl, ?_⟩
  cases remote.target with
  | none => exact .none
  | some target => exact .some (.refl target)

theorem View.Equiv.sameUpToOrder {a b : View} (h : a.Equiv b) :
    a.SameUpToOrder b where
  headIds := h.headIds ▸ .rfl
  wcCommitIds := h.wcCommitIds
  localBookmarks name := by
    rw [HashMap.equiv_iff_get.mp h.localBookmarks name]
    cases b.localBookmarks.get name with
    | none => exact .none
    | some target => exact .some (.refl target)
  remoteBookmarks name := by
    rw [HashMap.equiv_iff_get.mp h.remoteBookmarks name]
    cases b.remoteBookmarks.get name with
    | none => exact .none
    | some remote => exact .some (.refl remote)

/-! ## Requests and responses -/

structure ReadOperationRequest where
  repoId : RepoId
  operationId : Bytes
  deriving DecidableEq

structure ReadOperationResponse where
  operation : Option Operation
  deriving DecidableEq

structure WriteOperationRequest where
  repoId : RepoId
  operation : Option Operation
  deriving DecidableEq

structure WriteOperationResponse where
  operationId : Bytes
  deriving DecidableEq

structure ReadViewRequest where
  repoId : RepoId
  viewId : Bytes
  deriving DecidableEq

structure ReadViewResponse where
  viewId : Bytes
  view : Option View
  deriving DecidableEq

structure WriteViewRequest where
  repoId : RepoId
  view : Option View
  deriving DecidableEq

structure WriteViewResponse where
  viewId : Bytes
  deriving DecidableEq

structure GetOpHeadsRequest where
  repoId : RepoId
  deriving DecidableEq

structure GetOpHeadsResponse where
  opHeadIds : List Bytes
  deriving DecidableEq

structure UpdateOpHeadsRequest where
  repoId : RepoId
  oldOpHeadIds : List Bytes
  newOpHeadId : Bytes
  deriving DecidableEq

structure UpdateOpHeadsResponse where
  currentOpHeadIds : List Bytes
  deriving DecidableEq

end CommitCloud.Proto.OpStore
