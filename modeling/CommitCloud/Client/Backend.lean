import CommitCloud.Client.Session
import CommitCloud.JjLib.Backend

/-!
# The client's backend

`lib/src/cc_backend.rs`: commits, trees and files of jj to messages and back,
and the remote calls that write and read them.
-/

namespace CommitCloud.Client.Backend

open Foundation CommitCloud.Server

/-! ## Errors -/

inductive BackendError where
  | objectNotFound (objectType hash : String) (source : Status)
  | unsupported (message : String)
  | other (source : ClientError)
  deriving DecidableEq

inductive BackendFailure where
  | error (error : BackendError)
  | panicked
  deriving DecidableEq

abbrev BackendResult (α : Type) := Except BackendFailure α

/-- A method of the backend, on the store of the server it is connected to. -/
abbrev BackendCall (α : Type) := MemoryStore → BackendResult α × MemoryStore

def fail {α : Type} (error : BackendError) : BackendResult α := .error (.error error)

def otherMessage (message : String) : BackendError := .other (.response message)

/-- What panics gives no value. -/
def orPanic {α : Type} (value : Option α) : BackendResult α :=
  value.elim (.error .panicked) .ok

theorem orPanic_eq_ok_iff {α : Type} {value : Option α} {a : α} :
    orPanic value = .ok a ↔ value = some a := by
  cases value <;> simp [orPanic]

/-- Reads report an object that is not found as missing. -/
def readFailure (objectType : String) (id : Bytes) : Failure → BackendError
  | .status ⟨.notFound, message⟩ =>
      .objectNotFound objectType (hexEncode id) ⟨.notFound, message⟩
  | failure => .other (.rpc failure)

def writeFailure (failure : Failure) : BackendError := .other (.rpc failure)

def rpc {α β : Type} (handler : Handler α) (onFailure : Failure → BackendError)
    (decode : α → BackendResult β) : BackendCall β :=
  remoteCall handler (fun failure => .error (onFailure failure)) decode

/-! ## Commits -/

def signatureToProto (sig : Jj.Signature) : Proto.Backend.Signature where
  name := sig.name
  email := sig.email
  timestamp := some {
    millisSinceEpoch := sig.timestamp.timestamp
    tzOffset := sig.timestamp.tzOffset }

def signatureFromProto (proto : Proto.Backend.Signature) : Jj.Signature :=
  let ts := proto.timestamp.getD {}
  { name := proto.name
    email := proto.email
    timestamp := { timestamp := ts.millisSinceEpoch, tzOffset := ts.tzOffset } }

def commitToProto (commit : Jj.Commit) : Proto.Backend.Commit where
  commitId := []
  changeId := commit.changeId
  parentCommitIds := commit.parents
  rootTreeId := commit.rootTree.values
  description := commit.description
  author := some (signatureToProto commit.author)
  committer := some (signatureToProto commit.committer)
  predecessors := commit.predecessors
  conflictLabels := commit.conflictLabels.values
  secureSig := commit.secureSig.map (·.sig)

variable (B : JjBackend)

/-- The signature in the message is not read; `none` is a panic of `jj-lib`. -/
def commitFromProto (proto : Proto.Backend.Commit) : Option Jj.Commit := do
  let rootTree ← B.buildMerge proto.rootTreeId
  let conflictLabels ← B.labelsFromVec proto.conflictLabels
  return {
    parents := proto.parentCommitIds
    predecessors := proto.predecessors
    rootTree := rootTree
    conflictLabels := conflictLabels
    changeId := proto.changeId
    description := proto.description
    author := signatureFromProto (proto.author.getD {})
    committer := signatureFromProto (proto.committer.getD {})
    secureSig := none }

/-! ## Trees -/

def treeEntryToProto (entry : Jj.RepoPathComponent × Jj.TreeValue) :
    Except BackendError Proto.Backend.TreeEntry := do
  let value ← match entry.2 with
    | .file id executable copyId => pure (.file {
        id := id
        executable := executable
        copyId := copyId })
    | .symlink id => pure (.symlinkId id)
    | .tree id => pure (.treeId id)
    | .gitSubmodule _ =>
        throw (.unsupported "Git submodules are not supported")
  return { name := entry.1.value, value := some { value := some value } }

/-- A copy id of another length than an id's is replaced by zeros. -/
def copyIdFromProto (copyId : Bytes) : Jj.CopyId :=
  if copyId.length = commitIdLength then copyId else rootCommitIdBytes

def treeEntryFromProto (entry : Proto.Backend.TreeEntry) :
    Except String (Jj.RepoPathComponent × Jj.TreeValue) := do
  let component ← B.newComponent entry.name
  let value ← entry.value.elim
    (throw "tree entry should have contained a TreeValue") pure
  let value ← value.value.elim
    (throw "TreeValue should have contained an inner value") pure
  match value with
  | .file f => return (component, .file f.id f.executable (copyIdFromProto f.copyId))
  | .symlinkId id => return (component, .symlink id)
  | .treeId id => return (component, .tree id)
  | .conflictId _ => throw "tree entry should not have contained a ConflictId"

/-- `none` if the entries are not in ascending order. -/
def treeFromProto (entries : List Proto.Backend.TreeEntry) :
    BackendResult Jj.Tree :=
  match entries.mapM (treeEntryFromProto B) with
  | .ok entries => orPanic (Jj.Tree.fromSortedEntries entries)
  | .error message => fail (otherMessage message)

/-! ## Remote calls -/

/--
The server's stream arrives in order, cut into any chunks.  Messages of any size
arrive; the limit of four megabytes of the gRPC library is left out.
-/
structure Delivery where
  cut : List Proto.Backend.ReadFileResponse → List Proto.Backend.ReadFileResponse
  joined : ∀ stream,
    (cut stream).flatMap (·.chunk) = stream.flatMap (·.chunk)

def Delivery.whole : Delivery := ⟨id, fun _ => rfl⟩

variable (P : Platform) (D : Delivery) (repoId : RepoId)

/-- `uuid` is the identifier the server draws for the new repository. -/
def init (uuid : RepoId) : BackendCall RepoId :=
  rpc (BackendService.registerRepository {} uuid) writeFailure
    fun response => .ok response.repoId

def readFile (id : FileId) : BackendCall Bytes :=
  rpc (BackendService.readFile { repoId := repoId, fileId := id })
    (readFailure "file" id)
    fun stream => .ok
      ((D.cut stream).foldl (fun content chunk => content ++ chunk.chunk) [])

/-- `contents` is what the reader yields up to its end. -/
def writeFile (contents : Bytes) : BackendCall FileId :=
  rpc (BackendService.writeFile P { repoId := repoId, content := contents })
    writeFailure fun response => .ok response.fileId

def readSymlink : BackendResult String :=
  fail (.unsupported "read_symlink not supported")

def writeSymlink : BackendResult Jj.SymlinkId :=
  fail (.unsupported "write_symlink not supported")

def readTree (path : String) (id : TreeId) : BackendCall Jj.Tree :=
  if id = emptyTreeIdBytes then
    fun s => (orPanic (Jj.Tree.fromSortedEntries []), s)
  else
    rpc (BackendService.readTree { repoId := repoId, treeId := id, path := path })
      (readFailure "tree" id) fun response => treeFromProto B response.entries

def writeTree (path : String) (tree : Jj.Tree) : BackendCall TreeId :=
  if tree.entries.isEmpty then fun s => (.ok emptyTreeIdBytes, s)
  else
    match tree.entries.mapM treeEntryToProto with
    | .error error => fun s => (fail error, s)
    | .ok entries =>
        rpc (BackendService.writeTree P
          { repoId := repoId, path := path, entries := entries })
          writeFailure fun response => .ok response.treeId

def readCommit (id : CommitId) : BackendCall Jj.Commit :=
  if id = rootCommitIdBytes then
    fun s => (.ok (B.makeRootCommit rootChangeIdBytes emptyTreeIdBytes), s)
  else
    rpc (BackendService.readCommit { repoId := repoId, commitId := id })
      (readFailure "commit" id) fun response =>
        match response.commit with
        | some commit => orPanic (commitFromProto B commit)
        | none => fail
            (otherMessage "server response should have contained commit data")

/-- Signs data, or fails. -/
abbrev SigningFn := Bytes → Option Bytes

/-- The signing function is not called. -/
def writeCommit (commit : Jj.Commit) (_signWith : Option SigningFn) :
    BackendCall (CommitId × Jj.Commit) :=
  rpc (BackendService.writeCommit P
    { repoId := repoId, commit := some (commitToProto commit) })
    writeFailure fun response => .ok (response.commitId, commit)

end CommitCloud.Client.Backend
