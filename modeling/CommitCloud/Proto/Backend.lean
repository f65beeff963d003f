import CommitCloud.Common

/-!
# Backend messages

The messages of `common/proto/backend.proto`.  A singular message field may be
missing, hence an `Option`; scalar and repeated fields have their protobuf
defaults.
-/

namespace CommitCloud.Proto.Backend

open Foundation

structure RegisterRepositoryRequest where
  name : Option String := none
  deriving DecidableEq

structure RegisterRepositoryResponse where
  repoId : RepoId
  deriving DecidableEq

structure Timestamp where
  millisSinceEpoch : Int64 := 0
  tzOffset : Int32 := 0
  deriving DecidableEq

structure Signature where
  name : String := ""
  email : String := ""
  timestamp : Option Timestamp := none
  deriving DecidableEq

structure Commit where
  commitId : Bytes := []
  changeId : Bytes := []
  parentCommitIds : List Bytes := []
  rootTreeId : List Bytes := []
  description : String := ""
  author : Option Signature := none
  committer : Option Signature := none
  predecessors : List Bytes := []
  conflictLabels : List String := []
  secureSig : Option Bytes := none
  deriving DecidableEq

structure ReadCommitRequest where
  repoId : RepoId
  commitId : Bytes
  deriving DecidableEq

structure ReadCommitResponse where
  commit : Option Commit
  deriving DecidableEq

structure WriteCommitRequest where
  repoId : RepoId
  commit : Option Commit
  deriving DecidableEq

structure WriteCommitResponse where
  commitId : Bytes
  deriving DecidableEq

structure File where
  id : Bytes := []
  executable : Bool := false
  copyId : Bytes := []
  deriving DecidableEq

/-- The `oneof` inside `TreeValue`. -/
inductive TreeValue.Value where
  | file (file : File)
  | symlinkId (id : Bytes)
  | treeId (id : Bytes)
  | conflictId (id : Bytes)
  deriving DecidableEq

structure TreeValue where
  value : Option TreeValue.Value := none
  deriving DecidableEq

structure TreeEntry where
  name : String := ""
  value : Option TreeValue := none
  deriving DecidableEq

structure ReadTreeRequest where
  repoId : RepoId
  treeId : Bytes
  path : String := ""
  deriving DecidableEq

structure ReadTreeResponse where
  treeId : Bytes
  entries : List TreeEntry
  deriving DecidableEq

structure WriteTreeRequest where
  repoId : RepoId
  path : String := ""
  entries : List TreeEntry
  deriving DecidableEq

structure WriteTreeResponse where
  treeId : Bytes
  deriving DecidableEq

structure ReadFileRequest where
  repoId : RepoId
  fileId : Bytes
  deriving DecidableEq

structure ReadFileResponse where
  chunk : Bytes
  deriving DecidableEq

structure WriteFileRequest where
  repoId : RepoId
  content : Bytes
  deriving DecidableEq

structure WriteFileResponse where
  fileId : Bytes
  deriving DecidableEq

structure ReadSymlinkRequest where
  repoId : RepoId
  symlinkId : Bytes
  deriving DecidableEq

structure ReadSymlinkResponse where
  target : String
  deriving DecidableEq

structure WriteSymlinkRequest where
  repoId : RepoId
  target : String
  deriving DecidableEq

structure WriteSymlinkResponse where
  symlinkId : Bytes
  deriving DecidableEq

end CommitCloud.Proto.Backend
