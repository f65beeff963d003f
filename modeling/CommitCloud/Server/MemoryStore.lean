import CommitCloud.Foundation.Tables
import CommitCloud.Proto.Backend
import CommitCloud.Proto.OpStore

/-!
# The in-memory store

`server/src/store/memorystore.rs`: one table for each kind of object, keyed by
repository and object id, the registered repositories, and each repository's
operation heads.  Every method of the source locks one table and is atomic.
-/

namespace CommitCloud.Server

open Foundation CommitCloud.Proto.Backend CommitCloud.Proto.OpStore

structure MemoryStore where
  repos : RepoId → Bool
  commits : Nested RepoId CommitId Commit
  trees : Nested RepoId TreeId (List TreeEntry)
  files : Nested RepoId FileId Bytes
  ops : Nested RepoId OpId Operation
  views : Nested RepoId ViewId View
  opHeads : Table RepoId (List OpId)

/--
The new head list.  Superseded heads are removed; the new id is appended when
no old ids were given or one of them was removed, unless it is a head already.
-/
def updateHeads (currentHeads oldIds : List OpId) (newId : OpId) : List OpId :=
  if oldIds.isEmpty then
    if currentHeads.contains newId then currentHeads
    else currentHeads ++ [newId]
  else
    let removedAny := currentHeads.any fun head => oldIds.contains head
    let retained := currentHeads.filter fun head => !oldIds.contains head
    if removedAny && !retained.contains newId then retained ++ [newId]
    else retained

namespace MemoryStore

def new : MemoryStore where
  repos := fun _ => false
  commits := Table.empty
  trees := Table.empty
  files := Table.empty
  ops := Table.empty
  views := Table.empty
  opHeads := Table.empty

def isRepoRegistered (s : MemoryStore) (repoId : RepoId) : Bool :=
  s.repos repoId

def registerRepo (s : MemoryStore) (repoId : RepoId) : MemoryStore :=
  { s with repos := Function.update s.repos repoId true }

def getCommit (s : MemoryStore) (repoId : RepoId) (commitId : CommitId) :
    Option Commit :=
  s.commits.lookup repoId commitId

def putCommit (s : MemoryStore) (repoId : RepoId) (commitId : CommitId)
    (commit : Commit) : MemoryStore :=
  { s with commits := s.commits.put repoId commitId commit }

def getTree (s : MemoryStore) (repoId : RepoId) (treeId : TreeId) :
    Option (List TreeEntry) :=
  s.trees.lookup repoId treeId

def putTree (s : MemoryStore) (repoId : RepoId) (treeId : TreeId)
    (entries : List TreeEntry) : MemoryStore :=
  { s with trees := s.trees.put repoId treeId entries }

def getFile (s : MemoryStore) (repoId : RepoId) (fileId : FileId) :
    Option Bytes :=
  s.files.lookup repoId fileId

def putFile (s : MemoryStore) (repoId : RepoId) (fileId : FileId)
    (content : Bytes) : MemoryStore :=
  { s with files := s.files.put repoId fileId content }

def getOperation (s : MemoryStore) (repoId : RepoId) (opId : OpId) :
    Option Operation :=
  s.ops.lookup repoId opId

def putOperation (s : MemoryStore) (repoId : RepoId) (opId : OpId)
    (op : Operation) : MemoryStore :=
  { s with ops := s.ops.put repoId opId op }

def getView (s : MemoryStore) (repoId : RepoId) (viewId : ViewId) :
    Option View :=
  s.views.lookup repoId viewId

def putView (s : MemoryStore) (repoId : RepoId) (viewId : ViewId)
    (view : View) : MemoryStore :=
  { s with views := s.views.put repoId viewId view }

def getOpHeads (s : MemoryStore) (repoId : RepoId) : Option (List OpId) :=
  s.opHeads repoId

/-- The heads before the update are those of the entry, created on demand. -/
def updateOpHeads (s : MemoryStore) (repoId : RepoId) (oldIds : List OpId)
    (newId : OpId) : List OpId × MemoryStore :=
  let currentHeads := (s.opHeads repoId).getD [rootOperationIdBytes]
  let heads := updateHeads currentHeads oldIds newId
  (heads, { s with opHeads := s.opHeads.insert repoId heads })

/-- The heads a client is told: the root operation where no entry exists. -/
def heads (s : MemoryStore) (repoId : RepoId) : List OpId :=
  (s.getOpHeads repoId).getD [rootOperationIdBytes]

end MemoryStore

end CommitCloud.Server
