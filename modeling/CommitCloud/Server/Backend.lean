import CommitCloud.Server.Handler
import CommitCloud.Server.HashUtils

/-!
# The backend service

The handlers of `server/src/backend.rs`, and for each handler what a call does:
one lemma that later proofs use instead of the definition.
-/

namespace CommitCloud.Server.BackendService

open Foundation CommitCloud.Proto.Backend

variable (P : Platform)

/-- `uuid` is the identifier drawn while the call runs. -/
def registerRepository (_req : RegisterRepositoryRequest) (uuid : RepoId) :
    Handler RegisterRepositoryResponse := do
  modify fun s => s.registerRepo uuid
  return { repoId := uuid }

def readCommit (req : ReadCommitRequest) : Handler ReadCommitResponse := do
  ensureRepoRegisteredError req.repoId "requesting commits"
  match (← get).getCommit req.repoId req.commitId with
  | some commit => return { commit := some commit }
  | none =>
      Handler.notFound "commit should have been present in cloud database"

/-- The hash of the commit, unless the request names an id itself. -/
def commitIdOf (commit : Commit) : Option Bytes :=
  if commit.commitId.isEmpty then computeGitCommitHash P commit
  else some commit.commitId

def writeCommit (req : WriteCommitRequest) : Handler WriteCommitResponse := do
  ensureRepoRegisteredError req.repoId "requesting commits"
  let commit ← Handler.okOr req.commit
    (Handler.invalidArgument "request should have contained commit data")
  let commitId ← Handler.orPanic (commitIdOf P commit)
  let commit := { commit with commitId := commitId }
  modify fun s => s.putCommit req.repoId commitId commit
  return { commitId := commitId }

def readTree (req : ReadTreeRequest) : Handler ReadTreeResponse := do
  ensureRepoRegisteredError req.repoId "requesting trees"
  if req.treeId = emptyTreeIdBytes then
    return { treeId := req.treeId, entries := [] }
  match (← get).getTree req.repoId req.treeId with
  | some entries => return { treeId := req.treeId, entries := entries }
  | none =>
      Handler.notFound "tree should have been present in cloud database"

def writeTree (req : WriteTreeRequest) : Handler WriteTreeResponse := do
  ensureRepoRegisteredError req.repoId "writing trees"
  let treeId ← Handler.orPanic (computeGitTreeHash P req.entries)
  modify fun s => s.putTree req.repoId treeId req.entries
  return { treeId := treeId }

/-- The stream of chunks: the server sends the whole content as one. -/
def readFile (req : ReadFileRequest) : Handler (List ReadFileResponse) := do
  ensureRepoRegisteredError req.repoId "reading files"
  let content ← Handler.okOr ((← get).getFile req.repoId req.fileId)
    (Handler.notFound "file should have been present in cloud database")
  return [{ chunk := content }]

def writeFile (req : WriteFileRequest) : Handler WriteFileResponse := do
  ensureRepoRegisteredError req.repoId "writing files"
  let fileId := computeGitBlobHash P req.content
  modify fun s => s.putFile req.repoId fileId req.content
  return { fileId := fileId }

def readSymlink (_req : ReadSymlinkRequest) : Handler ReadSymlinkResponse :=
  Handler.unimplemented "Not implemented yet"

def writeSymlink (_req : WriteSymlinkRequest) : Handler WriteSymlinkResponse :=
  Handler.unimplemented "Not implemented yet"

/-! ## What a call does -/

section Calls

variable {P} (s : MemoryStore)

theorem call_registerRepository (req : RegisterRepositoryRequest)
    (uuid : RepoId) :
    (registerRepository req uuid).call s =
      (.ok { repoId := uuid }, s.registerRepo uuid) := rfl

theorem call_readCommit (req : ReadCommitRequest) :
    (readCommit req).call s =
      if s.isRepoRegistered req.repoId then
        match s.getCommit req.repoId req.commitId with
        | some commit => (.ok { commit := some commit }, s)
        | none => (.error (.status ⟨.notFound,
            "commit should have been present in cloud database"⟩), s)
      else unregistered s "requesting commits" req.repoId := by
  unfold readCommit
  cases hreg : s.isRepoRegistered req.repoId <;>
    cases hget : s.getCommit req.repoId req.commitId <;>
    simp [hreg, hget, unregistered]

theorem readCommit_state (req : ReadCommitRequest) :
    ((readCommit req).call s).2 = s := by
  rw [call_readCommit]
  split
  · split <;> rfl
  · rfl

theorem call_writeCommit (req : WriteCommitRequest) :
    (writeCommit P req).call s =
      if s.isRepoRegistered req.repoId then
        match req.commit with
        | none => (.error (.status ⟨.invalidArgument,
            "request should have contained commit data"⟩), s)
        | some commit =>
            match commitIdOf P commit with
            | none => (.error .panicked, s)
            | some commitId =>
                (.ok { commitId := commitId }, s.putCommit req.repoId commitId
                  { commit with commitId := commitId })
      else unregistered s "requesting commits" req.repoId := by
  unfold writeCommit
  cases hreg : s.isRepoRegistered req.repoId with
  | false => simp [hreg, unregistered]
  | true =>
      cases hcommit : req.commit with
      | none => simp [hreg]
      | some commit =>
          cases hid : commitIdOf P commit <;> simp [hreg, hid]

theorem call_readTree (req : ReadTreeRequest) :
    (readTree req).call s =
      if s.isRepoRegistered req.repoId then
        if req.treeId = emptyTreeIdBytes then
          (.ok { treeId := req.treeId, entries := [] }, s)
        else
          match s.getTree req.repoId req.treeId with
          | some entries =>
              (.ok { treeId := req.treeId, entries := entries }, s)
          | none => (.error (.status ⟨.notFound,
              "tree should have been present in cloud database"⟩), s)
      else unregistered s "requesting trees" req.repoId := by
  unfold readTree
  cases hreg : s.isRepoRegistered req.repoId with
  | false => simp [hreg, unregistered]
  | true =>
      by_cases hempty : req.treeId = emptyTreeIdBytes
      · simp [hreg, hempty]
      · cases hget : s.getTree req.repoId req.treeId <;>
          simp [hreg, hempty, hget]

theorem readTree_state (req : ReadTreeRequest) :
    ((readTree req).call s).2 = s := by
  rw [call_readTree]
  split
  · split
    · rfl
    · split <;> rfl
  · rfl

theorem call_writeTree (req : WriteTreeRequest) :
    (writeTree P req).call s =
      if s.isRepoRegistered req.repoId then
        match computeGitTreeHash P req.entries with
        | none => (.error .panicked, s)
        | some treeId =>
            (.ok { treeId := treeId }, s.putTree req.repoId treeId req.entries)
      else unregistered s "writing trees" req.repoId := by
  unfold writeTree
  cases hreg : s.isRepoRegistered req.repoId with
  | false => simp [hreg, unregistered]
  | true =>
      cases hhash : computeGitTreeHash P req.entries <;> simp [hreg]

theorem call_readFile (req : ReadFileRequest) :
    (readFile req).call s =
      if s.isRepoRegistered req.repoId then
        match s.getFile req.repoId req.fileId with
        | some content => (.ok [{ chunk := content }], s)
        | none => (.error (.status ⟨.notFound,
            "file should have been present in cloud database"⟩), s)
      else unregistered s "reading files" req.repoId := by
  unfold readFile
  cases hreg : s.isRepoRegistered req.repoId <;>
    cases hget : s.getFile req.repoId req.fileId <;>
    simp [hreg, hget, unregistered]

theorem readFile_state (req : ReadFileRequest) :
    ((readFile req).call s).2 = s := by
  rw [call_readFile]
  split
  · split <;> rfl
  · rfl

theorem call_writeFile (req : WriteFileRequest) :
    (writeFile P req).call s =
      if s.isRepoRegistered req.repoId then
        (.ok { fileId := computeGitBlobHash P req.content },
          s.putFile req.repoId (computeGitBlobHash P req.content) req.content)
      else unregistered s "writing files" req.repoId := by
  unfold writeFile
  cases hreg : s.isRepoRegistered req.repoId <;> simp [hreg, unregistered]

end Calls

end CommitCloud.Server.BackendService
