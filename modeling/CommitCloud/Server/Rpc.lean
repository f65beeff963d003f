import CommitCloud.Foundation.Reactive
import CommitCloud.Server.Backend
import CommitCloud.Server.OpStore

/-!
# The server as a state machine

The remote procedures of both services as one reactive machine on the store.
`Step` lists what a call can do: which requests write, what they then answer,
and that every other call leaves the store as it was.
-/

namespace CommitCloud.Server

open Foundation CommitCloud.Proto.Backend CommitCloud.Proto.OpStore

inductive Request where
  | registerRepository (req : RegisterRepositoryRequest) (uuid : RepoId)
  | readCommit (req : ReadCommitRequest)
  | writeCommit (req : WriteCommitRequest)
  | readTree (req : ReadTreeRequest)
  | writeTree (req : WriteTreeRequest)
  | readFile (req : ReadFileRequest)
  | writeFile (req : WriteFileRequest)
  | readSymlink (req : ReadSymlinkRequest)
  | writeSymlink (req : WriteSymlinkRequest)
  | readOperation (req : ReadOperationRequest)
  | writeOperation (req : WriteOperationRequest)
  | readView (req : ReadViewRequest)
  | writeView (req : WriteViewRequest)
  | getOpHeads (req : GetOpHeadsRequest)
  | updateOpHeads (req : UpdateOpHeadsRequest)
  deriving DecidableEq

inductive Response where
  | registerRepository (res : RegisterRepositoryResponse)
  | readCommit (res : ReadCommitResponse)
  | writeCommit (res : WriteCommitResponse)
  | readTree (res : ReadTreeResponse)
  | writeTree (res : WriteTreeResponse)
  | readFile (res : List ReadFileResponse)
  | writeFile (res : WriteFileResponse)
  | readSymlink (res : ReadSymlinkResponse)
  | writeSymlink (res : WriteSymlinkResponse)
  | readOperation (res : ReadOperationResponse)
  | writeOperation (res : WriteOperationResponse)
  | readView (res : ReadViewResponse)
  | writeView (res : WriteViewResponse)
  | getOpHeads (res : GetOpHeadsResponse)
  | updateOpHeads (res : UpdateOpHeadsResponse)
  deriving DecidableEq

abbrev Answer := Except Failure Response

variable (P : Platform)

def handle : Request → Handler Response
  | .registerRepository req uuid =>
      .registerRepository <$> BackendService.registerRepository req uuid
  | .readCommit req => .readCommit <$> BackendService.readCommit req
  | .writeCommit req => .writeCommit <$> BackendService.writeCommit P req
  | .readTree req => .readTree <$> BackendService.readTree req
  | .writeTree req => .writeTree <$> BackendService.writeTree P req
  | .readFile req => .readFile <$> BackendService.readFile req
  | .writeFile req => .writeFile <$> BackendService.writeFile P req
  | .readSymlink req => .readSymlink <$> BackendService.readSymlink req
  | .writeSymlink req => .writeSymlink <$> BackendService.writeSymlink req
  | .readOperation req => .readOperation <$> OpStoreService.readOperation req
  | .writeOperation req =>
      .writeOperation <$> OpStoreService.writeOperation P req
  | .readView req => .readView <$> OpStoreService.readView req
  | .writeView req => .writeView <$> OpStoreService.writeView P req
  | .getOpHeads req => .getOpHeads <$> OpStoreService.getOpHeads req
  | .updateOpHeads req => .updateOpHeads <$> OpStoreService.updateOpHeads req

def server : Reactive MemoryStore Request Answer :=
  fun s req => (handle P req).call s

/-- The repository a request names; a registration names the one it creates. -/
def Request.repoId : Request → RepoId
  | .registerRepository _ uuid => uuid
  | .readCommit req => req.repoId
  | .writeCommit req => req.repoId
  | .readTree req => req.repoId
  | .writeTree req => req.repoId
  | .readFile req => req.repoId
  | .writeFile req => req.repoId
  | .readSymlink req => req.repoId
  | .writeSymlink req => req.repoId
  | .readOperation req => req.repoId
  | .writeOperation req => req.repoId
  | .readView req => req.repoId
  | .writeView req => req.repoId
  | .getOpHeads req => req.repoId
  | .updateOpHeads req => req.repoId

def Request.IsRegistration : Request → Prop
  | .registerRepository _ _ => True
  | _ => False

/-- The requests whose success changes the store. -/
def Request.Writes : Request → Prop
  | .registerRepository _ _ | .writeCommit _ | .writeTree _ | .writeFile _
  | .writeOperation _ | .writeView _ | .updateOpHeads _ => True
  | _ => False

inductive Step (s : MemoryStore) : Request → Answer → MemoryStore → Prop where
  | repoRegistered (req : RegisterRepositoryRequest) (uuid : RepoId) :
      Step s (.registerRepository req uuid)
        (.ok (.registerRepository ⟨uuid⟩)) (s.registerRepo uuid)
  | commitWritten (repoId : RepoId) (commit : Commit) (id : CommitId)
      (hreg : s.isRepoRegistered repoId)
      (hid : BackendService.commitIdOf P commit = some id) :
      Step s (.writeCommit ⟨repoId, some commit⟩) (.ok (.writeCommit ⟨id⟩))
        (s.putCommit repoId id { commit with commitId := id })
  | treeWritten (repoId : RepoId) (path : String) (entries : List TreeEntry)
      (id : TreeId) (hreg : s.isRepoRegistered repoId)
      (hid : computeGitTreeHash P entries = some id) :
      Step s (.writeTree ⟨repoId, path, entries⟩) (.ok (.writeTree ⟨id⟩))
        (s.putTree repoId id entries)
  | fileWritten (repoId : RepoId) (content : Bytes)
      (hreg : s.isRepoRegistered repoId) :
      Step s (.writeFile ⟨repoId, content⟩)
        (.ok (.writeFile ⟨computeGitBlobHash P content⟩))
        (s.putFile repoId (computeGitBlobHash P content) content)
  | operationWritten (repoId : RepoId) (op : Operation)
      (hreg : s.isRepoRegistered repoId) :
      Step s (.writeOperation ⟨repoId, some op⟩)
        (.ok (.writeOperation ⟨hashOperation P op⟩))
        (s.putOperation repoId (hashOperation P op) op)
  | viewWritten (repoId : RepoId) (view : View)
      (hreg : s.isRepoRegistered repoId) :
      Step s (.writeView ⟨repoId, some view⟩)
        (.ok (.writeView ⟨hashView P view⟩))
        (s.putView repoId (hashView P view) view)
  | headsUpdated (repoId : RepoId) (oldIds : List OpId) (newId : OpId)
      (hreg : s.isRepoRegistered repoId) :
      Step s (.updateOpHeads ⟨repoId, oldIds, newId⟩)
        (.ok (.updateOpHeads ⟨(s.updateOpHeads repoId oldIds newId).1⟩))
        (s.updateOpHeads repoId oldIds newId).2
  | unchanged (req : Request) (answer : Answer)
      (hfails : req.Writes → ∃ failure, answer = .error failure) :
      Step s req answer s

private theorem step_of_state_eq {s : MemoryStore} {req : Request}
    {result : Answer × MemoryStore} (hstate : result.2 = s)
    (hreads : ¬ req.Writes) : Step P s req result.1 result.2 := by
  rw [hstate]
  exact .unchanged _ _ fun hwrites => absurd hwrites hreads

theorem server_step (s : MemoryStore) (req : Request) :
    Step P s req (server P s req).1 (server P s req).2 := by
  cases req with
  | registerRepository req uuid =>
      simp only [server, handle, Handler.call_map,
        BackendService.call_registerRepository]
      exact .repoRegistered req uuid
  | writeCommit req =>
      obtain ⟨repoId, commit⟩ := req
      simp only [server, handle, Handler.call_map,
        BackendService.call_writeCommit]
      cases hreg : s.isRepoRegistered repoId with
      | false => exact .unchanged _ _ fun _ => ⟨_, rfl⟩
      | true =>
          cases commit with
          | none => exact .unchanged _ _ fun _ => ⟨_, rfl⟩
          | some commit =>
              cases hid : BackendService.commitIdOf P commit with
              | none =>
                  simp only [hid]
                  exact .unchanged _ _ fun _ => ⟨_, rfl⟩
              | some id =>
                  simp only [hid]
                  exact .commitWritten repoId commit id hreg hid
  | writeTree req =>
      obtain ⟨repoId, path, entries⟩ := req
      simp only [server, handle, Handler.call_map,
        BackendService.call_writeTree]
      cases hreg : s.isRepoRegistered repoId with
      | false => exact .unchanged _ _ fun _ => ⟨_, rfl⟩
      | true =>
          cases hid : computeGitTreeHash P entries with
          | none => exact .unchanged _ _ fun _ => ⟨_, rfl⟩
          | some id => exact .treeWritten repoId path entries id hreg hid
  | writeFile req =>
      obtain ⟨repoId, content⟩ := req
      simp only [server, handle, Handler.call_map,
        BackendService.call_writeFile]
      cases hreg : s.isRepoRegistered repoId with
      | false => exact .unchanged _ _ fun _ => ⟨_, rfl⟩
      | true => exact .fileWritten repoId content hreg
  | writeOperation req =>
      obtain ⟨repoId, op⟩ := req
      simp only [server, handle, Handler.call_map,
        OpStoreService.call_writeOperation]
      cases op with
      | none => exact .unchanged _ _ fun _ => ⟨_, rfl⟩
      | some op =>
          cases hreg : s.isRepoRegistered repoId with
          | false => exact .unchanged _ _ fun _ => ⟨_, rfl⟩
          | true => exact .operationWritten repoId op hreg
  | writeView req =>
      obtain ⟨repoId, view⟩ := req
      simp only [server, handle, Handler.call_map,
        OpStoreService.call_writeView]
      cases view with
      | none => exact .unchanged _ _ fun _ => ⟨_, rfl⟩
      | some view =>
          cases hreg : s.isRepoRegistered repoId with
          | false => exact .unchanged _ _ fun _ => ⟨_, rfl⟩
          | true => exact .viewWritten repoId view hreg
  | updateOpHeads req =>
      obtain ⟨repoId, oldIds, newId⟩ := req
      simp only [server, handle, Handler.call_map,
        OpStoreService.call_updateOpHeads]
      cases hreg : s.isRepoRegistered repoId with
      | false => exact .unchanged _ _ fun _ => ⟨_, rfl⟩
      | true => exact .headsUpdated repoId oldIds newId hreg
  | readCommit req =>
      refine step_of_state_eq P ?_ id
      exact (Handler.call_map_state ..).trans
        (BackendService.readCommit_state s req)
  | readTree req =>
      refine step_of_state_eq P ?_ id
      exact (Handler.call_map_state ..).trans
        (BackendService.readTree_state s req)
  | readFile req =>
      refine step_of_state_eq P ?_ id
      exact (Handler.call_map_state ..).trans
        (BackendService.readFile_state s req)
  | readSymlink req => exact .unchanged _ _ fun hwrites => absurd hwrites id
  | writeSymlink req => exact .unchanged _ _ fun hwrites => absurd hwrites id
  | readOperation req =>
      refine step_of_state_eq P ?_ id
      exact (Handler.call_map_state ..).trans
        (OpStoreService.readOperation_state s req)
  | readView req =>
      refine step_of_state_eq P ?_ id
      exact (Handler.call_map_state ..).trans
        (OpStoreService.readView_state s req)
  | getOpHeads req =>
      refine step_of_state_eq P ?_ id
      exact (Handler.call_map_state ..).trans
        (OpStoreService.getOpHeads_state s req)

theorem Step.state_of_error {P : Platform} {s s' : MemoryStore} {req : Request}
    {failure : Failure} (h : Step P s req (.error failure) s') : s' = s := by
  cases h with
  | unchanged => rfl

theorem Step.state_of_not_writes {P : Platform} {s s' : MemoryStore}
    {req : Request} {answer : Answer} (h : Step P s req answer s')
    (hreads : ¬ req.Writes) : s' = s := by
  cases h with
  | unchanged => rfl
  | _ => exact absurd trivial hreads

theorem Step.isRepoRegistered {P : Platform} {s s' : MemoryStore}
    {req : Request} {answer : Answer} {repoId : RepoId}
    (h : Step P s req answer s')
    (hreg : s.isRepoRegistered repoId) : s'.isRepoRegistered repoId := by
  cases h with
  | repoRegistered req uuid =>
      simp only [MemoryStore.isRepoRegistered, MemoryStore.registerRepo] at hreg ⊢
      by_cases huuid : repoId = uuid <;> simp [huuid, hreg]
  | _ => exact hreg

end CommitCloud.Server
