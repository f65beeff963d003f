import CommitCloud.Foundation.Simulation
import CommitCloud.Server.Isolation
import CommitCloud.Server.References

/-!
# Independent repositories

What the server is for, without its tables: a collection of repositories that
know nothing of each other.  A repository holds its objects by id, among them
from the start the root operation, the root view and the empty tree, and a list
of heads that begins with the root operation.  The server answers every run as
these repositories do, each given the requests that name it.
-/

namespace CommitCloud.Server

open Foundation CommitCloud.Proto.Backend CommitCloud.Proto.OpStore
open BackendService OpStoreService

/-! ## One repository -/

structure Repository where
  registered : Bool
  commits : Table CommitId Commit
  trees : Table TreeId (List TreeEntry)
  files : Table FileId Bytes
  operations : Table OpId Operation
  views : Table ViewId View
  heads : List OpId

namespace Repository

def initial : Repository where
  registered := false
  commits := Table.empty
  trees := Table.empty.insert emptyTreeIdBytes []
  files := Table.empty
  operations := Table.empty.insert rootOperationIdBytes rootOperation
  views := Table.empty.insert rootViewIdBytes rootView
  heads := [rootOperationIdBytes]

def gate (r : Repository) (repoId : RepoId) (action : String)
    (result : Answer × Repository) : Answer × Repository :=
  if r.registered then result
  else (refuse .notFound (unregisteredMessage action repoId), r)

end Repository

def answerRead {α : Type} (value : Option α) (respond : α → Response)
    (missing : String) : Answer :=
  value.elim (refuse .notFound missing) fun a => .ok (respond a)

/-- The empty tree is not replaced, whatever is written under its id. -/
def repository (P : Platform) : Reactive Repository Request Answer := fun r req =>
  match req with
  | .registerRepository _ uuid =>
      (.ok (.registerRepository ⟨uuid⟩), { r with registered := true })
  | .readCommit ⟨repoId, id⟩ =>
      r.gate repoId "requesting commits"
        (answerRead (r.commits id) (fun commit => .readCommit ⟨some commit⟩)
          "commit should have been present in cloud database", r)
  | .writeCommit ⟨repoId, commit⟩ =>
      r.gate repoId "requesting commits" <|
        match commit with
        | none => (refuse .invalidArgument
            "request should have contained commit data", r)
        | some commit =>
            match commitIdOf P commit with
            | none => (.error .panicked, r)
            | some id => (.ok (.writeCommit ⟨id⟩), { r with
                commits := r.commits.insert id { commit with commitId := id } })
  | .readTree ⟨repoId, id, _⟩ =>
      r.gate repoId "requesting trees"
        (answerRead (r.trees id) (fun entries => .readTree ⟨id, entries⟩)
          "tree should have been present in cloud database", r)
  | .writeTree ⟨repoId, _, entries⟩ =>
      r.gate repoId "writing trees" <|
        match computeGitTreeHash P entries with
        | none => (.error .panicked, r)
        | some id => (.ok (.writeTree ⟨id⟩), if id = emptyTreeIdBytes then r else
            { r with trees := r.trees.insert id entries })
  | .readFile ⟨repoId, id⟩ =>
      r.gate repoId "reading files"
        (answerRead (r.files id) (fun content => .readFile [{ chunk := content }])
          "file should have been present in cloud database", r)
  | .writeFile ⟨repoId, content⟩ =>
      r.gate repoId "writing files"
        (.ok (.writeFile ⟨computeGitBlobHash P content⟩), { r with
          files := r.files.insert (computeGitBlobHash P content) content })
  | .readSymlink _ | .writeSymlink _ =>
      (refuse .unimplemented "Not implemented yet", r)
  | .readOperation ⟨repoId, id⟩ =>
      r.gate repoId "reading operations"
        (answerRead (r.operations id) (fun op => .readOperation ⟨some op⟩)
          (missingMessage "operation" id repoId), r)
  | .writeOperation ⟨_, none⟩ =>
      (refuse .invalidArgument "request should have contained an operation object", r)
  | .writeOperation ⟨repoId, some op⟩ =>
      r.gate repoId "writing operations"
        (.ok (.writeOperation ⟨hashOperation P op⟩), { r with
          operations := r.operations.insert (hashOperation P op) op })
  | .readView ⟨repoId, id⟩ =>
      r.gate repoId "reading views"
        (answerRead (r.views id) (fun view => .readView ⟨id, some view⟩)
          (missingMessage "view" id repoId), r)
  | .writeView ⟨_, none⟩ =>
      (refuse .invalidArgument "request should have contained a view object", r)
  | .writeView ⟨repoId, some view⟩ =>
      r.gate repoId "writing views"
        (.ok (.writeView ⟨hashView P view⟩), { r with
          views := r.views.insert (hashView P view) view })
  | .getOpHeads ⟨repoId⟩ =>
      r.gate repoId "requesting op heads" (.ok (.getOpHeads ⟨r.heads⟩), r)
  | .updateOpHeads ⟨repoId, oldIds, newId⟩ =>
      r.gate repoId "updating op heads"
        (.ok (.updateOpHeads ⟨updateHeads r.heads oldIds newId⟩),
          { r with heads := updateHeads r.heads oldIds newId })

/-! ## The repositories of a store -/

/-- An entry that is missing stands for what every repository has. -/
def Slice.repository (part : Slice) : Repository where
  registered := part.registered
  commits id := part.commits.bind fun table => table id
  trees id := if id = emptyTreeIdBytes then some [] else
    part.trees.bind fun table => table id
  files id := part.files.bind fun table => table id
  operations id := (part.ops.bind fun table => table id).or
    (if id = rootOperationIdBytes then some rootOperation else none)
  views id := (part.views.bind fun table => table id).or
    (if id = rootViewIdBytes then some rootView else none)
  heads := part.opHeads.getD [rootOperationIdBytes]

def MemoryStore.repository (s : MemoryStore) (repoId : RepoId) : Repository :=
  (slice repoId s).repository

theorem repository_new (repoId : RepoId) :
    MemoryStore.new.repository repoId = Repository.initial := by
  have hinsert {κ ν : Type} [DecidableEq κ] (key : κ) (value : ν) :
      (fun id => if id = key then some value else none) =
        (Table.empty.insert key value : Table κ ν) := by
    funext id
    simp [Table.insert, Table.empty, Function.update_apply]
  simp only [MemoryStore.repository, Slice.repository, slice, MemoryStore.new,
    Repository.initial, ← hinsert]
  rfl

section Reads

variable (s : MemoryStore) (repoId : RepoId)

theorem gate_repository (action : String) (result : Answer × Repository) :
    (s.repository repoId).gate repoId action result =
      if s.isRepoRegistered repoId then result
      else (refuse .notFound (unregisteredMessage action repoId), s.repository repoId) :=
  rfl

@[simp] theorem repository_commits (id : CommitId) :
    (s.repository repoId).commits id = s.getCommit repoId id := rfl

theorem repository_trees (id : TreeId) :
    (s.repository repoId).trees id =
      if id = emptyTreeIdBytes then some [] else s.getTree repoId id := rfl

@[simp] theorem repository_files (id : FileId) :
    (s.repository repoId).files id = s.getFile repoId id := rfl

theorem repository_operations (id : OpId) :
    (s.repository repoId).operations id = (s.getOperation repoId id).or
      (if id = rootOperationIdBytes then some rootOperation else none) := rfl

theorem repository_views (id : ViewId) :
    (s.repository repoId).views id = (s.getView repoId id).or
      (if id = rootViewIdBytes then some rootView else none) := rfl

@[simp] theorem repository_heads :
    (s.repository repoId).heads = s.heads repoId := rfl

end Reads

/-! ## Writes to a store -/

section Writes

variable (s : MemoryStore) (repoId : RepoId)

theorem repository_registerRepo :
    (s.registerRepo repoId).repository repoId =
      { s.repository repoId with registered := true } := by
  simp [MemoryStore.repository, Slice.repository, slice, MemoryStore.registerRepo]

theorem repository_putCommit (id : CommitId) (commit : Commit) :
    (s.putCommit repoId id commit).repository repoId =
      { s.repository repoId with
        commits := (s.repository repoId).commits.insert id commit } :=
  congrArg (fun commits => { s.repository repoId with commits := commits })
    (s.commits.lookup_put_outer repoId id commit)

theorem repository_putFile (id : FileId) (content : Bytes) :
    (s.putFile repoId id content).repository repoId =
      { s.repository repoId with
        files := (s.repository repoId).files.insert id content } :=
  congrArg (fun files => { s.repository repoId with files := files })
    (s.files.lookup_put_outer repoId id content)

theorem repository_putTree (id : TreeId) (entries : List TreeEntry) :
    (s.putTree repoId id entries).repository repoId =
      if id = emptyTreeIdBytes then s.repository repoId
      else { s.repository repoId with
        trees := (s.repository repoId).trees.insert id entries } := by
  have htrees : ((s.putTree repoId id entries).repository repoId).trees =
      fun id' => if id' = emptyTreeIdBytes then some []
        else Table.insert (s.trees.lookup repoId) id entries id' :=
    congrArg (fun (trees : Table TreeId (List TreeEntry)) id' =>
      if id' = emptyTreeIdBytes then some [] else trees id')
      (s.trees.lookup_put_outer repoId id entries)
  have hrest : (s.putTree repoId id entries).repository repoId =
      { s.repository repoId with
        trees := ((s.putTree repoId id entries).repository repoId).trees } := rfl
  rw [hrest, htrees]
  split
  next hempty =>
    -- a read of the empty tree does not look at the table
    refine congrArg (fun trees => { s.repository repoId with trees := trees }) ?_
    funext id'
    by_cases hid : id' = emptyTreeIdBytes
    · simp [hid]
    · have hne : id' ≠ id := fun h => hid (h.trans hempty)
      rw [Table.insert_of_ne hne]
      rfl
  next hne =>
    refine congrArg (fun trees => { s.repository repoId with trees := trees }) ?_
    funext id'
    by_cases hid : id' = id
    · simp [hid, hne]
    · rw [Table.insert_of_ne hid, Table.insert_of_ne hid]
      rfl

theorem repository_putOperation (id : OpId) (op : Operation) :
    (s.putOperation repoId id op).repository repoId =
      { s.repository repoId with
        operations := (s.repository repoId).operations.insert id op } := by
  have hoperations : ((s.putOperation repoId id op).repository repoId).operations =
      (s.repository repoId).operations.insert id op := by
    refine Eq.trans ?_ (Table.insert_or (s.ops.lookup repoId) _ id op)
    rw [← s.ops.lookup_put_outer repoId id op]
    rfl
  rw [← hoperations]
  rfl

theorem repository_putView (id : ViewId) (view : View) :
    (s.putView repoId id view).repository repoId =
      { s.repository repoId with
        views := (s.repository repoId).views.insert id view } := by
  have hviews : ((s.putView repoId id view).repository repoId).views =
      (s.repository repoId).views.insert id view := by
    refine Eq.trans ?_ (Table.insert_or (s.views.lookup repoId) _ id view)
    rw [← s.views.lookup_put_outer repoId id view]
    rfl
  rw [← hviews]
  rfl

theorem repository_updateOpHeads (oldIds : List OpId) (newId : OpId) :
    (s.updateOpHeads repoId oldIds newId).2.repository repoId =
      { s.repository repoId with
        heads := updateHeads (s.heads repoId) oldIds newId } := by
  have hheads : ((s.updateOpHeads repoId oldIds newId).2.repository repoId).heads =
      updateHeads (s.heads repoId) oldIds newId := s.heads_updateOpHeads ..
  rw [← hheads]
  rfl

end Writes

/-! ## The server as its repositories -/

variable {P : Platform} {s : MemoryStore} {req : Request}

section Handlers

variable (P) (s)

/-- The request does to its repository what it does to the store. -/
def Refines (req : Request) : Prop :=
  ((server P s req).1, (server P s req).2.repository req.repoId) =
    repository P (s.repository req.repoId) req

theorem refines_registerRepository (req : RegisterRepositoryRequest) (uuid : RepoId) :
    Refines P s (.registerRepository req uuid) := by
  simp only [Refines, server, handle, Handler.call_map, call_registerRepository, repository,
    Request.repoId, repository_registerRepo]

theorem refines_readCommit (req : ReadCommitRequest) : Refines P s (.readCommit req) := by
  simp only [Refines, server, handle, Handler.call_map, call_readCommit, repository,
    Request.repoId, gate_repository, repository_commits]
  cases s.isRepoRegistered req.repoId <;>
    cases s.getCommit req.repoId req.commitId <;> rfl

theorem refines_writeCommit (req : WriteCommitRequest) :
    Refines P s (.writeCommit req) := by
  obtain ⟨repoId, commit⟩ := req
  simp only [Refines, server, handle, Handler.call_map, call_writeCommit, repository,
    Request.repoId, gate_repository]
  cases s.isRepoRegistered repoId with
  | false => rfl
  | true =>
      cases commit with
      | none => rfl
      | some commit =>
          cases hid : commitIdOf P commit with
          | none => simp [hid]
          | some id => simp [hid, repository_putCommit]

theorem refines_readTree (req : ReadTreeRequest) : Refines P s (.readTree req) := by
  simp only [Refines, server, handle, Handler.call_map, call_readTree, repository,
    Request.repoId, gate_repository, repository_trees]
  by_cases hempty : req.treeId = emptyTreeIdBytes
  · cases s.isRepoRegistered req.repoId <;> simp [hempty, answerRead, unregistered, refuse]
  · cases s.isRepoRegistered req.repoId <;>
      cases s.getTree req.repoId req.treeId <;>
      simp [hempty, answerRead, unregistered, refuse]

theorem refines_writeTree (req : WriteTreeRequest) : Refines P s (.writeTree req) := by
  obtain ⟨repoId, path, entries⟩ := req
  simp only [Refines, server, handle, Handler.call_map, call_writeTree, repository,
    Request.repoId, gate_repository]
  cases s.isRepoRegistered repoId with
  | false => rfl
  | true =>
      cases hid : computeGitTreeHash P entries with
      | none => simp
      | some id => simp [repository_putTree]

theorem refines_readFile (req : ReadFileRequest) : Refines P s (.readFile req) := by
  simp only [Refines, server, handle, Handler.call_map, call_readFile, repository,
    Request.repoId, gate_repository, repository_files]
  cases s.isRepoRegistered req.repoId <;>
    cases s.getFile req.repoId req.fileId <;> rfl

theorem refines_writeFile (req : WriteFileRequest) : Refines P s (.writeFile req) := by
  simp only [Refines, server, handle, Handler.call_map, call_writeFile, repository,
    Request.repoId, gate_repository]
  cases s.isRepoRegistered req.repoId with
  | false => rfl
  | true => simp [repository_putFile]

theorem refines_readOperation (req : ReadOperationRequest) :
    Refines P s (.readOperation req) := by
  simp only [Refines, server, handle, Handler.call_map, call_readOperation, repository,
    Request.repoId, gate_repository, repository_operations]
  by_cases hroot : req.operationId = rootOperationIdBytes <;>
    cases s.isRepoRegistered req.repoId <;>
    cases s.getOperation req.repoId req.operationId <;>
    simp [hroot, answerRead, unregistered, refuse]

theorem refines_writeOperation (req : WriteOperationRequest) :
    Refines P s (.writeOperation req) := by
  obtain ⟨repoId, op⟩ := req
  simp only [Refines, server, handle, Handler.call_map, call_writeOperation]
  cases op with
  | none => rfl
  | some op =>
      simp only [repository, Request.repoId, gate_repository]
      cases s.isRepoRegistered repoId with
      | false => rfl
      | true => simp [repository_putOperation]

theorem refines_readView (req : ReadViewRequest) : Refines P s (.readView req) := by
  simp only [Refines, server, handle, Handler.call_map, call_readView, repository,
    Request.repoId, gate_repository, repository_views]
  by_cases hroot : req.viewId = rootViewIdBytes <;>
    cases s.isRepoRegistered req.repoId <;>
    cases s.getView req.repoId req.viewId <;>
    simp [hroot, answerRead, unregistered, refuse]

theorem refines_writeView (req : WriteViewRequest) : Refines P s (.writeView req) := by
  obtain ⟨repoId, view⟩ := req
  simp only [Refines, server, handle, Handler.call_map, call_writeView]
  cases view with
  | none => rfl
  | some view =>
      simp only [repository, Request.repoId, gate_repository]
      cases s.isRepoRegistered repoId with
      | false => rfl
      | true => simp [repository_putView]

theorem refines_getOpHeads (req : GetOpHeadsRequest) : Refines P s (.getOpHeads req) := by
  simp only [Refines, server, handle, Handler.call_map, call_getOpHeads, repository,
    Request.repoId, gate_repository, repository_heads]
  cases s.isRepoRegistered req.repoId <;> rfl

theorem refines_updateOpHeads (req : UpdateOpHeadsRequest) :
    Refines P s (.updateOpHeads req) := by
  simp only [Refines, server, handle, Handler.call_map, call_updateOpHeads, repository,
    Request.repoId, gate_repository, repository_heads]
  cases s.isRepoRegistered req.repoId with
  | false => rfl
  | true =>
      simp only [if_true, repository_updateOpHeads]
      rfl

theorem server_refines (req : Request) : Refines P s req := by
  cases req with
  | registerRepository req uuid => exact refines_registerRepository P s req uuid
  | readCommit req => exact refines_readCommit P s req
  | writeCommit req => exact refines_writeCommit P s req
  | readTree req => exact refines_readTree P s req
  | writeTree req => exact refines_writeTree P s req
  | readFile req => exact refines_readFile P s req
  | writeFile req => exact refines_writeFile P s req
  | readSymlink req => rfl
  | writeSymlink req => rfl
  | readOperation req => exact refines_readOperation P s req
  | writeOperation req => exact refines_writeOperation P s req
  | readView req => exact refines_readView P s req
  | writeView req => exact refines_writeView P s req
  | getOpHeads req => exact refines_getOpHeads P s req
  | updateOpHeads req => exact refines_updateOpHeads P s req

end Handlers

theorem repository_of_ne {repoId : RepoId} (hrepo : req.repoId ≠ repoId) :
    (server P s req).2.repository repoId = s.repository repoId :=
  congrArg Slice.repository (slice_of_ne (server_step P s req) hrepo)

theorem server_simulates (P : Platform) :
    Simulates (server P) ((repository P).product Request.repoId)
      (fun s repositories => s.repository = repositories) Eq where
  answer s repositories req h := by
    subst h
    exact congrArg Prod.fst (server_refines P s req)
  state s repositories req h := by
    subst h
    funext repoId
    by_cases hrepo : req.repoId = repoId
    · subst hrepo
      rw [Reactive.product_state_self rfl]
      exact congrArg Prod.snd (server_refines P s req)
    · rw [Reactive.product_state_of_ne hrepo, repository_of_ne hrepo]

/--
What a run answers the requests that name a repository, and the repository it
leaves, are those of a repository of its own that was given just these requests.
-/
theorem server_refines_repositories (P : Platform) (requests : List Request)
    (repoId : RepoId) :
    ((server P).trace MemoryStore.new requests).filter
        (fun call => call.1.repoId = repoId) =
      (repository P).trace Repository.initial
        (requests.filter fun req => req.repoId = repoId) ∧
    ((server P).finalState MemoryStore.new requests).repository repoId =
      (repository P).finalState Repository.initial
        (requests.filter fun req => req.repoId = repoId) := by
  have hnew : MemoryStore.new.repository = fun _ => Repository.initial :=
    funext repository_new
  constructor
  · rw [(server_simulates P).trace_eq hnew, Reactive.product_trace]
  · rw [← Reactive.product_finalState (repository P) (fun _ => Repository.initial),
      ← (server_simulates P).finalState hnew]

end CommitCloud.Server
