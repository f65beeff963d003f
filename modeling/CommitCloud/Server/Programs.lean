import CommitCloud.Foundation.Program
import CommitCloud.Server.Rpc

/-!
# Handlers between their accesses

Each handler as the sequence of its accesses to the store.  A method of the
store holds one lock while it runs, so an access is atomic; between the check
of the registration and the access to a table other handlers may run.  Without
interference a program does what its handler does.
-/

namespace CommitCloud.Server

open Foundation CommitCloud.Proto.Backend CommitCloud.Proto.OpStore

/-! ## Accesses -/

/-- A method that only reads the store. -/
def observe {β : Type} (read : MemoryStore → β) (s : MemoryStore) :
    β × MemoryStore :=
  (read s, s)

/-- A method that returns nothing. -/
def mutate (write : MemoryStore → MemoryStore) (s : MemoryStore) :
    Unit × MemoryStore :=
  ((), write s)

def refuse (code : Code) (message : String) : Answer :=
  .error (.status ⟨code, message⟩)

/-- The check of the registration, and the rest of the handler if it passes. -/
def gated (repoId : RepoId) (action : String)
    (body : Program MemoryStore Answer) : Program MemoryStore Answer :=
  .access (observe (·.isRepoRegistered repoId)) fun registered =>
    bif registered then body
    else .done (refuse .notFound (unregisteredMessage action repoId))

theorem run_gated (repoId : RepoId) (action : String)
    (body : Program MemoryStore Answer) (s : MemoryStore) :
    (gated repoId action body).run s =
      if s.isRepoRegistered repoId then body.run s
      else unregistered s action repoId := by
  simp only [gated, Program.run_access, observe]
  cases s.isRepoRegistered repoId <;> rfl

theorem run_gated_of_not_registered {repoId : RepoId} {action : String}
    {body : Program MemoryStore Answer} {s : MemoryStore}
    (hreg : ¬ s.isRepoRegistered repoId) :
    ((gated repoId action body).run s).1 =
      refuse .notFound (unregisteredMessage action repoId) := by
  rw [run_gated, if_neg hreg]
  rfl

theorem gated_ends {ok : Answer → Prop} {repoId : RepoId} {action : String}
    {body : Program MemoryStore Answer}
    (hrefused : ok (refuse .notFound (unregisteredMessage action repoId)))
    (hbody : body.Ends ok) : (gated repoId action body).Ends ok := by
  refine .access fun registered => ?_
  cases registered with
  | false => exact .done hrefused
  | true => exact hbody

/-! ## Programs of the handlers -/

variable (P : Platform)

open BackendService OpStoreService in
def program : Request → Program MemoryStore Answer
  | .registerRepository _ uuid =>
      .once (mutate (·.registerRepo uuid)) fun _ =>
        .ok (.registerRepository { repoId := uuid })
  | .readCommit req =>
      gated req.repoId "requesting commits" <|
        .once (observe (·.getCommit req.repoId req.commitId)) fun
          | some commit => .ok (.readCommit { commit := some commit })
          | none => refuse .notFound
              "commit should have been present in cloud database"
  | .writeCommit req =>
      gated req.repoId "requesting commits" <|
        match req.commit with
        | none => .done (refuse .invalidArgument
            "request should have contained commit data")
        | some commit =>
            match commitIdOf P commit with
            | none => .done (.error .panicked)
            | some commitId =>
                .once (mutate (·.putCommit req.repoId commitId
                  { commit with commitId := commitId })) fun _ =>
                    .ok (.writeCommit { commitId := commitId })
  | .readTree req =>
      gated req.repoId "requesting trees" <|
        if req.treeId = emptyTreeIdBytes then
          .done (.ok (.readTree { treeId := req.treeId, entries := [] }))
        else .once (observe (·.getTree req.repoId req.treeId)) fun
          | some entries =>
              .ok (.readTree { treeId := req.treeId, entries := entries })
          | none => refuse .notFound
              "tree should have been present in cloud database"
  | .writeTree req =>
      gated req.repoId "writing trees" <|
        match computeGitTreeHash P req.entries with
        | none => .done (.error .panicked)
        | some treeId =>
            .once (mutate (·.putTree req.repoId treeId req.entries)) fun _ =>
              .ok (.writeTree { treeId := treeId })
  | .readFile req =>
      gated req.repoId "reading files" <|
        .once (observe (·.getFile req.repoId req.fileId)) fun
          | some content => .ok (.readFile [{ chunk := content }])
          | none => refuse .notFound
              "file should have been present in cloud database"
  | .writeFile req =>
      gated req.repoId "writing files" <|
        .once (mutate (·.putFile req.repoId (computeGitBlobHash P req.content)
          req.content)) fun _ =>
            .ok (.writeFile { fileId := computeGitBlobHash P req.content })
  | .readSymlink _ | .writeSymlink _ =>
      .done (refuse .unimplemented "Not implemented yet")
  | .readOperation req =>
      gated req.repoId "reading operations" <|
        .once (observe (·.getOperation req.repoId req.operationId)) fun
          | some op => .ok (.readOperation { operation := some op })
          | none =>
              if req.operationId = rootOperationIdBytes then
                .ok (.readOperation { operation := some rootOperation })
              else refuse .notFound
                (missingMessage "operation" req.operationId req.repoId)
  | .writeOperation req =>
      match req.operation with
      | none => .done (refuse .invalidArgument
          "request should have contained an operation object")
      | some op =>
          gated req.repoId "writing operations" <|
            .once (mutate (·.putOperation req.repoId (hashOperation P op) op))
              fun _ => .ok (.writeOperation { operationId := hashOperation P op })
  | .readView req =>
      gated req.repoId "reading views" <|
        .once (observe (·.getView req.repoId req.viewId)) fun
          | some view =>
              .ok (.readView { viewId := req.viewId, view := some view })
          | none =>
              if req.viewId = rootViewIdBytes then
                .ok (.readView { viewId := req.viewId, view := some rootView })
              else refuse .notFound (missingMessage "view" req.viewId req.repoId)
  | .writeView req =>
      match req.view with
      | none => .done (refuse .invalidArgument
          "request should have contained a view object")
      | some view =>
          gated req.repoId "writing views" <|
            .once (mutate (·.putView req.repoId (hashView P view) view)) fun _ =>
              .ok (.writeView { viewId := hashView P view })
  | .getOpHeads req =>
      gated req.repoId "requesting op heads" <|
        .once (observe (·.getOpHeads req.repoId)) fun heads =>
          .ok (.getOpHeads { opHeadIds := heads.getD [rootOperationIdBytes] })
  | .updateOpHeads req =>
      gated req.repoId "updating op heads" <|
        .once (fun s => s.updateOpHeads req.repoId req.oldOpHeadIds
          req.newOpHeadId) fun heads =>
            .ok (.updateOpHeads { currentOpHeadIds := heads })

/-- Without interference a program does what its handler does. -/
theorem run_program (req : Request) (s : MemoryStore) :
    (program P req).run s = server P s req := by
  cases req <;> simp only [program, server, handle, Handler.call_map]
  case registerRepository => rfl
  case readSymlink => rfl
  case writeSymlink => rfl
  case readCommit req =>
    rw [run_gated, BackendService.call_readCommit]
    cases s.isRepoRegistered req.repoId <;>
      cases hget : s.getCommit req.repoId req.commitId <;>
      simp [hget, observe, refuse, unregistered]
  case writeCommit req =>
    rw [run_gated, BackendService.call_writeCommit]
    cases s.isRepoRegistered req.repoId with
    | false => rfl
    | true =>
        cases req.commit with
        | none => rfl
        | some commit =>
            cases hid : BackendService.commitIdOf P commit <;> simp [hid, mutate]
  case readTree req =>
    rw [run_gated, BackendService.call_readTree]
    by_cases hempty : req.treeId = emptyTreeIdBytes <;>
      cases s.isRepoRegistered req.repoId <;>
      cases hget : s.getTree req.repoId req.treeId <;>
      simp [hget, hempty, observe, refuse, unregistered]
  case writeTree req =>
    rw [run_gated, BackendService.call_writeTree]
    cases s.isRepoRegistered req.repoId <;>
      cases hhash : computeGitTreeHash P req.entries <;>
      simp [mutate, unregistered]
  case readFile req =>
    rw [run_gated, BackendService.call_readFile]
    cases s.isRepoRegistered req.repoId <;>
      cases hget : s.getFile req.repoId req.fileId <;>
      simp [hget, observe, refuse, unregistered]
  case writeFile req =>
    rw [run_gated, BackendService.call_writeFile]
    cases s.isRepoRegistered req.repoId <;> simp [mutate, unregistered]
  case readOperation req =>
    obtain ⟨repoId, id⟩ := req
    rw [run_gated, OpStoreService.call_readOperation]
    rcases eq_or_ne id rootOperationIdBytes with rfl | hroot
    all_goals
      cases s.isRepoRegistered repoId <;>
        cases hget : s.getOperation repoId _ <;>
        simp_all [observe, refuse, unregistered]
  case writeOperation req =>
    rw [OpStoreService.call_writeOperation]
    cases req.operation with
    | none => rfl
    | some op =>
        simp only [run_gated]
        cases s.isRepoRegistered req.repoId <;> simp [mutate, unregistered]
  case readView req =>
    obtain ⟨repoId, id⟩ := req
    rw [run_gated, OpStoreService.call_readView]
    rcases eq_or_ne id rootViewIdBytes with rfl | hroot
    all_goals
      cases s.isRepoRegistered repoId <;>
        cases hget : s.getView repoId _ <;>
        simp_all [observe, refuse, unregistered]
  case writeView req =>
    rw [OpStoreService.call_writeView]
    cases req.view with
    | none => rfl
    | some view =>
        simp only [run_gated]
        cases s.isRepoRegistered req.repoId <;> simp [mutate, unregistered]
  case getOpHeads req =>
    rw [run_gated, OpStoreService.call_getOpHeads]
    cases s.isRepoRegistered req.repoId <;>
      simp [MemoryStore.heads, observe, unregistered]
  case updateOpHeads req =>
    rw [run_gated, OpStoreService.call_updateOpHeads]
    cases s.isRepoRegistered req.repoId <;> simp [unregistered]

end CommitCloud.Server
