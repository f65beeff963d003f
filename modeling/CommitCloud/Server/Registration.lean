import CommitCloud.Server.Programs

/-!
# The registration gate

Only registered repositories have entries in the tables, a call that fails or
reads leaves the store as it was, and no call for a repository that is not
registered succeeds.
-/

namespace CommitCloud.Server

open Foundation CommitCloud.Proto.Backend CommitCloud.Proto.OpStore

variable {P : Platform} {s s' : MemoryStore} {req : Request} {answer : Answer}

/-! ## Keys of the tables -/

def KeysRegistered {ν : Type} (s : MemoryStore) (table : Table RepoId ν) : Prop :=
  ∀ repoId, table repoId ≠ none → s.isRepoRegistered repoId

section KeysRegistered

variable {ν : Type} {table : Table RepoId ν}

theorem KeysRegistered.mono (h : KeysRegistered s table)
    (hreg : ∀ repoId, s.isRepoRegistered repoId → s'.isRepoRegistered repoId) :
    KeysRegistered s' table :=
  fun repoId hentry => hreg repoId (h repoId hentry)

theorem KeysRegistered.insert (h : KeysRegistered s table) {repoId : RepoId}
    (hreg : s.isRepoRegistered repoId) (value : ν) :
    KeysRegistered s (table.insert repoId value) := by
  intro repoId' hentry
  by_cases hrepo : repoId' = repoId
  · rwa [hrepo]
  · rw [Table.insert_of_ne hrepo] at hentry
    exact h repoId' hentry

end KeysRegistered

structure TablesRegistered (s : MemoryStore) : Prop where
  commits : KeysRegistered s s.commits
  trees : KeysRegistered s s.trees
  files : KeysRegistered s s.files
  ops : KeysRegistered s s.ops
  views : KeysRegistered s s.views
  opHeads : KeysRegistered s s.opHeads

theorem tablesRegistered_new : TablesRegistered MemoryStore.new := by
  constructor <;> exact fun repoId hentry => absurd rfl hentry

theorem Step.tablesRegistered (hstep : Step P s req answer s')
    (h : TablesRegistered s) : TablesRegistered s' := by
  have hreg (repoId : RepoId) :
      s.isRepoRegistered repoId → s'.isRepoRegistered repoId :=
    hstep.isRepoRegistered
  have hkept {ν : Type} {table : Table RepoId ν} (htable : KeysRegistered s table) :
      KeysRegistered s' table := htable.mono hreg
  -- the one table a call writes gets an entry for its registered repository
  cases hstep with
  | repoRegistered req uuid =>
      exact ⟨hkept h.commits, hkept h.trees, hkept h.files, hkept h.ops,
        hkept h.views, hkept h.opHeads⟩
  | commitWritten repoId commit id hregistered =>
      exact { h with commits := h.commits.insert hregistered _ }
  | treeWritten repoId path entries id hregistered =>
      exact { h with trees := h.trees.insert hregistered _ }
  | fileWritten repoId content hregistered =>
      exact { h with files := h.files.insert hregistered _ }
  | operationWritten repoId op hregistered =>
      exact { h with ops := h.ops.insert hregistered _ }
  | viewWritten repoId view hregistered =>
      exact { h with views := h.views.insert hregistered _ }
  | headsUpdated repoId oldIds newId hregistered =>
      exact { h with opHeads := h.opHeads.insert hregistered _ }
  | unchanged => exact h

/-! ## Calls for other repositories fail -/

theorem server_unregistered (hgated : ¬ req.IsRegistration)
    (hreg : ¬ s.isRepoRegistered req.repoId) :
    ∃ failure, (server P s req).1 = .error failure := by
  rw [← run_program]
  cases req with
  | registerRepository req uuid => exact absurd trivial hgated
  | readSymlink req => exact ⟨_, rfl⟩
  | writeSymlink req => exact ⟨_, rfl⟩
  | writeOperation req =>
      obtain ⟨repoId, op⟩ := req
      cases op with
      | none => exact ⟨_, rfl⟩
      | some op => exact ⟨_, run_gated_of_not_registered hreg⟩
  | writeView req =>
      obtain ⟨repoId, view⟩ := req
      cases view with
      | none => exact ⟨_, rfl⟩
      | some view => exact ⟨_, run_gated_of_not_registered hreg⟩
  | _ => exact ⟨_, run_gated_of_not_registered hreg⟩

/-! ## The gate -/

structure RegistrationGate (P : Platform) (s : MemoryStore) : Prop where
  tables : TablesRegistered s
  failed : ∀ req failure, (server P s req).1 = .error failure →
    (server P s req).2 = s
  read : ∀ req : Request, ¬ req.Writes → (server P s req).2 = s
  unregistered : ∀ req : Request, ¬ req.IsRegistration →
    ¬ s.isRepoRegistered req.repoId →
    ∃ failure, (server P s req).1 = .error failure

theorem registrationGate (P : Platform) (requests : List Request) :
    RegistrationGate P ((server P).finalState MemoryStore.new requests) where
  tables := (server P).invariant (I := TablesRegistered) tablesRegistered_new
    fun s req _ h => (server_step P s req).tablesRegistered h
  failed req failure hfailed := by
    have hstep := server_step P
      ((server P).finalState MemoryStore.new requests) req
    rw [hfailed] at hstep
    exact hstep.state_of_error
  read req hreads := (server_step P _ req).state_of_not_writes hreads
  unregistered req hgated hreg := server_unregistered hgated hreg

end CommitCloud.Server
