import CommitCloud.Server.Concurrent
import CommitCloud.Server.HeadUpdates
import CommitCloud.Server.Repositories

/-!
# Sound repositories

What holds of a repository at every point of every run, also while handlers
interleave: its heads are some and distinct, an object that can be read has its
id for a hash or is one that every repository has, and before its registration
a repository has nothing else.
-/

namespace CommitCloud.Server

open Foundation OpStoreService

structure Repository.Sound (P : Platform) (r : Repository) : Prop where
  heads : r.heads ≠ [] ∧ r.heads.Nodup
  commit : ∀ id commit, r.commits id = some commit → commit.commitId = id
  tree : ∀ id entries, r.trees id = some entries →
    computeGitTreeHash P entries = some id ∨ id = emptyTreeIdBytes ∧ entries = []
  file : ∀ id content, r.files id = some content → computeGitBlobHash P content = id
  operation : ∀ id op, r.operations id = some op →
    hashOperation P op = id ∨ id = rootOperationIdBytes ∧ op = rootOperation
  view : ∀ id view, r.views id = some view →
    hashView P view = id ∨ id = rootViewIdBytes ∧ view = rootView
  unregistered : r.registered = false → r = .initial

variable {P : Platform} {s s' : MemoryStore} {req : Request} {answer : Answer}

theorem sound_initial (P : Platform) : Repository.initial.Sound P where
  heads := ⟨List.cons_ne_nil _ _, List.nodup_singleton _⟩
  commit := Table.forall_empty
  tree := Table.forall_insert Table.forall_empty (.inr ⟨rfl, rfl⟩)
  file := Table.forall_empty
  operation := Table.forall_insert Table.forall_empty (.inr ⟨rfl, rfl⟩)
  view := Table.forall_insert Table.forall_empty (.inr ⟨rfl, rfl⟩)
  unregistered _ := rfl

theorem Step.sound (hstep : Step P s req answer s') (h : (s.repository req.repoId).Sound P) :
    (s'.repository req.repoId).Sound P := by
  -- a call that writes finds its repository registered
  have hgate (hreg : s.isRepoRegistered req.repoId) {p : Prop} :
      (s.repository req.repoId).registered = false → p := by
    intro hnot
    cases hreg.symm.trans hnot
  cases hstep with
  | repoRegistered req uuid =>
      simp only [Request.repoId, repository_registerRepo]
      exact { h with unregistered := fun hnot => by cases hnot }
  | commitWritten repoId commit id hreg hid =>
      simp only [Request.repoId, repository_putCommit]
      exact { h with
        commit := Table.forall_insert h.commit rfl
        unregistered := hgate hreg }
  | treeWritten repoId path entries id hreg hid =>
      simp only [Request.repoId, repository_putTree]
      split
      · exact h
      · exact { h with
          tree := Table.forall_insert h.tree (.inl hid)
          unregistered := hgate hreg }
  | fileWritten repoId content hreg =>
      simp only [Request.repoId, repository_putFile]
      exact { h with
        file := Table.forall_insert h.file rfl
        unregistered := hgate hreg }
  | operationWritten repoId op hreg =>
      simp only [Request.repoId, repository_putOperation]
      exact { h with
        operation := Table.forall_insert h.operation (.inl rfl)
        unregistered := hgate hreg }
  | viewWritten repoId view hreg =>
      simp only [Request.repoId, repository_putView]
      exact { h with
        view := Table.forall_insert h.view (.inl rfl)
        unregistered := hgate hreg }
  | headsUpdated repoId oldIds newId hreg =>
      simp only [Request.repoId, repository_updateOpHeads]
      exact { h with
        heads := ⟨updateHeads_ne_nil h.heads.1, nodup_updateHeads h.heads.2⟩
        unregistered := hgate hreg }
  | unchanged => exact h

theorem sound_server (h : ∀ repoId, (s.repository repoId).Sound P) (req : Request)
    (repoId : RepoId) : ((server P s req).2.repository repoId).Sound P := by
  by_cases hrepo : req.repoId = repoId
  · subst hrepo
    exact (server_step P s req).sound (h req.repoId)
  · rw [repository_of_ne hrepo]
    exact h repoId

theorem sound_run (P : Platform) (requests : List Request) (repoId : RepoId) :
    (((server P).finalState MemoryStore.new requests).repository repoId).Sound P := by
  refine (server P).invariant (I := fun s => ∀ repoId, (s.repository repoId).Sound P)
    (fun repoId => ?_) (fun s req _ h => sound_server h req) repoId
  rw [repository_new]
  exact sound_initial P

/-! ## Handlers that interleave -/

/-- The store of an execution is one that handling whole requests leads to. -/
theorem exec_store {κ : Type*} [DecidableEq κ] {s : MemoryStore}
    {events : List (Event κ Request Answer)} {c : Config κ MemoryStore Answer}
    (hexec : Config.Exec (program P) (Config.start κ Answer s) events c) :
    ∃ requests, (server P).finalState s requests = c.store ∧
      ∀ req ∈ requests, ∃ call, .invoke call req ∈ events := by
  obtain ⟨order, h⟩ := (lastAccessRule P).linearizable hexec
  refine ⟨_, h.store, fun req hreq => ?_⟩
  obtain ⟨⟨call, req, answer⟩, hmem, rfl⟩ := List.mem_map.mp hreq
  exact ⟨call, h.invoked call req answer hmem⟩

/-- Every repository is sound whenever one looks, also between two accesses of a handler. -/
theorem concurrent_sound {κ : Type*} [DecidableEq κ]
    {events : List (Event κ Request Answer)} {c : Config κ MemoryStore Answer}
    (hexec : Config.Exec (program P) (Config.start κ Answer MemoryStore.new) events c)
    (repoId : RepoId) : (c.store.repository repoId).Sound P := by
  obtain ⟨requests, hstore, -⟩ := exec_store hexec
  rw [← hstore]
  exact sound_run P requests repoId

/-- A file is being written while the heads are updated. -/
def overlappingWrites : List (Event Nat Request Answer) :=
  [.invoke 0 (.registerRepository {} "repo"), .access 0,
    .invoke 1 (.writeFile ⟨"repo", [1]⟩), .access 1,
    .invoke 2 (.updateOpHeads ⟨"repo", [rootOperationIdBytes], [2]⟩), .access 2,
    .access 1, .access 2]

theorem concurrent_sound_overlappingWrites :
    ∃ c : Config Nat MemoryStore Answer,
      Config.Exec (program .reference) (Config.start Nat Answer MemoryStore.new)
        overlappingWrites c ∧
      c.store.getFile "repo" (computeGitBlobHash .reference [1]) = some [1] ∧
      c.store.heads "repo" = [[2]] ∧
      (c.store.repository "repo").Sound .reference := by
  have hregistered : Config.Exec (program .reference)
      (Config.start Nat Answer MemoryStore.new)
      ([] ++ [.invoke 0 (.registerRepository {} "repo")] ++ [.access 0]) _ :=
    .snoc (.snoc .nil (.invoke rfl)) (.access rfl)
  have hwriting : Config.Exec _ _
      (_ ++ [.invoke 1 (Request.writeFile ⟨"repo", [1]⟩)] ++ [.access 1]) _ :=
    (hregistered.snoc (.invoke rfl)).snoc (.access rfl)
  have hupdating : Config.Exec _ _
      (_ ++ [.invoke 2 (Request.updateOpHeads ⟨"repo", [rootOperationIdBytes], [2]⟩)] ++
        [.access 2]) _ :=
    (hwriting.snoc (.invoke rfl)).snoc (.access rfl)
  have hwritten : Config.Exec _ _ (_ ++ [.access 1] ++ [.access 2]) _ :=
    (hupdating.snoc (.access rfl)).snoc (.access rfl)
  refine ⟨_, hwritten, ?_, ?_, concurrent_sound hwritten "repo"⟩
  · exact Nested.lookup_put_self ..
  · rfl

end CommitCloud.Server
