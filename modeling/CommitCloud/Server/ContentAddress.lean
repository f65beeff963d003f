import CommitCloud.Foundation.Provenance
import CommitCloud.Server.Rpc

/-!
# Content addressing

For each kind of object, which calls write it and under which id.  In a run
from the empty store every stored object then comes from such a call, so it is
stored under the id the call computed for it.
-/

namespace CommitCloud.Server

open Foundation CommitCloud.Proto.Backend CommitCloud.Proto.OpStore

/-! ## Calls that write -/

/-- The stored commit records the id it is stored under. -/
inductive WroteCommit : Request → Answer → RepoId × CommitId → Commit → Prop where
  | mk (repoId : RepoId) (commit : Commit) (id : CommitId) :
      WroteCommit (.writeCommit ⟨repoId, some commit⟩)
        (.ok (.writeCommit ⟨id⟩)) (repoId, id) { commit with commitId := id }

inductive WroteTree :
    Request → Answer → RepoId × TreeId → List TreeEntry → Prop where
  | mk (repoId : RepoId) (path : String) (entries : List TreeEntry)
      (id : TreeId) :
      WroteTree (.writeTree ⟨repoId, path, entries⟩) (.ok (.writeTree ⟨id⟩))
        (repoId, id) entries

inductive WroteFile : Request → Answer → RepoId × FileId → Bytes → Prop where
  | mk (repoId : RepoId) (content : Bytes) (id : FileId) :
      WroteFile (.writeFile ⟨repoId, content⟩) (.ok (.writeFile ⟨id⟩))
        (repoId, id) content

inductive WroteOperation :
    Request → Answer → RepoId × OpId → Operation → Prop where
  | mk (repoId : RepoId) (op : Operation) (id : OpId) :
      WroteOperation (.writeOperation ⟨repoId, some op⟩)
        (.ok (.writeOperation ⟨id⟩)) (repoId, id) op

inductive WroteView : Request → Answer → RepoId × ViewId → View → Prop where
  | mk (repoId : RepoId) (view : View) (id : ViewId) :
      WroteView (.writeView ⟨repoId, some view⟩) (.ok (.writeView ⟨id⟩))
        (repoId, id) view

variable {P : Platform} {s s' : MemoryStore} {req : Request} {answer : Answer}

section Calls

variable {key : RepoId × Bytes}

theorem Step.wroteCommit {v : Commit} (h : Step P s req answer s')
    (hwrote : WroteCommit req answer key v) :
    ∃ commit, req = .writeCommit ⟨key.1, some commit⟩ ∧
      s.isRepoRegistered key.1 ∧
      BackendService.commitIdOf P commit = some key.2 ∧
      v = { commit with commitId := key.2 } ∧
      s' = s.putCommit key.1 key.2 v := by
  obtain ⟨repoId, commit, id⟩ := hwrote
  cases h with
  | commitWritten _ _ _ hreg hid => exact ⟨commit, rfl, hreg, hid, rfl, rfl⟩
  | unchanged _ _ hfails => exact absurd (hfails trivial) (by simp)

theorem Step.wroteTree {entries : List TreeEntry} (h : Step P s req answer s')
    (hwrote : WroteTree req answer key entries) :
    ∃ path, req = .writeTree ⟨key.1, path, entries⟩ ∧
      s.isRepoRegistered key.1 ∧
      computeGitTreeHash P entries = some key.2 ∧
      s' = s.putTree key.1 key.2 entries := by
  obtain ⟨repoId, path, entries, id⟩ := hwrote
  cases h with
  | treeWritten _ _ _ _ hreg hid => exact ⟨path, rfl, hreg, hid, rfl⟩
  | unchanged _ _ hfails => exact absurd (hfails trivial) (by simp)

theorem Step.wroteFile {content : Bytes} (h : Step P s req answer s')
    (hwrote : WroteFile req answer key content) :
    req = .writeFile ⟨key.1, content⟩ ∧ s.isRepoRegistered key.1 ∧
      computeGitBlobHash P content = key.2 ∧
      s' = s.putFile key.1 key.2 content := by
  obtain ⟨repoId, content, id⟩ := hwrote
  cases h with
  | fileWritten _ _ hreg => exact ⟨rfl, hreg, rfl, rfl⟩
  | unchanged _ _ hfails => exact absurd (hfails trivial) (by simp)

theorem Step.wroteOperation {op : Operation} (h : Step P s req answer s')
    (hwrote : WroteOperation req answer key op) :
    req = .writeOperation ⟨key.1, some op⟩ ∧ s.isRepoRegistered key.1 ∧
      hashOperation P op = key.2 ∧ s' = s.putOperation key.1 key.2 op := by
  obtain ⟨repoId, op, id⟩ := hwrote
  cases h with
  | operationWritten _ _ hreg => exact ⟨rfl, hreg, rfl, rfl⟩
  | unchanged _ _ hfails => exact absurd (hfails trivial) (by simp)

theorem Step.wroteView {view : View} (h : Step P s req answer s')
    (hwrote : WroteView req answer key view) :
    req = .writeView ⟨key.1, some view⟩ ∧ s.isRepoRegistered key.1 ∧
      hashView P view = key.2 ∧ s' = s.putView key.1 key.2 view := by
  obtain ⟨repoId, view, id⟩ := hwrote
  cases h with
  | viewWritten _ _ hreg => exact ⟨rfl, hreg, rfl, rfl⟩
  | unchanged _ _ hfails => exact absurd (hfails trivial) (by simp)

end Calls

/-! ## Tables that calls fill -/

/-- A call puts the value it writes into the table, or leaves the table alone. -/
theorem filled_of_table {ν : Type}
    {wrote : Request → Answer → RepoId × Bytes → ν → Prop}
    (table : MemoryStore → Nested RepoId Bytes ν)
    (hput : ∀ {s req answer s' key v}, Step P s req answer s' →
      wrote req answer key v → table s' = (table s).put key.1 key.2 v)
    (hkeep : ∀ {s req answer s'}, Step P s req answer s' →
      (∀ key v, ¬ wrote req answer key v) → table s' = table s) :
    Filled (server P) (fun s (key : RepoId × Bytes) =>
      (table s).lookup key.1 key.2) wrote where
  written s req key v hwrote := by
    rw [hput (server_step P s req) hwrote]
    exact Nested.lookup_put_self ..
  kept s req key := by
    by_cases hwrites : ∃ key' v, wrote req (server P s req).1 key' v
    · obtain ⟨key', v, hwrote⟩ := hwrites
      by_cases hkey : key.1 = key'.1 ∧ key.2 = key'.2
      · obtain rfl := Prod.ext hkey.1 hkey.2
        exact .inr ⟨v, hwrote⟩
      · left
        rw [hput (server_step P s req) hwrote, Nested.lookup_put, if_neg hkey]
    · left
      rw [hkeep (server_step P s req) fun key' v hwrote =>
        hwrites ⟨key', v, hwrote⟩]

theorem filled_commits : Filled (server P)
    (fun s (key : RepoId × CommitId) => s.getCommit key.1 key.2) WroteCommit := by
  refine filled_of_table MemoryStore.commits (fun h hwrote => ?_)
    fun h hnone => ?_
  · obtain ⟨_, -, -, -, -, rfl⟩ := h.wroteCommit hwrote
    rfl
  · cases h with
    | commitWritten repoId commit id =>
        exact absurd (.mk repoId commit id) (hnone _ _)
    | _ => rfl

theorem filled_trees : Filled (server P)
    (fun s (key : RepoId × TreeId) => s.getTree key.1 key.2) WroteTree := by
  refine filled_of_table MemoryStore.trees (fun h hwrote => ?_)
    fun h hnone => ?_
  · obtain ⟨_, -, -, -, rfl⟩ := h.wroteTree hwrote
    rfl
  · cases h with
    | treeWritten repoId path entries id =>
        exact absurd (.mk repoId path entries id) (hnone _ _)
    | _ => rfl

theorem filled_files : Filled (server P)
    (fun s (key : RepoId × FileId) => s.getFile key.1 key.2) WroteFile := by
  refine filled_of_table MemoryStore.files (fun h hwrote => ?_)
    fun h hnone => ?_
  · obtain ⟨-, -, -, rfl⟩ := h.wroteFile hwrote
    rfl
  · cases h with
    | fileWritten repoId content =>
        exact absurd (.mk repoId content _) (hnone _ _)
    | _ => rfl

theorem filled_ops : Filled (server P)
    (fun s (key : RepoId × OpId) => s.getOperation key.1 key.2) WroteOperation := by
  refine filled_of_table MemoryStore.ops (fun h hwrote => ?_)
    fun h hnone => ?_
  · obtain ⟨-, -, -, rfl⟩ := h.wroteOperation hwrote
    rfl
  · cases h with
    | operationWritten repoId op => exact absurd (.mk repoId op _) (hnone _ _)
    | _ => rfl

theorem filled_views : Filled (server P)
    (fun s (key : RepoId × ViewId) => s.getView key.1 key.2) WroteView := by
  refine filled_of_table MemoryStore.views (fun h hwrote => ?_)
    fun h hnone => ?_
  · obtain ⟨-, -, -, rfl⟩ := h.wroteView hwrote
    rfl
  · cases h with
    | viewWritten repoId view => exact absurd (.mk repoId view _) (hnone _ _)
    | _ => rfl

/-! ## Writes of a run -/

theorem registered_append {repoId : RepoId} {before : List Request}
    (hreg : ((server P).finalState s before).isRepoRegistered repoId)
    (after : List Request) :
    ((server P).finalState s (before ++ after)).isRepoRegistered repoId := by
  rw [Reactive.finalState_append]
  exact (server P).invariant (I := fun s => s.isRepoRegistered repoId) hreg
    fun s req _ hregistered => (server_step P s req).isRepoRegistered hregistered

theorem registered_of_written {ν : Type}
    {wrote : Request → Answer → RepoId × Bytes → ν → Prop}
    (hreg : ∀ {s req answer s' key v}, Step P s req answer s' →
      wrote req answer key v → s.isRepoRegistered key.1)
    {key : RepoId × Bytes} {v : ν} {requests : List Request}
    (h : Written wrote ((server P).trace s requests) key v) :
    ((server P).finalState s requests).isRepoRegistered key.1 := by
  obtain ⟨before, req, ⟨after, rfl⟩, hwrote⟩ := written_iff.mp h
  rw [List.append_assoc]
  exact registered_append (hreg (server_step P _ _) hwrote) _

theorem registered_of_stored {ν : Type} {stored : MemoryStore → RepoId × Bytes → Option ν}
    {wrote : Request → Answer → RepoId × Bytes → ν → Prop}
    (hfilled : Filled (server P) stored wrote)
    (hreg : ∀ {s req answer s' key v}, Step P s req answer s' →
      wrote req answer key v → s.isRepoRegistered key.1)
    (hempty : ∀ key, stored MemoryStore.new key = none) {key : RepoId × Bytes} {v : ν}
    {requests : List Request}
    (h : stored ((server P).finalState MemoryStore.new requests) key = some v) :
    ((server P).finalState MemoryStore.new requests).isRepoRegistered key.1 :=
  registered_of_written hreg (hfilled.provenance hempty key h)

/-- The run makes the call while the repository is registered. -/
def Accepted (P : Platform) (requests : List Request) (repoId : RepoId)
    (req : Request) : Prop :=
  ∃ before, before ++ [req] <+: requests ∧
    ((server P).finalState MemoryStore.new before).isRepoRegistered repoId

theorem Accepted.mem {requests : List Request} {repoId : RepoId}
    (h : Accepted P requests repoId req) : req ∈ requests := by
  obtain ⟨before, hinitial, -⟩ := h
  exact hinitial.subset (by simp)

/-- Every call after the registration of its repository is accepted. -/
theorem Accepted.of_registered {info : RegisterRepositoryRequest}
    {repoId : RepoId} {requests : List Request} (before between : List Request)
    (hinitial : before ++ .registerRepository info repoId :: between ++ [req] <+:
      requests) : Accepted P requests repoId req := by
  refine ⟨_, hinitial, ?_⟩
  rw [← List.singleton_append, ← List.append_assoc]
  refine registered_append ?_ between
  rw [Reactive.finalState_concat]
  exact Function.update_self ..

section Accepted

variable {ν : Type} {wrote : Request → Answer → RepoId × Bytes → ν → Prop}
  {requests : List Request} (request : RepoId → ν → Request) (hash : ν → Bytes)

/-- What a run wrote under an id are the accepted values with that hash. -/
theorem written_iff_accepted
    (hstep : ∀ {s req answer s' key v}, Step P s req answer s' →
      wrote req answer key v →
      req = request key.1 v ∧ s.isRepoRegistered key.1 ∧ hash v = key.2)
    (hwrites : ∀ {s repoId} v, s.isRepoRegistered repoId →
      wrote (request repoId v) (server P s (request repoId v)).1
        (repoId, hash v) v) {repoId : RepoId} {id : Bytes} {v : ν} :
    Written wrote ((server P).trace MemoryStore.new requests) (repoId, id) v ↔
      Accepted P requests repoId (request repoId v) ∧ hash v = id := by
  constructor
  · intro h
    obtain ⟨before, req, hinitial, hwrote⟩ := written_iff.mp h
    obtain ⟨rfl, hreg, hid⟩ := hstep (server_step P _ _) hwrote
    exact ⟨⟨before, hinitial, hreg⟩, hid⟩
  · rintro ⟨⟨before, hinitial, hreg⟩, rfl⟩
    exact written_iff.mpr ⟨before, _, hinitial, hwrites v hreg⟩

/--
Ids identify values exactly if accepted values that collide are the same, where
the values that collide are those with a common hash.
-/
theorem identifies_iff_collide {stored : MemoryStore → RepoId × Bytes → Option ν}
    (same : ν → ν → Prop) {collide : ν → ν → Prop}
    (hfilled : Filled (server P) stored wrote)
    (hempty : ∀ key, stored MemoryStore.new key = none)
    (hwritten : ∀ {repoId id v},
      Written wrote ((server P).trace MemoryStore.new requests) (repoId, id) v ↔
        Accepted P requests repoId (request repoId v) ∧ hash v = id)
    (hcollide : ∀ {repoId v v'}, Accepted P requests repoId (request repoId v) →
      Accepted P requests repoId (request repoId v') →
      (hash v = hash v' ↔ collide v v')) :
    Identifies (server P) stored wrote same MemoryStore.new requests ↔
      ∀ repoId v v', Accepted P requests repoId (request repoId v) →
        Accepted P requests repoId (request repoId v') → collide v v' →
        same v v' := by
  rw [hfilled.identifies_iff hempty requests]
  constructor
  · intro hunique repoId v v' hv hv' h
    have hid : hash v' = hash v := ((hcollide hv hv').mpr h).symm
    exact hunique (repoId, hash v) v v' (hwritten.mpr ⟨hv, rfl⟩)
      (hwritten.mpr ⟨hv', hid⟩)
  · rintro hsame ⟨repoId, id⟩ v v' h h'
    obtain ⟨hv, rfl⟩ := hwritten.mp h
    obtain ⟨hv', hid⟩ := hwritten.mp h'
    exact hsame repoId v v' hv hv' ((hcollide hv hv').mp hid.symm)

end Accepted

theorem computeGitCommitHash_commitId (P : Platform) (commit : Commit)
    (id : CommitId) :
    computeGitCommitHash P { commit with commitId := id } =
      computeGitCommitHash P commit := rfl

/-! ## Content-address integrity -/

/--
Every object is stored under its hash.  A commit may also be stored under an
id that a write request named for this very commit.
-/
structure ContentAddressed (P : Platform) (requests : List Request)
    (s : MemoryStore) : Prop where
  commit : ∀ repoId id commit, s.getCommit repoId id = some commit →
    commit.commitId = id ∧ (computeGitCommitHash P commit = some id ∨
      id ≠ [] ∧ .writeCommit ⟨repoId, some commit⟩ ∈ requests)
  tree : ∀ repoId id entries, s.getTree repoId id = some entries →
    computeGitTreeHash P entries = some id
  file : ∀ repoId id content, s.getFile repoId id = some content →
    computeGitBlobHash P content = id
  operation : ∀ repoId id op, s.getOperation repoId id = some op →
    hashOperation P op = id
  view : ∀ repoId id view, s.getView repoId id = some view →
    hashView P view = id

theorem contentAddressed (P : Platform) (requests : List Request) :
    ContentAddressed P requests
      ((server P).finalState MemoryStore.new requests) where
  commit repoId id stored hstored := by
    obtain ⟨before, req, hinitial, hwrote⟩ :=
      filled_commits.exists_write (fun _ => rfl) (repoId, id) hstored
    obtain ⟨commit, rfl, -, hid, rfl, -⟩ := (server_step P _ _).wroteCommit hwrote
    refine ⟨rfl, ?_⟩
    unfold BackendService.commitIdOf at hid
    split at hid
    next => exact .inl ((computeGitCommitHash_commitId ..).trans hid)
    next hnonempty =>
      -- the request named the id, so storing the commit did not change it
      obtain rfl := Option.some.inj hid
      refine .inr ⟨by simpa using hnonempty, hinitial.subset ?_⟩
      simp
  tree repoId id entries hstored := by
    obtain ⟨before, req, -, hwrote⟩ :=
      filled_trees.exists_write (fun _ => rfl) (repoId, id) hstored
    obtain ⟨path, -, -, hid, -⟩ := (server_step P _ _).wroteTree hwrote
    exact hid
  file repoId id content hstored := by
    obtain ⟨before, req, -, hwrote⟩ :=
      filled_files.exists_write (fun _ => rfl) (repoId, id) hstored
    exact ((server_step P _ _).wroteFile hwrote).2.2.1
  operation repoId id op hstored := by
    obtain ⟨before, req, -, hwrote⟩ :=
      filled_ops.exists_write (fun _ => rfl) (repoId, id) hstored
    exact ((server_step P _ _).wroteOperation hwrote).2.2.1
  view repoId id view hstored := by
    obtain ⟨before, req, -, hwrote⟩ :=
      filled_views.exists_write (fun _ => rfl) (repoId, id) hstored
    exact ((server_step P _ _).wroteView hwrote).2.2.1

theorem length_of_computeGitCommitHash {commit : Commit} {id : Bytes}
    (h : computeGitCommitHash P commit = some id) : id.length = 20 := by
  obtain ⟨buf, -, rfl⟩ := Option.map_eq_some_iff.mp h
  exact (P.computeHash .commit buf).length_eq

/-- A request that names a one-byte id stores a commit under no hash. -/
theorem namedCommit_not_addressed :
    ¬ ∀ (requests : List Request) (repoId : RepoId) (id : CommitId)
      (commit : Commit),
      ((server .reference).finalState MemoryStore.new requests).getCommit repoId
        id = some commit →
      commit.commitId = id ∧ computeGitCommitHash .reference commit = some id := by
  intro h
  obtain ⟨-, hid⟩ := h
    [.registerRepository {} "repo",
      .writeCommit ⟨"repo", some { commitId := [1] }⟩]
    "repo" [1] { commitId := [1] } (by decide)
  exact absurd (length_of_computeGitCommitHash hid) (by decide)

end CommitCloud.Server
