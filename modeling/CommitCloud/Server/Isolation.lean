import CommitCloud.Foundation.Isolation
import CommitCloud.Server.Programs

/-!
# Repository isolation

A repository's slice of the store is its registration and its entry in each
table.  Every access of a handler sees and changes only the slice of the
repository its request names, so requests that name other repositories have no
influence on what the requests for one repository are answered.
-/

namespace CommitCloud.Server

open Foundation CommitCloud.Proto.Backend CommitCloud.Proto.OpStore

/-! ## Slices of the store -/

structure Slice where
  registered : Bool
  commits : Option (Table CommitId Commit)
  trees : Option (Table TreeId (List TreeEntry))
  files : Option (Table FileId Bytes)
  ops : Option (Table OpId Operation)
  views : Option (Table ViewId View)
  opHeads : Option (List OpId)

def slice (repoId : RepoId) (s : MemoryStore) : Slice where
  registered := s.repos repoId
  commits := s.commits repoId
  trees := s.trees repoId
  files := s.files repoId
  ops := s.ops repoId
  views := s.views repoId
  opHeads := s.opHeads repoId

section Writes

variable {repoId : RepoId} {s s' : MemoryStore}
  (h : slice repoId s = slice repoId s')

include h

theorem slice_registerRepo :
    slice repoId (s.registerRepo repoId) = slice repoId (s'.registerRepo repoId) := by
  simp_all [slice, MemoryStore.registerRepo]

theorem slice_putCommit (id : CommitId) (commit : Commit) :
    slice repoId (s.putCommit repoId id commit) =
      slice repoId (s'.putCommit repoId id commit) := by
  simp_all [slice, MemoryStore.putCommit, Nested.put]

theorem slice_putTree (id : TreeId) (entries : List TreeEntry) :
    slice repoId (s.putTree repoId id entries) =
      slice repoId (s'.putTree repoId id entries) := by
  simp_all [slice, MemoryStore.putTree, Nested.put]

theorem slice_putFile (id : FileId) (content : Bytes) :
    slice repoId (s.putFile repoId id content) =
      slice repoId (s'.putFile repoId id content) := by
  simp_all [slice, MemoryStore.putFile, Nested.put]

theorem slice_putOperation (id : OpId) (op : Operation) :
    slice repoId (s.putOperation repoId id op) =
      slice repoId (s'.putOperation repoId id op) := by
  simp_all [slice, MemoryStore.putOperation, Nested.put]

theorem slice_putView (id : ViewId) (view : View) :
    slice repoId (s.putView repoId id view) =
      slice repoId (s'.putView repoId id view) := by
  simp_all [slice, MemoryStore.putView, Nested.put]

theorem slice_updateOpHeads (oldIds : List OpId) (newId : OpId) :
    (s.updateOpHeads repoId oldIds newId).1 =
        (s'.updateOpHeads repoId oldIds newId).1 ∧
      slice repoId (s.updateOpHeads repoId oldIds newId).2 =
        slice repoId (s'.updateOpHeads repoId oldIds newId).2 := by
  simp_all [slice, MemoryStore.updateOpHeads]

end Writes

/-! ## Programs that keep to a slice -/

section Within

variable {repoId : RepoId} {β : Type} {answer : β → Answer}

/-- What is read can be read off the slice. -/
theorem within_observe {read : MemoryStore → β} (f : Slice → β)
    (hread : ∀ s, read s = f (slice repoId s)) :
    (Program.once (observe read) answer).Within (slice repoId) := by
  refine .access (fun s s' h => ⟨?_, h⟩) fun _ => .done _
  change read s = read s'
  rw [hread, hread, h]

theorem within_mutate {answer : Unit → Answer} {write : MemoryStore → MemoryStore}
    (hwrite : ∀ {s s'}, slice repoId s = slice repoId s' →
      slice repoId (write s) = slice repoId (write s')) :
    (Program.once (mutate write) answer).Within (slice repoId) :=
  .access (fun _ _ h => ⟨rfl, hwrite h⟩) fun _ => .done _

theorem within_gated {action : String} {body : Program MemoryStore Answer}
    (hbody : body.Within (slice repoId)) :
    (gated repoId action body).Within (slice repoId) := by
  refine .access (fun s s' h => ⟨congrArg Slice.registered h, h⟩) fun registered => ?_
  cases registered with
  | false => exact .done _
  | true => exact hbody

end Within

theorem program_within (P : Platform) (req : Request) :
    (program P req).Within (slice req.repoId) := by
  cases req <;> simp only [program, Request.repoId]
  case registerRepository => exact within_mutate slice_registerRepo
  case readSymlink => exact .done _
  case writeSymlink => exact .done _
  case readCommit req =>
    exact within_gated (within_observe
      (fun part => part.commits.bind fun table => table req.commitId) fun _ => rfl)
  case writeCommit req =>
    refine within_gated ?_
    split
    · exact .done _
    · split
      · exact .done _
      · exact within_mutate fun h => slice_putCommit h _ _
  case readTree req =>
    refine within_gated ?_
    split
    · exact .done _
    · exact within_observe
        (fun part => part.trees.bind fun table => table req.treeId) fun _ => rfl
  case writeTree req =>
    refine within_gated ?_
    split
    · exact .done _
    · exact within_mutate fun h => slice_putTree h _ _
  case readFile req =>
    exact within_gated (within_observe
      (fun part => part.files.bind fun table => table req.fileId) fun _ => rfl)
  case writeFile req =>
    exact within_gated (within_mutate fun h => slice_putFile h _ _)
  case readOperation req =>
    exact within_gated (within_observe
      (fun part => part.ops.bind fun table => table req.operationId) fun _ => rfl)
  case writeOperation req =>
    split
    · exact .done _
    · exact within_gated (within_mutate fun h => slice_putOperation h _ _)
  case readView req =>
    exact within_gated (within_observe
      (fun part => part.views.bind fun table => table req.viewId) fun _ => rfl)
  case writeView req =>
    split
    · exact .done _
    · exact within_gated (within_mutate fun h => slice_putView h _ _)
  case getOpHeads req =>
    exact within_gated (within_observe Slice.opHeads fun _ => rfl)
  case updateOpHeads req =>
    exact within_gated (.access (fun _ _ h => slice_updateOpHeads h _ _)
      fun _ => .done _)

/-! ## Other repositories -/

theorem slice_of_ne {P : Platform} {s s' : MemoryStore} {req : Request}
    {answer : Answer} {repoId : RepoId} (h : Step P s req answer s')
    (hrepo : req.repoId ≠ repoId) : slice repoId s' = slice repoId s := by
  have hne : repoId ≠ req.repoId := hrepo.symm
  cases h <;>
    simp_all [Request.repoId, slice, MemoryStore.registerRepo,
      MemoryStore.putCommit, MemoryStore.putTree, MemoryStore.putFile,
      MemoryStore.putOperation, MemoryStore.putView, MemoryStore.updateOpHeads,
      Nested.put]

theorem isolates (P : Platform) (repoId : RepoId) :
    Isolates (server P) (fun req => req.repoId = repoId) (slice repoId) where
  answer s s' req hreq hslice := by
    subst hreq
    rw [← run_program, ← run_program]
    exact ((program_within P req).run_eq hslice).1
  state s s' req hreq hslice := by
    subst hreq
    rw [← run_program, ← run_program]
    exact ((program_within P req).run_eq hslice).2
  outside s req hreq := slice_of_ne (server_step P s req) hreq

/--
Leaving out any requests that name other repositories, registrations included,
changes no answer to a request that names this one.
-/
theorem repositories_isolated (P : Platform) (repoId : RepoId)
    {requests requests' : List Request}
    (h : LeavesOut (fun req => req.repoId = repoId) requests requests') :
    ((server P).trace MemoryStore.new requests).filter
        (fun call => call.1.repoId = repoId) =
      ((server P).trace MemoryStore.new requests').filter
        fun call => call.1.repoId = repoId :=
  (isolates P repoId).trace_eq h rfl

theorem repositories_isolated_twoRepos :
    ((server .reference).trace MemoryStore.new
        [.registerRepository {} "repo", .registerRepository {} "other",
          .getOpHeads ⟨"repo"⟩]).filter (fun call => call.1.repoId = "repo") =
      ((server .reference).trace MemoryStore.new
        [.registerRepository {} "repo", .getOpHeads ⟨"repo"⟩]).filter
        fun call => call.1.repoId = "repo" :=
  repositories_isolated .reference "repo"
    (.keep _ (.drop (by decide) (.keep _ .nil)))

end CommitCloud.Server
