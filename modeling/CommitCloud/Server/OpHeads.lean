import CommitCloud.Foundation.Ancestry
import CommitCloud.Server.Rpc

/-!
# Operation heads

What an update does to the head list of a repository, and that no other call
touches it.  From this it follows that published history stays reachable as
long as every update names a successor of the heads it replaces.
-/

namespace CommitCloud.Server

open Foundation CommitCloud.Proto.Backend CommitCloud.Proto.OpStore

/-! ## One update of the head list -/

section UpdateHeads

variable {currentHeads oldIds : List OpId} {newId head : OpId}

/-- The update takes effect: no old ids are named, or one of them is a head. -/
def TakesEffect (currentHeads oldIds : List OpId) : Prop :=
  oldIds = [] ∨ ∃ head ∈ currentHeads, head ∈ oldIds

/-- The heads that an update does not name. -/
def retainedHeads (currentHeads oldIds : List OpId) : List OpId :=
  currentHeads.filter fun head => !oldIds.contains head

theorem mem_retainedHeads :
    head ∈ retainedHeads currentHeads oldIds ↔
      head ∈ currentHeads ∧ head ∉ oldIds := by
  simp [retainedHeads]

theorem retainedHeads_eq_self (h : ∀ head ∈ currentHeads, head ∉ oldIds) :
    retainedHeads currentHeads oldIds = currentHeads := by
  rw [retainedHeads, List.filter_eq_self]
  exact fun head hhead => by simpa using h head hhead

theorem updateHeads_of_takesEffect (h : TakesEffect currentHeads oldIds) :
    updateHeads currentHeads oldIds newId =
      if newId ∈ retainedHeads currentHeads oldIds
      then retainedHeads currentHeads oldIds
      else retainedHeads currentHeads oldIds ++ [newId] := by
  rcases h with rfl | ⟨head, hhead, hold⟩
  · simp [updateHeads, retainedHeads]
  · have hne : oldIds ≠ [] := List.ne_nil_of_mem hold
    have hremoved : (currentHeads.any fun head => oldIds.contains head) = true := by
      rw [List.any_eq_true]
      exact ⟨head, hhead, by simpa using hold⟩
    have hupdate : updateHeads currentHeads oldIds newId =
        if !(retainedHeads currentHeads oldIds).contains newId
        then retainedHeads currentHeads oldIds ++ [newId]
        else retainedHeads currentHeads oldIds := by
      simp only [updateHeads, List.isEmpty_iff, hne, if_false, hremoved, Bool.true_and,
        retainedHeads]
      rfl
    rw [hupdate]
    by_cases hnew : newId ∈ retainedHeads currentHeads oldIds <;> simp [hnew]

theorem updateHeads_of_not_takesEffect
    (h : ¬ TakesEffect currentHeads oldIds) :
    updateHeads currentHeads oldIds newId = currentHeads := by
  simp only [TakesEffect, not_or, not_exists, not_and] at h
  obtain ⟨hne, hstale⟩ := h
  have hremoved : (currentHeads.any fun head => oldIds.contains head) = false := by
    rw [List.any_eq_false]
    exact fun head hhead => by simpa using hstale head hhead
  have hretained : retainedHeads currentHeads oldIds = currentHeads :=
    retainedHeads_eq_self hstale
  rw [retainedHeads] at hretained
  simp only [updateHeads, List.isEmpty_iff, hne, if_false, hremoved, hretained,
    Bool.false_and, Bool.false_eq_true]

theorem mem_updateHeads_of_not_old (hhead : head ∈ currentHeads)
    (hold : head ∉ oldIds) : head ∈ updateHeads currentHeads oldIds newId := by
  by_cases heffect : TakesEffect currentHeads oldIds
  · have hretained := mem_retainedHeads.mpr ⟨hhead, hold⟩
    rw [updateHeads_of_takesEffect heffect]
    split
    · exact hretained
    · exact List.mem_append_left _ hretained
  · rwa [updateHeads_of_not_takesEffect heffect]

theorem newId_mem_updateHeads (h : TakesEffect currentHeads oldIds) :
    newId ∈ updateHeads currentHeads oldIds newId := by
  rw [updateHeads_of_takesEffect h]
  split
  next hnew => exact hnew
  next => exact List.mem_append_right _ (List.mem_singleton_self newId)

theorem mem_updateHeads (h : head ∈ updateHeads currentHeads oldIds newId) :
    head ∈ currentHeads ∨ head = newId := by
  by_cases heffect : TakesEffect currentHeads oldIds
  · rw [updateHeads_of_takesEffect heffect] at h
    split at h
    · exact .inl (mem_retainedHeads.mp h).1
    · rcases List.mem_append.mp h with hretained | hnew
      · exact .inl (mem_retainedHeads.mp hretained).1
      · exact .inr (List.mem_singleton.mp hnew)
  · rw [updateHeads_of_not_takesEffect heffect] at h
    exact .inl h

theorem covered_updateHeads {parent : OpId → OpId → Prop}
    (hnew : ∀ old ∈ oldIds, Relation.ReflTransGen parent old newId)
    (hhead : head ∈ currentHeads) :
    Covered parent (updateHeads currentHeads oldIds newId) head := by
  by_cases hold : head ∈ oldIds
  · have heffect : TakesEffect currentHeads oldIds := .inr ⟨head, hhead, hold⟩
    exact ⟨newId, newId_mem_updateHeads heffect, hnew head hold⟩
  · exact .of_mem (mem_updateHeads_of_not_old hhead hold)

end UpdateHeads

/-! ## Heads along a run -/

variable {P : Platform} {s s' : MemoryStore} {req : Request} {answer : Answer}

theorem MemoryStore.heads_updateOpHeads (s : MemoryStore) (repoId : RepoId)
    (oldIds : List OpId) (newId : OpId) :
    (s.updateOpHeads repoId oldIds newId).2.heads repoId =
      updateHeads (s.heads repoId) oldIds newId := by
  simp [MemoryStore.updateOpHeads, MemoryStore.heads, MemoryStore.getOpHeads]

theorem MemoryStore.heads_updateOpHeads_of_ne {repoId repoId' : RepoId}
    (h : repoId ≠ repoId') (s : MemoryStore) (oldIds : List OpId)
    (newId : OpId) :
    (s.updateOpHeads repoId' oldIds newId).2.heads repoId = s.heads repoId := by
  simp [MemoryStore.updateOpHeads, MemoryStore.heads, MemoryStore.getOpHeads, h]

theorem Step.heads (h : Step P s req answer s') (repoId : RepoId) :
    s'.heads repoId = s.heads repoId ∨
      ∃ oldIds newId, req = .updateOpHeads ⟨repoId, oldIds, newId⟩ ∧
        s'.heads repoId = updateHeads (s.heads repoId) oldIds newId := by
  cases h with
  | headsUpdated repoId' oldIds newId hreg =>
      by_cases hrepo : repoId = repoId'
      · subst hrepo
        exact .inr ⟨oldIds, newId, rfl, s.heads_updateOpHeads ..⟩
      · exact .inl (s.heads_updateOpHeads_of_ne hrepo ..)
  | _ => exact .inl rfl

def Request.Supersedes (parent : OpId → OpId → Prop) (repoId : RepoId) :
    Request → Prop
  | .updateOpHeads req => req.repoId = repoId →
      ∀ old ∈ req.oldOpHeadIds, Relation.ReflTransGen parent old req.newOpHeadId
  | _ => True

theorem Step.covered {parent : OpId → OpId → Prop} {repoId : RepoId} {x : OpId}
    (h : Step P s req answer s') (hreq : req.Supersedes parent repoId)
    (hcovered : Covered parent (s.heads repoId) x) :
    Covered parent (s'.heads repoId) x := by
  rcases h.heads repoId with hheads | ⟨oldIds, newId, rfl, hheads⟩
  · rwa [hheads]
  · rw [hheads]
    exact hcovered.replace fun head hhead =>
      covered_updateHeads (hreq rfl) hhead

theorem server_getOpHeads (P : Platform) (s : MemoryStore) (repoId : RepoId) :
    (server P s (.getOpHeads ⟨repoId⟩)).1 =
      if s.isRepoRegistered repoId then
        .ok (.getOpHeads ⟨s.heads repoId⟩)
      else .error (.status ⟨.notFound,
        unregisteredMessage "requesting op heads" repoId⟩) := by
  simp only [server, handle, Handler.call_map, OpStoreService.call_getOpHeads]
  cases s.isRepoRegistered repoId <;> rfl

/--
Published history never becomes unreachable: what the heads told to a client
cover at one point of a run is covered by the heads told at every later point.
-/
theorem publishedHistory_reachable {parent : OpId → OpId → Prop}
    {repoId : RepoId} {heads : List OpId} {x : OpId}
    (hheads : (server P s (.getOpHeads ⟨repoId⟩)).1 =
      .ok (.getOpHeads ⟨heads⟩))
    (hcovered : Covered parent heads x) {requests : List Request}
    (hrun : ∀ req ∈ requests, req.Supersedes parent repoId) :
    ∃ heads', (server P ((server P).finalState s requests)
        (.getOpHeads ⟨repoId⟩)).1 = .ok (.getOpHeads ⟨heads'⟩) ∧
      Covered parent heads' x := by
  rw [server_getOpHeads] at hheads
  split at hheads
  next hreg =>
    obtain ⟨hreg', hcovered'⟩ := (server P).invariant
      (I := fun s => s.isRepoRegistered repoId ∧
        Covered parent (s.heads repoId) x)
      ⟨hreg, by simp_all⟩
      fun s req (hreq : req ∈ requests) ⟨hreg, hcovered⟩ =>
        ⟨(server_step P s req).isRepoRegistered hreg,
          (server_step P s req).covered (hrun req hreq) hcovered⟩
    exact ⟨_, by rw [server_getOpHeads, if_pos hreg'], hcovered'⟩
  next => cases hheads

theorem publishedHistory_reachable_once :
    ∃ heads, (server .reference ((server .reference).finalState
        (MemoryStore.new.registerRepo "repo")
        [.updateOpHeads ⟨"repo", [rootOperationIdBytes], [1]⟩])
        (.getOpHeads ⟨"repo"⟩)).1 = .ok (.getOpHeads ⟨heads⟩) ∧
      Covered (fun p c => p = rootOperationIdBytes ∧ c = [1]) heads
        rootOperationIdBytes := by
  refine publishedHistory_reachable (s := MemoryStore.new.registerRepo "repo") rfl
    (.of_mem (List.mem_singleton_self _)) fun req hreq => ?_
  rw [List.mem_singleton] at hreq
  subst hreq
  rintro - old hold
  rw [List.mem_singleton] at hold
  exact .single ⟨hold, rfl⟩

end CommitCloud.Server
