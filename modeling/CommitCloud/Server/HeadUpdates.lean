import CommitCloud.Foundation.Supersede
import CommitCloud.Server.ContentAddress
import CommitCloud.Server.OpHeads

/-!
# The laws of head updates

As a set, the head list is updated by superseding heads, so independent
updates commute.  As a list it never is empty and never holds an id twice, and
an update that is sent again changes nothing.
-/

namespace CommitCloud.Server

open Foundation CommitCloud.Proto.OpStore

/-! ## One update, as a list -/

section Lists

variable {currentHeads oldIds : List OpId} {newId head : OpId}

/-- An update that was just done has nothing left to do. -/
theorem updateHeads_updateHeads :
    updateHeads (updateHeads currentHeads oldIds newId) oldIds newId =
      updateHeads currentHeads oldIds newId := by
  by_cases heffect : TakesEffect currentHeads oldIds
  · by_cases hold : newId ∈ oldIds
    · -- the new head is removed and appended again
      have hnot : newId ∉ retainedHeads currentHeads oldIds := fun h =>
        (mem_retainedHeads.mp h).2 hold
      have hheads : updateHeads currentHeads oldIds newId =
          retainedHeads currentHeads oldIds ++ [newId] := by
        rw [updateHeads_of_takesEffect heffect, if_neg hnot]
      have hretained : retainedHeads (retainedHeads currentHeads oldIds ++ [newId])
          oldIds = retainedHeads currentHeads oldIds := by
        simp [retainedHeads, List.filter_append, hold]
      have hagain : TakesEffect (retainedHeads currentHeads oldIds ++ [newId]) oldIds :=
        .inr ⟨newId, by simp, hold⟩
      rw [hheads, updateHeads_of_takesEffect hagain, hretained, if_neg hnot]
    · -- no old head is left
      have hnew : newId ∈ updateHeads currentHeads oldIds newId :=
        newId_mem_updateHeads heffect
      have hgone : ∀ head ∈ updateHeads currentHeads oldIds newId, head ∉ oldIds := by
        intro head hhead
        rw [updateHeads_of_takesEffect heffect] at hhead
        split at hhead
        · exact (mem_retainedHeads.mp hhead).2
        · rcases List.mem_append.mp hhead with hhead | hhead
          · exact (mem_retainedHeads.mp hhead).2
          · rwa [List.mem_singleton.mp hhead]
      by_cases hagain : TakesEffect (updateHeads currentHeads oldIds newId) oldIds
      · rw [updateHeads_of_takesEffect hagain, retainedHeads_eq_self hgone, if_pos hnew]
      · exact updateHeads_of_not_takesEffect hagain
  · rw [updateHeads_of_not_takesEffect heffect,
      updateHeads_of_not_takesEffect heffect]

theorem nodup_updateHeads (h : currentHeads.Nodup) :
    (updateHeads currentHeads oldIds newId).Nodup := by
  by_cases heffect : TakesEffect currentHeads oldIds
  · have hretained : (retainedHeads currentHeads oldIds).Nodup := h.filter _
    rw [updateHeads_of_takesEffect heffect]
    split
    next => exact hretained
    next hnew =>
      refine List.nodup_append.mpr ⟨hretained, List.nodup_singleton newId, ?_⟩
      intro head hhead other hother
      rw [List.mem_singleton.mp hother]
      exact ne_of_mem_of_not_mem hhead hnew
  · rwa [updateHeads_of_not_takesEffect heffect]

theorem takesEffect_iff_applies : TakesEffect currentHeads oldIds ↔
    Applies {head | head ∈ currentHeads} {head | head ∈ oldIds} := by
  have hempty : {head | head ∈ oldIds} = ∅ ↔ oldIds = [] := by
    rw [Set.eq_empty_iff_forall_notMem, List.eq_nil_iff_forall_not_mem]
    rfl
  rw [Applies, hempty]
  rfl

/-- As a set, the head list is updated by superseding heads. -/
theorem setOf_updateHeads :
    {head | head ∈ updateHeads currentHeads oldIds newId} =
      supersede {head | head ∈ currentHeads} {head | head ∈ oldIds} newId := by
  by_cases heffect : TakesEffect currentHeads oldIds
  · rw [updateHeads_of_takesEffect heffect,
      supersede_of_applies (takesEffect_iff_applies.mp heffect)]
    ext head
    by_cases hnew : newId ∈ retainedHeads currentHeads oldIds
    · simp only [if_pos hnew, Set.mem_ofPred_eq, Set.mem_insert_iff, Set.mem_sdiff,
        ← mem_retainedHeads]
      constructor
      · exact .inr
      · rintro (rfl | hhead)
        · exact hnew
        · exact hhead
    · simp only [if_neg hnew, List.mem_append, List.mem_singleton, Set.mem_ofPred_eq,
        Set.mem_insert_iff, Set.mem_sdiff, ← mem_retainedHeads]
      exact or_comm
  · rw [updateHeads_of_not_takesEffect heffect,
      supersede_of_not_applies (mt takesEffect_iff_applies.mpr heffect)]

theorem updateHeads_ne_nil (h : currentHeads ≠ []) :
    updateHeads currentHeads oldIds newId ≠ [] := by
  have hnonempty : {head | head ∈ currentHeads}.Nonempty :=
    List.exists_mem_of_ne_nil currentHeads h
  have hupdated : (supersede {head | head ∈ currentHeads} {head | head ∈ oldIds}
      newId).Nonempty := supersede_nonempty hnonempty
  rw [← setOf_updateHeads] at hupdated
  obtain ⟨head, hhead⟩ := hupdated
  exact List.ne_nil_of_mem hhead

theorem setOf_updateHeads_comm {oldIds' : List OpId} {newId' : OpId}
    (hold : oldIds.Disjoint oldIds') (hnew : newId ∉ oldIds') (hnew' : newId' ∉ oldIds) :
    {head | head ∈ updateHeads (updateHeads currentHeads oldIds newId) oldIds' newId'} =
      {head | head ∈ updateHeads (updateHeads currentHeads oldIds' newId') oldIds
        newId} := by
  rw [setOf_updateHeads, setOf_updateHeads, setOf_updateHeads, setOf_updateHeads]
  exact supersede_comm (Set.disjoint_left.mpr fun _ => @hold _) hnew hnew'

end Lists

/-! ## Updates of the store -/

theorem MemoryStore.updateOpHeads_updateOpHeads (s : MemoryStore) (repoId : RepoId)
    (oldIds : List OpId) (newId : OpId) :
    (s.updateOpHeads repoId oldIds newId).2.updateOpHeads repoId oldIds newId =
      s.updateOpHeads repoId oldIds newId := by
  simp only [updateOpHeads, Table.insert_self, Option.getD_some,
    updateHeads_updateHeads, Table.insert_insert]

theorem server_updateOpHeads (P : Platform) (s : MemoryStore)
    (req : UpdateOpHeadsRequest) :
    server P s (.updateOpHeads req) =
      if s.isRepoRegistered req.repoId then
        let updated := s.updateOpHeads req.repoId req.oldOpHeadIds req.newOpHeadId
        (.ok (.updateOpHeads ⟨updated.1⟩), updated.2)
      else unregistered s "updating op heads" req.repoId := by
  simp only [server, handle, Handler.call_map, OpStoreService.call_updateOpHeads]
  cases s.isRepoRegistered req.repoId <;> rfl

/-- An update that is sent twice leaves what it left, and is answered as before. -/
theorem updateOpHeads_retry (P : Platform) (s : MemoryStore)
    (req : UpdateOpHeadsRequest) :
    (s.updateOpHeads req.repoId req.oldOpHeadIds req.newOpHeadId).2.updateOpHeads
        req.repoId req.oldOpHeadIds req.newOpHeadId =
      s.updateOpHeads req.repoId req.oldOpHeadIds req.newOpHeadId ∧
    server P (server P s (.updateOpHeads req)).2 (.updateOpHeads req) =
      server P s (.updateOpHeads req) := by
  refine ⟨s.updateOpHeads_updateOpHeads .., ?_⟩
  cases hreg : s.isRepoRegistered req.repoId with
  | false => simp [server_updateOpHeads, unregistered, hreg]
  | true =>
      have hreg' : (s.updateOpHeads req.repoId req.oldOpHeadIds
          req.newOpHeadId).2.isRepoRegistered req.repoId := hreg
      rw [server_updateOpHeads P s, if_pos hreg, server_updateOpHeads, if_pos hreg',
        s.updateOpHeads_updateOpHeads]

/-- Updates that do not name each other's heads leave the same heads in either order. -/
theorem updateOpHeads_comm (s : MemoryStore) (repoId : RepoId)
    {oldIds oldIds' : List OpId} {newId newId' : OpId}
    (hold : oldIds.Disjoint oldIds') (hnew : newId ∉ oldIds') (hnew' : newId' ∉ oldIds) :
    {head | head ∈ ((s.updateOpHeads repoId oldIds newId).2.updateOpHeads repoId
        oldIds' newId').2.heads repoId} =
      {head | head ∈ ((s.updateOpHeads repoId oldIds' newId').2.updateOpHeads repoId
        oldIds newId).2.heads repoId} := by
  simp only [MemoryStore.heads_updateOpHeads]
  exact setOf_updateHeads_comm hold hnew hnew'

/-- Two clients each replace the head they know. -/
theorem updateOpHeads_comm_siblings :
    let s := (MemoryStore.new.updateOpHeads "repo" [] [1]).2
    {head | head ∈ ((s.updateOpHeads "repo" [rootOperationIdBytes] [2]).2.updateOpHeads
        "repo" [[1]] [3]).2.heads "repo"} =
      {head | head ∈ ((s.updateOpHeads "repo" [[1]] [3]).2.updateOpHeads
        "repo" [rootOperationIdBytes] [2]).2.heads "repo"} :=
  updateOpHeads_comm _ "repo" (List.disjoint_singleton.mpr (by decide)) (by decide)
    (by decide)

/-! ## The head list of a run -/

variable {P : Platform} {requests : List Request} {repoId : RepoId}

/-- The run sends an update with this new id for the registered repository. -/
def SentHead (P : Platform) (requests : List Request) (repoId : RepoId) (id : OpId) :
    Prop :=
  ∃ oldIds, Accepted P requests repoId (.updateOpHeads ⟨repoId, oldIds, id⟩)

/-- What holds of the heads of a repository at every point of the run. -/
structure SoundHeads (P : Platform) (requests : List Request) (repoId : RepoId)
    (heads : List OpId) : Prop where
  nonempty : heads ≠ []
  nodup : heads.Nodup
  sent : ∀ id ∈ heads, id = rootOperationIdBytes ∨ SentHead P requests repoId id
  initial : (∀ id, ¬ SentHead P requests repoId id) → heads = [rootOperationIdBytes]

theorem SoundHeads.updateHeads {heads oldIds : List OpId} {newId : OpId}
    (h : SoundHeads P requests repoId heads) (hsent : SentHead P requests repoId newId) :
    SoundHeads P requests repoId (updateHeads heads oldIds newId) where
  nonempty := updateHeads_ne_nil h.nonempty
  nodup := nodup_updateHeads h.nodup
  sent id hid := by
    rcases mem_updateHeads hid with hid | rfl
    · exact h.sent id hid
    · exact .inr hsent
  initial hnone := absurd hsent (hnone newId)

theorem soundHeads (P : Platform) (requests : List Request) (repoId : RepoId) :
    SoundHeads P requests repoId
      (((server P).finalState MemoryStore.new requests).heads repoId) := by
  refine (server P).invariant_along
    (I := fun s => SoundHeads P requests repoId (s.heads repoId))
    ?_ (fun before req hinitial h => ?_) List.prefix_rfl
  · exact {
      nonempty := List.cons_ne_nil _ _
      nodup := List.nodup_singleton _
      sent := fun id hid => .inl (List.mem_singleton.mp hid)
      initial := fun _ => rfl }
  · rcases (server_step P _ req).heads repoId with hheads | ⟨oldIds, newId, rfl, hheads⟩
    · rwa [hheads]
    · cases hreg : ((server P).finalState MemoryStore.new before).isRepoRegistered
          repoId with
      | false =>
          rw [server_updateOpHeads, if_neg (by simp [hreg])]
          exact h
      | true =>
          rw [hheads]
          exact h.updateHeads ⟨oldIds, before, hinitial, hreg⟩

/--
The heads a client is told are sound.  An update is answered with the heads
that are told next, and one that names only heads that are gone changes none.
-/
structure HeadsAnswered (P : Platform) (requests : List Request) (repoId : RepoId) :
    Prop where
  told : ∃ heads, (server P ((server P).finalState MemoryStore.new requests)
      (.getOpHeads ⟨repoId⟩)).1 = .ok (.getOpHeads ⟨heads⟩) ∧
    SoundHeads P requests repoId heads
  updated : ∀ oldIds newId, ∃ heads s',
    server P ((server P).finalState MemoryStore.new requests)
        (.updateOpHeads ⟨repoId, oldIds, newId⟩) = (.ok (.updateOpHeads ⟨heads⟩), s') ∧
      (server P s' (.getOpHeads ⟨repoId⟩)).1 = .ok (.getOpHeads ⟨heads⟩)
  stale : ∀ heads oldIds newId,
    (server P ((server P).finalState MemoryStore.new requests)
      (.getOpHeads ⟨repoId⟩)).1 = .ok (.getOpHeads ⟨heads⟩) →
    oldIds ≠ [] → (∀ old ∈ oldIds, old ∉ heads) →
    (server P ((server P).finalState MemoryStore.new
        (requests ++ [.updateOpHeads ⟨repoId, oldIds, newId⟩]))
      (.getOpHeads ⟨repoId⟩)).1 = .ok (.getOpHeads ⟨heads⟩)

theorem server_getOpHeads_iff {s : MemoryStore} (hreg : s.isRepoRegistered repoId)
    {heads : List OpId} :
    (server P s (.getOpHeads ⟨repoId⟩)).1 = .ok (.getOpHeads ⟨heads⟩) ↔
      s.heads repoId = heads := by
  rw [server_getOpHeads, if_pos hreg]
  simp

/-- What an update answers is what is told next. -/
theorem told_after_update {s : MemoryStore} (hreg : s.isRepoRegistered repoId)
    (oldIds : List OpId) (newId : OpId) :
    (server P (server P s (.updateOpHeads ⟨repoId, oldIds, newId⟩)).2
        (.getOpHeads ⟨repoId⟩)).1 =
      .ok (.getOpHeads ⟨updateHeads (s.heads repoId) oldIds newId⟩) := by
  have hreg' : (s.updateOpHeads repoId oldIds newId).2.isRepoRegistered repoId := hreg
  rw [server_updateOpHeads, if_pos hreg]
  exact (server_getOpHeads_iff hreg').mpr (s.heads_updateOpHeads ..)

/-- The heads of a registered repository are sound at every point of a run. -/
theorem headsAnswered (P : Platform) (requests : List Request)
    (hreg : ((server P).finalState MemoryStore.new requests).isRepoRegistered repoId) :
    HeadsAnswered P requests repoId where
  told := ⟨_, (server_getOpHeads_iff hreg).mpr rfl, soundHeads P requests repoId⟩
  updated oldIds newId := by
    refine ⟨updateHeads (((server P).finalState MemoryStore.new requests).heads repoId)
      oldIds newId, _, ?_, told_after_update hreg oldIds newId⟩
    rw [server_updateOpHeads, if_pos hreg]
    rfl
  stale heads oldIds newId htold hne hstale := by
    obtain rfl := (server_getOpHeads_iff hreg).mp htold
    have heffect : ¬ TakesEffect (((server P).finalState MemoryStore.new
        requests).heads repoId) oldIds := by
      rintro (rfl | ⟨head, hhead, hold⟩)
      · exact hne rfl
      · exact hstale head hold hhead
    rw [Reactive.finalState_concat, told_after_update hreg,
      updateHeads_of_not_takesEffect heffect]

theorem headsAnswered_registered :
    HeadsAnswered .reference [.registerRepository {} "repo",
      .updateOpHeads ⟨"repo", [rootOperationIdBytes, [1]], [2]⟩,
      .updateOpHeads ⟨"repo", [[1]], [3]⟩] "repo" :=
  headsAnswered .reference _ rfl

end CommitCloud.Server
