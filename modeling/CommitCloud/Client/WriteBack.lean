import CommitCloud.Client.Calls
import CommitCloud.Client.IterationOrder
import CommitCloud.Client.OperationRoundTrip
import CommitCloud.Client.ViewRoundTrip
import CommitCloud.Server.ContentAddress

/-!
# Writing back what was read

A message that a client made is made again, up to the order of what has none,
when it is read and written back: what decoding loses of a view or an operation
was not in the message.  Every stored message was made by a client and is
stored under its hash, so reading and writing back gives the same id.
-/

namespace CommitCloud.Client

open Foundation CommitCloud.Server OpStore

variable {J : JjLib}

/-! ## Views -/

theorem refTargetToProto_fromProto (hlegacy : J.KeepsLegacyForm)
    (target : Proto.OpStore.RefTarget) :
    refTargetToProto J (refTargetFromProto J target) = target := by
  have hterms (terms : List Proto.OpStore.RefTargetTerm) :
      (terms.map (·.commitId)).map (fun id => { commitId := id }) = terms := by
    rw [List.map_map]
    exact List.map_id terms
  rw [refTargetToProto, refTargetFromProto, hlegacy.removedIds, hlegacy.addedIds,
    hterms, hterms]

theorem remoteRefToProto_fromProto (hlegacy : J.KeepsLegacyForm)
    (remoteRef : Jj.RemoteRef J.RefTarget) :
    remoteRefToProto J (remoteRefFromProto J (remoteRefToProto J remoteRef)) =
      remoteRefToProto J remoteRef := by
  obtain ⟨target, state⟩ := remoteRef
  have htarget := refTargetToProto_fromProto hlegacy (refTargetToProto J target)
  cases state <;> simp [remoteRefToProto, remoteRefFromProto, htarget]

/-- What a message has under a name is the encoding of a remote bookmark. -/
theorem remoteBookmarksToProto_get
    {remoteViews : BTreeMap String (Jj.RemoteView J.RefTarget)} {name : String}
    {message : Proto.OpStore.RemoteRef}
    (h : (remoteBookmarksToProto J remoteViews).get name = some message) :
    ∃ remote bookmark remoteRef, name = remoteBookmarkKey remote bookmark ∧
      message = remoteRefToProto J remoteRef := by
  rw [remoteBookmarksToProto_eq, HashMap.get_collect, List.lookup_eq_some_iff] at h
  obtain ⟨before, after, hentries, -⟩ := h
  have hmem : (name, message) ∈ (remoteBookmarkList remoteViews).map fun entry =>
      (remoteBookmarkKey entry.1.1 entry.1.2, remoteRefToProto J entry.2) := by
    rw [← List.mem_reverse, hentries]
    simp
  obtain ⟨⟨⟨remote, bookmark⟩, remoteRef⟩, -, heq⟩ := List.mem_map.mp hmem
  obtain ⟨hname, hmessage⟩ := Prod.mk.inj heq
  exact ⟨remote, bookmark, remoteRef, hname.symm, hmessage.symm⟩

/-- The names of remotes that are read hold no `@`. -/
theorem plainRemotes_fromProto (map : HashMap String Proto.OpStore.RemoteRef) :
    PlainRemotes (remoteViewsFromProto J map) := by
  refine plainRemotes_iff.mpr fun hbookmark hat => ?_
  rw [remoteBookmark_fromProto, if_pos hat] at hbookmark
  cases hbookmark

theorem remoteBookmarksToProto_fromProto (hlegacy : J.KeepsLegacyForm)
    {remoteViews : BTreeMap String (Jj.RemoteView J.RefTarget)}
    {map : HashMap String Proto.OpStore.RemoteRef}
    (hmap : map.Equiv (remoteBookmarksToProto J remoteViews)) :
    (remoteBookmarksToProto J (remoteViewsFromProto J map)).Equiv map := by
  rw [HashMap.equiv_iff_get]
  intro name
  have hget := HashMap.equiv_iff_get.mp hmap name
  cases hsplit : rsplitOnce '@' name with
  | none =>
      -- no client makes a key without `@`
      have hnone (views : BTreeMap String (Jj.RemoteView J.RefTarget)) :
          (remoteBookmarksToProto J views).get name = none := by
        by_contra hsome
        obtain ⟨message, hmessage⟩ := Option.ne_none_iff_exists'.mp hsome
        obtain ⟨remote, bookmark, -, rfl, -⟩ := remoteBookmarksToProto_get hmessage
        exact rsplitOnce_eq_none_iff.mp hsplit (by simp [remoteBookmarkKey])
      rw [hget, hnone, hnone]
  | some parts =>
      obtain ⟨bookmark, remote⟩ := parts
      obtain ⟨rfl, hremote⟩ := rsplitOnce_eq_iff_key.mp hsplit
      rw [get_remoteBookmarksToProto (plainRemotes_fromProto map) hremote,
        remoteBookmark_fromProto, if_neg hremote, hget]
      cases hmessage : (remoteBookmarksToProto J remoteViews).get
          (remoteBookmarkKey remote bookmark) with
      | none => rfl
      | some message =>
          obtain ⟨-, -, remoteRef, -, rfl⟩ := remoteBookmarksToProto_get hmessage
          simp only [Option.map_some, remoteRefToProto_fromProto hlegacy]

theorem localBookmarksToProto_fromProto (hlegacy : J.KeepsLegacyForm)
    (message : Proto.OpStore.View) :
    (viewToProto J (viewFromProto J message)).localBookmarks.Equiv
      message.localBookmarks := by
  rw [HashMap.equiv_iff_get]
  intro name
  rw [viewToProto, HashMap.get_collect_bTreeMap, viewFromProto,
    BTreeMap.get_collect_hashMap]
  cases message.localBookmarks.get name with
  | none => rfl
  | some target => simp only [Option.map_some, refTargetToProto_fromProto hlegacy]

/-- A client's message is made again of the view that is read of it. -/
theorem viewToProto_fromProto (hlegacy : J.KeepsLegacyForm)
    {view : Jj.View J.RefTarget} {message : Proto.OpStore.View}
    (hmessage : message.Equiv (viewToProto J view)) :
    (viewToProto J (viewFromProto J message)).SameUpToOrder message := by
  have hmaps : Proto.OpStore.View.Equiv
      { viewToProto J (viewFromProto J message) with headIds := message.headIds }
      message := {
    headIds := rfl
    wcCommitIds := by
      rw [viewToProto, wcCommitIds_roundTrip hmessage]
      exact hmessage.wcCommitIds.symm
    localBookmarks := localBookmarksToProto_fromProto hlegacy message
    remoteBookmarks :=
      remoteBookmarksToProto_fromProto hlegacy hmessage.remoteBookmarks }
  have hheads : (viewToProto J (viewFromProto J message)).headIds.Perm
      message.headIds := by
    rw [hmessage.headIds]
    exact (headIds_roundTrip hmessage).perm
  exact { hmaps.sameUpToOrder with headIds := hheads }

theorem hashView_writtenBack (P : Platform) (hlegacy : J.KeepsLegacyForm)
    {view : Jj.View J.RefTarget} {message : Proto.OpStore.View}
    (hmessage : message.Equiv (viewToProto J view)) :
    hashView P (viewToProto J (viewFromProto J message)) = hashView P message :=
  hashView_eq_of_sameUpToOrder P (viewToProto_fromProto hlegacy hmessage)

/-! ## Operations -/

/-- What is lost of an operation is lost when its message is made. -/
theorem hashOperation_writtenBack (P : Platform) {op : Jj.Operation}
    {message : Proto.OpStore.Operation}
    (hmessage : message.Equiv (operationToProto op)) :
    hashOperation P (operationToProto (operationFromProto message)) =
      hashOperation P message := by
  have hread : (operationFromProto message).Equiv (withoutOffsets op) :=
    (operationFromProto_equiv hmessage).trans (operationFromProto_toProto op)
  calc hashOperation P (operationToProto (operationFromProto message))
      = hashOperation P (operationToProto (withoutOffsets op)) :=
        hashOperation_eq_of_equiv P (operationToProto_equiv hread)
    _ = hashOperation P (operationToProto op) := rfl
    _ = hashOperation P message := (hashOperation_eq_of_equiv P hmessage).symm

/-! ## What clients store -/

variable {P : Platform} {B : JjBackend} {calls : List (Call J)} {repoId : RepoId}

theorem Call.request_eq_writeView {call : Call J} {message : Proto.OpStore.View}
    (h : call.request = some (.writeView ⟨repoId, some message⟩)) :
    ∃ view, message.Equiv (viewToProto J view) := by
  cases call with
  | writeView T repoId view =>
      simp only [request, Option.some.injEq, Request.writeView.injEq,
        Proto.OpStore.WriteViewRequest.mk.injEq] at h
      exact ⟨view, h.2 ▸ T.view_equiv _⟩
  | _ => simp [request] at h

theorem Call.request_eq_writeOperation {call : Call J}
    {message : Proto.OpStore.Operation}
    (h : call.request = some (.writeOperation ⟨repoId, some message⟩)) :
    ∃ op, message.Equiv (operationToProto op) := by
  cases call with
  | writeOperation T repoId op =>
      simp only [request, Option.some.injEq, Request.writeOperation.injEq,
        Proto.OpStore.WriteOperationRequest.mk.injEq] at h
      exact ⟨op, h.2 ▸ T.operation_equiv _⟩
  | _ => simp [request] at h

/-- A stored view was made by a client, and has its id for a hash. -/
theorem storedView_made {id : ViewId} {message : Proto.OpStore.View}
    (hstored : ((clients J P B).finalState MemoryStore.new calls).getView repoId id =
      some message) :
    hashView P message = id ∧ ∃ view, message.Equiv (viewToProto J view) := by
  obtain ⟨call, req, s, hcall, -, hwrote⟩ :=
    sent_of_stored filled_views (fun _ => rfl) (repoId, id) hstored
  obtain ⟨rfl, -, hid, -⟩ := (server_step P s req).wroteView hwrote
  exact ⟨hid, call.request_eq_writeView hcall⟩

theorem storedOperation_made {id : OpId} {message : Proto.OpStore.Operation}
    (hstored : ((clients J P B).finalState MemoryStore.new calls).getOperation
      repoId id = some message) :
    hashOperation P message = id ∧
      ∃ op, message.Equiv (operationToProto op) := by
  obtain ⟨call, req, s, hcall, -, hwrote⟩ :=
    sent_of_stored filled_ops (fun _ => rfl) (repoId, id) hstored
  obtain ⟨rfl, -, hid, -⟩ := (server_step P s req).wroteOperation hwrote
  exact ⟨hid, call.request_eq_writeOperation hcall⟩

/-- A view that a client was told to have written is stored from then on. -/
theorem writtenView_stored {T : Transport} {contents : Jj.View J.RefTarget}
    {id : ViewId}
    (hmade : (.writeView T repoId contents, .writeView (.ok id)) ∈
      (clients J P B).trace MemoryStore.new calls) :
    ((clients J P B).finalState MemoryStore.new calls).isRepoRegistered repoId ∧
      ∃ message, ((clients J P B).finalState MemoryStore.new calls).getView repoId
        id = some message := by
  refine stored_of_sent filled_views
    (fun hstep hwrote => (hstep.wroteView hwrote).2.1) (repoId, id)
    (T.view (viewToProto J contents)) hmade rfl fun s houtcome => ?_
  have hok : (writeView J P T repoId contents s).1 = .ok id :=
    Outcome.writeView.inj houtcome
  obtain ⟨response, hcall, hid⟩ := remoteCall_eq_ok_iff.mp (Prod.ext hok rfl)
  obtain rfl := Except.ok.inj hid
  simp only [server, handle, Handler.call_map, hcall]
  exact .mk repoId _ _

theorem writtenOperation_stored {T : Transport} {contents : Jj.Operation}
    {id : OpId}
    (hmade : (.writeOperation T repoId contents, .writeOperation (.ok id)) ∈
      (clients J P B).trace MemoryStore.new calls) :
    ((clients J P B).finalState MemoryStore.new calls).isRepoRegistered repoId ∧
      ∃ message, ((clients J P B).finalState MemoryStore.new calls).getOperation
        repoId id = some message := by
  refine stored_of_sent filled_ops
    (fun hstep hwrote => (hstep.wroteOperation hwrote).2.1) (repoId, id)
    (T.operation (operationToProto contents)) hmade rfl fun s houtcome => ?_
  have hok : (writeOperation P T repoId contents s).1 = .ok id :=
    Outcome.writeOperation.inj houtcome
  obtain ⟨response, hcall, hid⟩ := remoteCall_eq_ok_iff.mp (Prod.ext hok rfl)
  obtain rfl := Except.ok.inj hid
  simp only [server, handle, Handler.call_map, hcall]
  exact .mk repoId _ _

/-! ## Stability -/

/--
Whatever view is read under an id that a client was told, writing back a view
equal to it gives the same id, also when other calls come in between; likewise
for operations.
-/
structure WriteBackStable (J : JjLib) (P : Platform) (B : JjBackend)
    (calls : List (Call J)) : Prop where
  view : ∀ (T T' T'' : Transport) repoId contents id,
    (.writeView T repoId contents, .writeView (.ok id)) ∈
      (clients J P B).trace MemoryStore.new calls →
    ∃ view, (readView J T' repoId id
        ((clients J P B).finalState MemoryStore.new calls)).1 = .ok view ∧
      ∀ between view', view'.Equiv view →
        (writeView J P T'' repoId view'
          ((clients J P B).finalState MemoryStore.new (calls ++ between))).1 = .ok id
  operation : ∀ (T T' T'' : Transport) repoId contents id,
    (.writeOperation T repoId contents, .writeOperation (.ok id)) ∈
      (clients J P B).trace MemoryStore.new calls →
    ∃ op, (readOperation T' repoId id
        ((clients J P B).finalState MemoryStore.new calls)).1 = .ok op ∧
      ∀ between op', op'.Equiv op →
        (writeOperation P T'' repoId op'
          ((clients J P B).finalState MemoryStore.new (calls ++ between))).1 = .ok id

theorem registered_between
    (hreg : ((clients J P B).finalState MemoryStore.new calls).isRepoRegistered
      repoId) (between : List (Call J)) :
    ((clients J P B).finalState MemoryStore.new
      (calls ++ between)).isRepoRegistered repoId := by
  rw [clients_finalState] at hreg ⊢
  rw [List.filterMap_append]
  exact registered_append hreg _

theorem writeBack_stable (hlegacy : J.KeepsLegacyForm) (calls : List (Call J)) :
    WriteBackStable J P B calls where
  view T T' T'' repoId contents id hmade := by
    -- the stored message may be that of another view with this id
    obtain ⟨hreg, message, hstored⟩ := writtenView_stored hmade
    obtain ⟨hid, made, hmessage⟩ := storedView_made hstored
    refine ⟨_, congrArg Prod.fst (readView_eq hreg hstored),
      fun between view' hview' => ?_⟩
    rw [writeView_eq (registered_between hreg between)]
    have hdelivered := (T'.view_equiv message).trans hmessage
    calc Except.ok (hashView P (T''.view (viewToProto J view')))
        = .ok (hashView P (viewToProto J view')) := by rw [hashView_delivered]
      _ = .ok (hashView P (viewToProto J (viewFromProto J (T'.view message)))) := by
          rw [hashView_eq_of_sameUpToOrder P (viewToProto_sameUpToOrder hview')]
      _ = .ok (hashView P (T'.view message)) := by
          rw [hashView_writtenBack P hlegacy hdelivered]
      _ = .ok id := by rw [hashView_delivered, hid]
  operation T T' T'' repoId contents id hmade := by
    obtain ⟨hreg, message, hstored⟩ := writtenOperation_stored hmade
    obtain ⟨hid, made, hmessage⟩ := storedOperation_made hstored
    refine ⟨_, congrArg Prod.fst (readOperation_eq hreg hstored),
      fun between op' hop' => ?_⟩
    rw [writeOperation_eq (registered_between hreg between)]
    have hread : op'.Equiv (operationFromProto message) :=
      hop'.trans (operationFromProto_equiv (T'.operation_equiv message))
    calc Except.ok (hashOperation P (T''.operation (operationToProto op')))
        = .ok (hashOperation P (operationToProto op')) := by
          rw [hashOperation_delivered]
      _ = .ok (hashOperation P (operationToProto (operationFromProto message))) := by
          rw [hashOperation_eq_of_equiv P (operationToProto_equiv hread)]
      _ = .ok id := by rw [hashOperation_writtenBack P hmessage, hid]

theorem writeBack_stable_clashing :
    WriteBackStable .reference .reference .reference
      [.init "repo", .writeView .direct "repo" clashingRemotes,
        .writeOperation .direct "repo" easternOperation] :=
  writeBack_stable JjLib.reference_keepsLegacyForm _

end CommitCloud.Client
