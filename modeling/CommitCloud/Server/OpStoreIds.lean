import CommitCloud.Gix.Decoding
import CommitCloud.Server.ContentAddress
import CommitCloud.Server.Sections

/-!
# Operation ids and view ids

When the id of an operation or a view identifies it.  The hash is taken of a
buffer without section marks, so the answer is a condition on the sections of the
objects a run writes to one repository, and on the raw fields of one that read as
a length of another.
-/

namespace CommitCloud.Server

open Foundation CommitCloud.Proto.OpStore

variable {P : Platform} {requests : List Request}

/-! ## Operations -/

def operationBuffers (requests : List Request) : Set Bytes :=
  { buf | ∃ repoId op, .writeOperation ⟨repoId, some op⟩ ∈ requests ∧
    buf = operationBuffer op }

/--
Operations written under one id are the same; a stored one is never replaced by
another one, and what is read under an id is what was written under it.
-/
structure OperationIdsIdentify (P : Platform) (requests : List Request) :
    Prop where
  identifies : Identifies (server P)
    (fun s (key : RepoId × OpId) => s.getOperation key.1 key.2)
    WroteOperation Operation.Equiv MemoryStore.new requests
  read : ∀ before repoId id op, before <+: requests →
    Written WroteOperation ((server P).trace MemoryStore.new before)
      (repoId, id) op →
    ∃ op', (server P ((server P).finalState MemoryStore.new before)
        (.readOperation ⟨repoId, id⟩)).1 =
          .ok (.readOperation ⟨some op'⟩) ∧ op'.Equiv op

theorem server_writeOperation {s : MemoryStore} {repoId : RepoId}
    (hreg : s.isRepoRegistered repoId) (op : Operation) :
    (server P s (.writeOperation ⟨repoId, some op⟩)).1 =
      .ok (.writeOperation ⟨hashOperation P op⟩) := by
  simp [server, handle, OpStoreService.call_writeOperation, hreg]

theorem server_readOperation {s : MemoryStore} {repoId : RepoId} {id : OpId}
    {op : Operation} (hreg : s.isRepoRegistered repoId)
    (hstored : s.getOperation repoId id = some op) :
    (server P s (.readOperation ⟨repoId, id⟩)).1 =
      .ok (.readOperation ⟨some op⟩) := by
  simp [server, handle, OpStoreService.call_readOperation, hreg, hstored]

theorem written_operation_iff {repoId : RepoId} {id : OpId} {op : Operation} :
    Written WroteOperation ((server P).trace MemoryStore.new requests)
        (repoId, id) op ↔
      Accepted P requests repoId (.writeOperation ⟨repoId, some op⟩) ∧
        hashOperation P op = id := by
  refine written_iff_accepted (fun repoId op => .writeOperation ⟨repoId, some op⟩)
    (hashOperation P) (fun hstep hwrote => ?_) fun op hreg => ?_
  · obtain ⟨hreq, hreg, hid, -⟩ := hstep.wroteOperation hwrote
    exact ⟨hreq, hreg, hid⟩
  · rw [server_writeOperation hreg]
    exact .mk _ op _

theorem hashOperation_eq_iff
    (hsha : P.TruncatedInjOn .blob operationIdLength
      (operationBuffers requests)) {repoId : RepoId} {op op' : Operation}
    (hop : Accepted P requests repoId (.writeOperation ⟨repoId, some op⟩))
    (hop' : Accepted P requests repoId (.writeOperation ⟨repoId, some op'⟩)) :
    hashOperation P op = hashOperation P op' ↔
      operationBuffer op = operationBuffer op' :=
  Platform.truncated_eq_iff hsha ⟨repoId, op, hop.mem, rfl⟩
    ⟨repoId, op', hop'.mem, rfl⟩

theorem operationIdsIdentify_iff_buffers
    (hsha : P.TruncatedInjOn .blob operationIdLength
      (operationBuffers requests)) :
    OperationIdsIdentify P requests ↔ ∀ repoId op op',
      Accepted P requests repoId (.writeOperation ⟨repoId, some op⟩) →
      Accepted P requests repoId (.writeOperation ⟨repoId, some op'⟩) →
      operationBuffer op = operationBuffer op' → op.Equiv op' := by
  have hiff := identifies_iff_collide
    (fun repoId op => .writeOperation ⟨repoId, some op⟩) (hashOperation P)
    Operation.Equiv filled_ops (fun _ => rfl) written_operation_iff
    (hashOperation_eq_iff hsha)
  constructor
  · exact fun hids => hiff.mp hids.identifies
  · intro hbuffers
    refine ⟨hiff.mpr hbuffers, fun before repoId id op hinitial hwritten => ?_⟩
    obtain ⟨op', hstored, hequiv⟩ := (hiff.mpr hbuffers).readBack before
      (repoId, id) op hinitial hwritten
    have hreg := registered_of_written
      (fun hstep hwrote => (hstep.wroteOperation hwrote).2.1) hwritten
    exact ⟨op', server_readOperation hreg hstored, hequiv⟩

/--
Operation ids identify operations if no two different operations that are
written to one repository have the same sections and in no two the start time
of one reads as the length of an id of the other.  They do so only if no two
different operations have the same sections.
-/
theorem operationIdsIdentify_of_sections
    (hsha : P.TruncatedInjOn .blob operationIdLength (operationBuffers requests))
    (hsized : ∀ repoId op, .writeOperation ⟨repoId, some op⟩ ∈ requests →
      ∀ bytes ∈ operationPayloads op, bytes.length < 2 ^ 64) :
    ((∀ repoId op op',
        Accepted P requests repoId (.writeOperation ⟨repoId, some op⟩) →
        Accepted P requests repoId (.writeOperation ⟨repoId, some op'⟩) →
        SameOperationSections op op' ∨ StartReadsAsLength op op' ∨
          StartReadsAsLength op' op →
        op.Equiv op') →
      OperationIdsIdentify P requests) ∧
    (OperationIdsIdentify P requests →
      ∀ repoId op op',
        Accepted P requests repoId (.writeOperation ⟨repoId, some op⟩) →
        Accepted P requests repoId (.writeOperation ⟨repoId, some op'⟩) →
        SameOperationSections op op' → op.Equiv op') := by
  have hiff := operationIdsIdentify_iff_buffers hsha
  constructor
  · refine fun hapart => hiff.mpr fun repoId op op' hop hop' hbuffer => ?_
    exact hapart repoId op op' hop hop' (of_operationBuffer_eq
      (hsized repoId op hop.mem) (hsized repoId op' hop'.mem) hbuffer)
  · intro hids repoId op op' hop hop' hsections
    exact hiff.mp hids repoId op op' hop hop' (operationBuffer_eq_of_sections hsections)

def snapshotOperation (parent : OpId) (start : Int64) : Operation where
  viewId := rootViewIdBytes
  parents := [parent]
  metadata := some
    { startTimeMillis := start, endTimeMillis := start + 7
      description := "snapshot working copy", isSnapshot := true
      workspaceName := some "default", hostname := "host", username := "user" }
  commitPredecessorsSet := true

def firstSnapshot : Operation := snapshotOperation rootOperationIdBytes 1700000000000

def secondSnapshot : Operation :=
  snapshotOperation (hashOperation .reference firstSnapshot) 1700000060000

def snapshots : List Request :=
  [.registerRepository {} "repo", .writeOperation ⟨"repo", some firstSnapshot⟩,
    .writeOperation ⟨"repo", some secondSnapshot⟩]

theorem eq_of_mem_snapshots {repoId : RepoId} {op : Operation}
    (h : .writeOperation ⟨repoId, some op⟩ ∈ snapshots) :
    op = firstSnapshot ∨ op = secondSnapshot := by
  simp only [snapshots, List.mem_cons, reduceCtorEq, false_or,
    Request.writeOperation.injEq, WriteOperationRequest.mk.injEq, Option.some.injEq,
    List.not_mem_nil, or_false] at h
  exact h.imp And.right And.right

theorem snapshots_injOn :
    Platform.reference.TruncatedInjOn .blob operationIdLength
      (operationBuffers snapshots) := by
  have hne : hashOperation .reference firstSnapshot ≠
      hashOperation .reference secondSnapshot := by decide +kernel
  have hgiven : operationBuffers snapshots ⊆
      {operationBuffer firstSnapshot, operationBuffer secondSnapshot} := by
    rintro buf ⟨repoId, op, hmem, rfl⟩
    rcases eq_of_mem_snapshots hmem with rfl | rfl
    · exact .inl rfl
    · exact .inr rfl
  exact Platform.injOn_hashInput_of_pair hgiven hne

theorem snapshots_apart {parent parent' : OpId} {start start' : Int64}
    (h : SameOperationSections (snapshotOperation parent start)
        (snapshotOperation parent' start') ∨
      StartReadsAsLength (snapshotOperation parent start)
        (snapshotOperation parent' start') ∨
      StartReadsAsLength (snapshotOperation parent' start')
        (snapshotOperation parent start)) : start = start' := by
  -- both have as many ids in front of their start times
  have hnot {parent parent' : OpId} {start start' : Int64} :
      ¬ StartReadsAsLength (snapshotOperation parent start)
        (snapshotOperation parent' start') := by
    rintro ⟨metadata, id, -, hrun, -⟩
    have hlength := hrun.length_le
    simp [leadingIds, snapshotOperation] at hlength
  obtain ⟨-, hmetadata, -⟩ := h.resolve_right (not_or.mpr ⟨hnot, hnot⟩)
  exact congrArg OperationMetadata.startTimeMillis hmetadata

theorem operationIdsIdentify_of_sections_snapshots :
    OperationIdsIdentify .reference snapshots := by
  refine (operationIdsIdentify_of_sections snapshots_injOn ?_).1 ?_
  · intro repoId op hmem
    rcases eq_of_mem_snapshots hmem with rfl | rfl <;> decide +kernel
  · intro repoId op op' hop hop' h
    rcases eq_of_mem_snapshots hop.mem with rfl | rfl <;>
      rcases eq_of_mem_snapshots hop'.mem with rfl | rfl
    · rfl
    · exact absurd (snapshots_apart h) (by decide)
    · exact absurd (snapshots_apart h) (by decide)
    · rfl

def unsetPredecessors : List Request :=
  [.registerRepository {} "repo",
    .writeOperation ⟨"repo", some { parents := [rootOperationIdBytes] }⟩,
    .writeOperation ⟨"repo", some
      { parents := [rootOperationIdBytes], commitPredecessorsSet := true }⟩]

theorem unsetPredecessors_injOn :
    Platform.reference.TruncatedInjOn .blob operationIdLength
      (operationBuffers unsetPredecessors) := by
  refine Set.Subsingleton.injOn (Set.Subsingleton.image ?_ _) _
  rintro buf ⟨repoId, op, hmem, rfl⟩ buf' ⟨repoId', op', hmem', rfl⟩
  simp only [unsetPredecessors, List.mem_cons, reduceCtorEq, false_or,
    Request.writeOperation.injEq, WriteOperationRequest.mk.injEq,
    Option.some.injEq, List.not_mem_nil, or_false] at hmem hmem'
  rcases hmem with ⟨-, rfl⟩ | ⟨-, rfl⟩ <;>
    rcases hmem' with ⟨-, rfl⟩ | ⟨-, rfl⟩ <;> rfl

/-- The flag of an operation's predecessors is not part of its buffer. -/
theorem unsetPredecessors_conflated :
    Platform.reference.TruncatedInjOn .blob operationIdLength
        (operationBuffers unsetPredecessors) ∧
      ¬ OperationIdsIdentify .reference unsetPredecessors := by
  refine ⟨unsetPredecessors_injOn, fun hids => ?_⟩
  have hequiv := hids.identifies.unique ("repo", _)
    { parents := [rootOperationIdBytes] }
    { parents := [rootOperationIdBytes], commitPredecessorsSet := true }
    (written_operation_iff.mpr ⟨.of_registered [] [] ⟨_, rfl⟩, rfl⟩)
    (written_operation_iff.mpr ⟨.of_registered [] [_] ⟨[], rfl⟩, rfl⟩)
  exact absurd hequiv.1 (by decide)

/-! ## Views -/

def viewBuffers (requests : List Request) : Set Bytes :=
  { buf | ∃ repoId view, .writeView ⟨repoId, some view⟩ ∈ requests ∧
    buf = viewBuffer view }

/-- Views written under one id are the same up to order. -/
def ViewIdsIdentify (P : Platform) (requests : List Request) : Prop :=
  Identifies (server P) (fun s (key : RepoId × ViewId) => s.getView key.1 key.2)
    WroteView View.SameUpToOrder MemoryStore.new requests

theorem server_writeView {s : MemoryStore} {repoId : RepoId}
    (hreg : s.isRepoRegistered repoId) (view : View) :
    (server P s (.writeView ⟨repoId, some view⟩)).1 =
      .ok (.writeView ⟨hashView P view⟩) := by
  simp [server, handle, OpStoreService.call_writeView, hreg]

theorem written_view_iff {repoId : RepoId} {id : ViewId} {view : View} :
    Written WroteView ((server P).trace MemoryStore.new requests)
        (repoId, id) view ↔
      Accepted P requests repoId (.writeView ⟨repoId, some view⟩) ∧
        hashView P view = id := by
  refine written_iff_accepted (fun repoId view => .writeView ⟨repoId, some view⟩)
    (hashView P) (fun hstep hwrote => ?_) fun view hreg => ?_
  · obtain ⟨hreq, hreg, hid, -⟩ := hstep.wroteView hwrote
    exact ⟨hreq, hreg, hid⟩
  · rw [server_writeView hreg]
    exact .mk _ view _

theorem hashView_eq_iff
    (hsha : P.TruncatedInjOn .blob viewIdLength (viewBuffers requests))
    {repoId : RepoId} {view view' : View}
    (hview : Accepted P requests repoId (.writeView ⟨repoId, some view⟩))
    (hview' : Accepted P requests repoId (.writeView ⟨repoId, some view'⟩)) :
    hashView P view = hashView P view' ↔ viewBuffer view = viewBuffer view' :=
  Platform.truncated_eq_iff hsha ⟨repoId, view, hview.mem, rfl⟩
    ⟨repoId, view', hview'.mem, rfl⟩

theorem viewIdsIdentify_iff_buffers
    (hsha : P.TruncatedInjOn .blob viewIdLength (viewBuffers requests)) :
    ViewIdsIdentify P requests ↔ ∀ repoId view view',
      Accepted P requests repoId (.writeView ⟨repoId, some view⟩) →
      Accepted P requests repoId (.writeView ⟨repoId, some view'⟩) →
      viewBuffer view = viewBuffer view' → view.SameUpToOrder view' :=
  identifies_iff_collide (fun repoId view => .writeView ⟨repoId, some view⟩)
    (hashView P) View.SameUpToOrder filled_views (fun _ => rfl)
    written_view_iff (hashView_eq_iff hsha)

/--
View ids identify views if no two different views that are written to one
repository have the same sections and in no two the flag of a remote bookmark of
one reads as a length of the other.  They do so only if no two different views
have the same sections.
-/
theorem viewIdsIdentify_of_sections
    (hsha : P.TruncatedInjOn .blob viewIdLength (viewBuffers requests))
    (hsized : ∀ repoId view, .writeView ⟨repoId, some view⟩ ∈ requests →
      ∀ payload ∈ viewPayloads view, payload.length < 2 ^ 64) :
    ((∀ repoId view view',
        Accepted P requests repoId (.writeView ⟨repoId, some view⟩) →
        Accepted P requests repoId (.writeView ⟨repoId, some view'⟩) →
        SameViewSections view view' ∨ FlagReadsAsLength view view' ∨
          FlagReadsAsLength view' view →
        view.SameUpToOrder view') →
      ViewIdsIdentify P requests) ∧
    (ViewIdsIdentify P requests →
      ∀ repoId view view',
        Accepted P requests repoId (.writeView ⟨repoId, some view⟩) →
        Accepted P requests repoId (.writeView ⟨repoId, some view'⟩) →
        SameViewSections view view' → view.SameUpToOrder view') := by
  have hiff := viewIdsIdentify_iff_buffers hsha
  constructor
  · refine fun hapart => hiff.mpr fun repoId view view' hview hview' hbuffer => ?_
    exact hapart repoId view view' hview hview' (of_viewBuffer_eq
      (hsized repoId view hview.mem) (hsized repoId view' hview'.mem) hbuffer)
  · intro hids repoId view view' hview hview' hsections
    exact hiff.mp hids repoId view view' hview hview' (viewBuffer_eq_of_sections hsections)

def clonedView (commit : Bytes) : View where
  headIds := [commit]
  wcCommitIds := ⟨[("default", commit)], List.nodup_singleton _⟩
  localBookmarks := ⟨[("main", ⟨[], [⟨commit⟩]⟩)], List.nodup_singleton _⟩
  remoteBookmarks :=
    ⟨[("main@origin", ⟨some ⟨[], [⟨commit⟩]⟩, true⟩)], List.nodup_singleton _⟩

def firstFetch : View := clonedView (List.replicate 20 1)

def secondFetch : View := clonedView (List.replicate 20 2)

def fetches : List Request :=
  [.registerRepository {} "repo", .writeView ⟨"repo", some firstFetch⟩,
    .writeView ⟨"repo", some secondFetch⟩]

theorem eq_of_mem_fetches {repoId : RepoId} {view : View}
    (h : .writeView ⟨repoId, some view⟩ ∈ fetches) :
    view = firstFetch ∨ view = secondFetch := by
  simp only [fetches, List.mem_cons, reduceCtorEq, false_or, Request.writeView.injEq,
    WriteViewRequest.mk.injEq, Option.some.injEq, List.not_mem_nil, or_false] at h
  exact h.imp And.right And.right

theorem fetches_injOn :
    Platform.reference.TruncatedInjOn .blob viewIdLength (viewBuffers fetches) := by
  have hne : hashView .reference firstFetch ≠ hashView .reference secondFetch := by
    decide +kernel
  have hgiven : viewBuffers fetches ⊆ {viewBuffer firstFetch, viewBuffer secondFetch} := by
    rintro buf ⟨repoId, view, hmem, rfl⟩
    rcases eq_of_mem_fetches hmem with rfl | rfl
    · exact .inl rfl
    · exact .inr rfl
  exact Platform.injOn_hashInput_of_pair hgiven hne

theorem fetches_ordinary {repoId : RepoId} {view : View}
    (h : .writeView ⟨repoId, some view⟩ ∈ fetches) :
    ∀ payload ∈ viewPayloads view, 1 < payload.length ∧ payload.length < 256 := by
  rcases eq_of_mem_fetches h with rfl | rfl <;> decide

theorem viewIdsIdentify_of_sections_fetches : ViewIdsIdentify .reference fetches := by
  refine (viewIdsIdentify_of_sections fetches_injOn ?_).1 ?_
  · intro repoId view hmem payload hpayload
    exact (fetches_ordinary hmem payload hpayload).2.trans (by decide)
  · intro repoId view view' hview hview' h
    have hsections := h.resolve_right (not_or.mpr
      ⟨not_flagReadsAsLength (fetches_ordinary hview'.mem),
        not_flagReadsAsLength (fetches_ordinary hview.mem)⟩)
    rcases eq_of_mem_fetches hview.mem with rfl | rfl <;>
      rcases eq_of_mem_fetches hview'.mem with rfl | rfl
    · exact (View.Equiv.refl _).sameUpToOrder
    · exact absurd hsections.1 (by decide)
    · exact absurd hsections.1 (by decide)
    · exact (View.Equiv.refl _).sameUpToOrder

def movedOrDeleted : View where
  headIds := [[2]]
  localBookmarks := ⟨[("main", ⟨[⟨[1]⟩], [⟨[2]⟩]⟩)], by decide⟩

def createdTwice : View where
  headIds := [[2]]
  localBookmarks := ⟨[("main", ⟨[], [⟨[1]⟩, ⟨[2]⟩]⟩)], by decide⟩

def conflictedBookmarks : List Request :=
  [.registerRepository {} "repo", .writeView ⟨"repo", some movedOrDeleted⟩,
    .writeView ⟨"repo", some createdTwice⟩]

theorem conflictedBookmarks_injOn :
    Platform.reference.TruncatedInjOn .blob viewIdLength
      (viewBuffers conflictedBookmarks) := by
  refine Set.Subsingleton.injOn (Set.Subsingleton.image ?_ _) _
  rintro buf ⟨repoId, view, hmem, rfl⟩ buf' ⟨repoId', view', hmem', rfl⟩
  simp only [conflictedBookmarks, List.mem_cons, reduceCtorEq, false_or,
    Request.writeView.injEq, WriteViewRequest.mk.injEq, Option.some.injEq,
    List.not_mem_nil, or_false] at hmem hmem'
  rcases hmem with ⟨-, rfl⟩ | ⟨-, rfl⟩ <;>
    rcases hmem' with ⟨-, rfl⟩ | ⟨-, rfl⟩ <;> decide

/-- Nothing in a buffer separates the removes of a target from its adds. -/
theorem conflictedBookmarks_conflated :
    Platform.reference.TruncatedInjOn .blob viewIdLength
        (viewBuffers conflictedBookmarks) ∧
      ¬ ViewIdsIdentify .reference conflictedBookmarks := by
  refine ⟨conflictedBookmarks_injOn, fun hids => ?_⟩
  have hbuffer : viewBuffer createdTwice = viewBuffer movedOrDeleted := by decide
  have hsame := hids.unique ("repo", _) movedOrDeleted createdTwice
    (written_view_iff.mpr ⟨.of_registered [] [] ⟨_, rfl⟩, rfl⟩)
    (written_view_iff.mpr ⟨.of_registered [] [_] ⟨[], rfl⟩, by
      simp only [hashView, hbuffer]⟩)
  have hterms : RefTarget.SameTerms ⟨[⟨[1]⟩], [⟨[2]⟩]⟩ ⟨[], [⟨[1]⟩, ⟨[2]⟩]⟩ := by
    have hmain := hsame.localBookmarks "main"
    cases hmain with
    | some h => exact h
  exact absurd hterms.1.length_eq (by decide)

end CommitCloud.Server
