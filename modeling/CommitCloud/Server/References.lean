import CommitCloud.Server.ContentAddress
import CommitCloud.Server.OpHeads

/-!
# References between objects

Heads name operations, and operations name their parents and a view.  When
clients only name what they were told before, no name dangles: every operation
below a head can be read, and so can its view.
-/

namespace CommitCloud.Server

open Foundation CommitCloud.Proto.Backend CommitCloud.Proto.OpStore

variable {P : Platform} {s : MemoryStore} {req : Request} {repoId : RepoId}

/-! ## What can be read -/

namespace MemoryStore

/-- The operation read under an id: a stored one, or the root operation. -/
def readableOperation (s : MemoryStore) (repoId : RepoId) (id : OpId) :
    Option Operation :=
  (s.getOperation repoId id).or
    (if id = rootOperationIdBytes then some OpStoreService.rootOperation else none)

def readableView (s : MemoryStore) (repoId : RepoId) (id : ViewId) : Option View :=
  (s.getView repoId id).or
    (if id = rootViewIdBytes then some OpStoreService.rootView else none)

theorem readableOperation_root (s : MemoryStore) (repoId : RepoId) :
    (s.readableOperation repoId rootOperationIdBytes).isSome := by
  simp [readableOperation]

theorem readableView_root (s : MemoryStore) (repoId : RepoId) :
    (s.readableView repoId rootViewIdBytes).isSome := by
  simp [readableView]

end MemoryStore

theorem server_readOperation_iff {id : OpId} {op : Operation}
    (hreg : s.isRepoRegistered repoId) :
    (server P s (.readOperation ⟨repoId, id⟩)).1 =
        .ok (.readOperation ⟨some op⟩) ↔
      s.readableOperation repoId id = some op := by
  simp only [server, handle, Handler.call_map, OpStoreService.call_readOperation,
    hreg, if_true, MemoryStore.readableOperation]
  cases s.getOperation repoId id with
  | some stored => simp
  | none => by_cases hroot : id = rootOperationIdBytes <;> simp [hroot]

theorem server_readView_iff {id : ViewId} {view : View}
    (hreg : s.isRepoRegistered repoId) :
    (server P s (.readView ⟨repoId, id⟩)).1 =
        .ok (.readView ⟨id, some view⟩) ↔
      s.readableView repoId id = some view := by
  simp only [server, handle, Handler.call_map, OpStoreService.call_readView,
    hreg, if_true, MemoryStore.readableView]
  cases s.getView repoId id with
  | some stored => simp
  | none => by_cases hroot : id = rootViewIdBytes <;> simp [hroot]

/-! ## References that hold -/

structure Referenced (s : MemoryStore) : Prop where
  heads : ∀ repoId, ∀ id ∈ s.heads repoId, (s.readableOperation repoId id).isSome
  parents : ∀ repoId id op, s.readableOperation repoId id = some op →
    ∀ parent ∈ op.parents, (s.readableOperation repoId parent).isSome
  view : ∀ repoId id op, s.readableOperation repoId id = some op →
    (s.readableView repoId op.viewId).isSome

/-- The request names only what can be read. -/
def Request.Refers (s : MemoryStore) : Request → Prop
  | .updateOpHeads req =>
      (s.readableOperation req.repoId req.newOpHeadId).isSome
  | .writeOperation req => ∀ op, req.operation = some op →
      (∀ parent ∈ op.parents, (s.readableOperation req.repoId parent).isSome) ∧
        (s.readableView req.repoId op.viewId).isSome
  | _ => True

theorem referenced_new : Referenced MemoryStore.new := by
  have hroot {repoId : RepoId} {id : OpId} {op : Operation}
      (hop : MemoryStore.new.readableOperation repoId id = some op) :
      op = OpStoreService.rootOperation := by
    have hnone : MemoryStore.new.getOperation repoId id = none := rfl
    rw [MemoryStore.readableOperation, hnone, Option.none_or] at hop
    split at hop
    · exact (Option.some.inj hop).symm
    · cases hop
  refine ⟨fun repoId id hid => ?_, fun repoId id op hop parent hparent => ?_,
    fun repoId id op hop => ?_⟩
  · obtain rfl := List.mem_singleton.mp hid
    exact MemoryStore.readableOperation_root _ _
  · rw [hroot hop] at hparent
    cases hparent
  · rw [hroot hop]
    exact MemoryStore.readableView_root _ _

/-! ## What a step makes readable -/

section Steps

variable (P s req repoId)

theorem readableOperation_server (id : OpId) :
    (server P s req).2.readableOperation repoId id =
        s.readableOperation repoId id ∨
      ∃ op, WroteOperation req (server P s req).1 (repoId, id) op ∧
        (server P s req).2.readableOperation repoId id = some op := by
  rcases filled_ops.kept s req (repoId, id) with hkept | ⟨op, hwrote⟩
  · left
    rw [MemoryStore.readableOperation, MemoryStore.readableOperation, hkept]
  · right
    refine ⟨op, hwrote, ?_⟩
    rw [MemoryStore.readableOperation, filled_ops.written s req _ op hwrote]
    rfl

theorem readableView_server (id : ViewId) :
    (server P s req).2.readableView repoId id = s.readableView repoId id ∨
      ∃ view, (server P s req).2.readableView repoId id = some view := by
  rcases filled_views.kept s req (repoId, id) with hkept | ⟨view, hwrote⟩
  · left
    rw [MemoryStore.readableView, MemoryStore.readableView, hkept]
  · right
    refine ⟨view, ?_⟩
    rw [MemoryStore.readableView, filled_views.written s req _ view hwrote]
    rfl

variable {P s req repoId}

theorem isSome_readableOperation_server {id : OpId}
    (h : (s.readableOperation repoId id).isSome) :
    ((server P s req).2.readableOperation repoId id).isSome := by
  rcases readableOperation_server P s req repoId id with hkept | ⟨op, -, hop⟩
  · rwa [hkept]
  · rw [hop]
    rfl

theorem isSome_readableView_server {id : ViewId}
    (h : (s.readableView repoId id).isSome) :
    ((server P s req).2.readableView repoId id).isSome := by
  rcases readableView_server P s req repoId id with hkept | ⟨view, hview⟩
  · rwa [hkept]
  · rw [hview]
    rfl

theorem Referenced.server (h : Referenced s) (hreq : req.Refers s) :
    Referenced (server P s req).2 := by
  -- an operation read after the call is referenced before it: it could be read
  -- then, or the request carries it
  have hbefore {repoId : RepoId} {id : OpId} {op : Operation}
      (hop : (Server.server P s req).2.readableOperation repoId id = some op) :
      (∀ parent ∈ op.parents, (s.readableOperation repoId parent).isSome) ∧
        (s.readableView repoId op.viewId).isSome := by
    rcases readableOperation_server P s req repoId id with
      hkept | ⟨op', hwrote, hop'⟩
    · rw [hkept] at hop
      exact ⟨h.parents repoId id op hop, h.view repoId id op hop⟩
    · obtain rfl := Option.some.inj (hop.symm.trans hop')
      obtain ⟨rfl, -⟩ := (server_step P s req).wroteOperation hwrote
      exact hreq op rfl
  refine ⟨fun repoId id hid => ?_, fun repoId id op hop parent hparent => ?_,
    fun repoId id op hop => ?_⟩
  · apply isSome_readableOperation_server
    rcases (server_step P s req).heads repoId with hheads | ⟨_, _, rfl, hheads⟩
    · exact h.heads repoId id (hheads ▸ hid)
    · rw [hheads] at hid
      rcases mem_updateHeads hid with hid | rfl
      · exact h.heads repoId id hid
      · exact hreq
  · exact isSome_readableOperation_server ((hbefore hop).1 parent hparent)
  · exact isSome_readableView_server (hbefore hop).2

end Steps

/-! ## Runs that name only what was returned -/

/--
The request names as operations only the root operation and operations whose
ids a write returned for its repository, and as views likewise.
-/
def Request.Disciplined (past : List (Request × Answer)) : Request → Prop
  | .updateOpHeads req => req.newOpHeadId = rootOperationIdBytes ∨
      ∃ op, Written WroteOperation past (req.repoId, req.newOpHeadId) op
  | .writeOperation req => ∀ op, req.operation = some op →
      (∀ parent ∈ op.parents, parent = rootOperationIdBytes ∨
        ∃ op', Written WroteOperation past (req.repoId, parent) op') ∧
      (op.viewId = rootViewIdBytes ∨
        ∃ view, Written WroteView past (req.repoId, op.viewId) view)
  | _ => True

theorem isSome_readableOperation {requests : List Request} {id : OpId}
    (h : id = rootOperationIdBytes ∨ ∃ op, Written WroteOperation
      ((server P).trace MemoryStore.new requests) (repoId, id) op) :
    (((server P).finalState MemoryStore.new requests).readableOperation
      repoId id).isSome := by
  rcases h with rfl | ⟨op, hwritten⟩
  · exact MemoryStore.readableOperation_root _ _
  · obtain ⟨stored, hstored⟩ := filled_ops.present hwritten
    rw [MemoryStore.readableOperation, hstored]
    rfl

theorem isSome_readableView {requests : List Request} {id : ViewId}
    (h : id = rootViewIdBytes ∨ ∃ view, Written WroteView
      ((server P).trace MemoryStore.new requests) (repoId, id) view) :
    (((server P).finalState MemoryStore.new requests).readableView
      repoId id).isSome := by
  rcases h with rfl | ⟨view, hwritten⟩
  · exact MemoryStore.readableView_root _ _
  · obtain ⟨stored, hstored⟩ := filled_views.present hwritten
    rw [MemoryStore.readableView, hstored]
    rfl

theorem Request.Disciplined.refers {requests : List Request}
    (h : req.Disciplined ((server P).trace MemoryStore.new requests)) :
    req.Refers ((server P).finalState MemoryStore.new requests) := by
  cases req with
  | updateOpHeads req => exact isSome_readableOperation h
  | writeOperation req =>
      intro op hop
      obtain ⟨hparents, hview⟩ := h op hop
      exact ⟨fun parent hparent => isSome_readableOperation (hparents parent hparent),
        isSome_readableView hview⟩
  | _ => trivial

theorem referenced_of_disciplined {requests : List Request}
    (hrun : ∀ before req, before ++ [req] <+: requests →
      req.Disciplined ((server P).trace MemoryStore.new before)) :
    Referenced ((server P).finalState MemoryStore.new requests) :=
  (server P).invariant_along referenced_new
    (fun before req hinitial h => h.server (hrun before req hinitial).refers)
    List.prefix_rfl

/-! ## Reading history -/

/-- `p` is a parent of the operation that is read under `c`. -/
def ReadParent (P : Platform) (s : MemoryStore) (repoId : RepoId) (p c : OpId) :
    Prop :=
  ∃ op, (server P s (.readOperation ⟨repoId, c⟩)).1 =
    .ok (.readOperation ⟨some op⟩) ∧ p ∈ op.parents

/-- Everything at and below the heads can be read, views included. -/
def HistoryReadable (P : Platform) (s : MemoryStore) (repoId : RepoId) : Prop :=
  ∃ heads, (server P s (.getOpHeads ⟨repoId⟩)).1 = .ok (.getOpHeads ⟨heads⟩) ∧
    ∀ id, Covered (ReadParent P s repoId) heads id →
      ∃ op view, (server P s (.readOperation ⟨repoId, id⟩)).1 =
          .ok (.readOperation ⟨some op⟩) ∧
        (server P s (.readView ⟨repoId, op.viewId⟩)).1 =
          .ok (.readView ⟨op.viewId, some view⟩)

theorem Referenced.historyReadable (h : Referenced s)
    (hreg : s.isRepoRegistered repoId) : HistoryReadable P s repoId := by
  refine ⟨s.heads repoId, by rw [server_getOpHeads, if_pos hreg], fun id hid => ?_⟩
  have hreadable : (s.readableOperation repoId id).isSome := by
    refine hid.mem_of_closed (fun id => (s.readableOperation repoId id).isSome)
      (h.heads repoId) ?_
    rintro p c ⟨op, hread, hparent⟩ -
    exact h.parents repoId c op ((server_readOperation_iff hreg).mp hread) p hparent
  obtain ⟨op, hop⟩ := Option.isSome_iff_exists.mp hreadable
  obtain ⟨view, hview⟩ := Option.isSome_iff_exists.mp (h.view repoId id op hop)
  exact ⟨op, view, (server_readOperation_iff hreg).mpr hop,
    (server_readView_iff hreg).mpr hview⟩

/-- No history dangles in a run whose requests name only what was returned. -/
theorem historyReadable_of_disciplined {requests : List Request}
    (hrun : ∀ before req, before ++ [req] <+: requests →
      req.Disciplined ((server P).trace MemoryStore.new before))
    (hreg : ((server P).finalState MemoryStore.new requests).isRepoRegistered
      repoId) :
    HistoryReadable P ((server P).finalState MemoryStore.new requests) repoId :=
  (referenced_of_disciplined hrun).historyReadable hreg

def mainBookmark : View where
  headIds := [rootCommitIdBytes]
  localBookmarks := ⟨[("main", ⟨[], [⟨rootCommitIdBytes⟩]⟩)], by decide⟩

def createBookmark : Operation where
  viewId := hashView .reference mainBookmark
  parents := [rootOperationIdBytes]

/-- A first operation is written and published. -/
def firstPublication : List Request :=
  [.registerRepository {} "repo", .writeView ⟨"repo", some mainBookmark⟩,
    .writeOperation ⟨"repo", some createBookmark⟩,
    .updateOpHeads ⟨"repo", [rootOperationIdBytes],
      hashOperation .reference createBookmark⟩]

theorem historyReadable_of_disciplined_published :
    HistoryReadable .reference ((server .reference).finalState MemoryStore.new
      firstPublication) "repo" := by
  refine historyReadable_of_disciplined ?_ rfl
  simp only [firstPublication, Reactive.forall_initial_cons_iff]
  refine ⟨trivial, trivial, ?_, ?_, ?_⟩
  · intro op hop
    obtain rfl := Option.some.inj hop
    refine ⟨fun parent hparent => .inl (List.mem_singleton.mp hparent), .inr ?_⟩
    exact ⟨mainBookmark, _, List.mem_cons_of_mem _ List.mem_cons_self, .mk ..⟩
  · exact .inr ⟨createBookmark, _, List.mem_cons_of_mem _
      (List.mem_cons_of_mem _ List.mem_cons_self), .mk ..⟩
  · intro before call hinitial
    simp at hinitial

end CommitCloud.Server
