import CommitCloud.Client.OpHeadsStore
import CommitCloud.Server.OpHeads

/-!
# Concurrent publication

Any number of clients publish operations to one repository.  A client fetches
the heads, writes an operation with these as its parents, and replaces them by
it; between its calls any other client may act.  `written` and `published`
record which calls were acknowledged and play no part in the protocol.
-/

namespace CommitCloud.Client

open Foundation CommitCloud.Server CommitCloud.Proto.OpStore

inductive Phase where
  | idle
  | fetched (heads : List OpId)
  | written (heads : List OpId) (id : OpId)
  deriving DecidableEq

structure Publishing (κ : Type) where
  store : MemoryStore
  phase : κ → Phase
  written : List (OpId × Operation)
  published : List OpId

/-- One remote call of a client; the parents of `op` are set to what it fetched. -/
inductive Action (κ : Type) where
  | getOpHeads (client : κ)
  | writeOperation (client : κ) (op : Operation)
  | updateOpHeads (client : κ)

variable (P : Platform) (repoId : RepoId)

def writeOperationMessage (op : Operation) : Session OpId :=
  Session.rpc
    (OpStoreService.writeOperation P { repoId := repoId, operation := some op })
    fun response => .ok response.operationId

theorem writeOperationMessage_eq {s : MemoryStore}
    (hreg : s.isRepoRegistered repoId) (op : Operation) :
    writeOperationMessage P repoId op s =
      (.ok (hashOperation P op),
        s.putOperation repoId (hashOperation P op) op) := by
  simp [writeOperationMessage, Session.rpc, remoteCall, OpStoreService.call_writeOperation,
    hreg]

namespace Publishing

variable {κ : Type} [DecidableEq κ]

def start (store : MemoryStore) : Publishing κ where
  store := store
  phase := fun _ => .idle
  written := []
  published := []

def setPhase (st : Publishing κ) (client : κ) (phase : Phase) : Publishing κ :=
  { st with phase := Function.update st.phase client phase }

def getOpHeads (st : Publishing κ) (client : κ) : Publishing κ :=
  match st.phase client with
  | .idle =>
      match OpHeadsStore.getOpHeads repoId st.store with
      | (.ok heads, store) =>
          { st with store := store }.setPhase client (.fetched heads)
      | (.error _, store) => { st with store := store }
  | _ => st

def writeOperation (st : Publishing κ) (client : κ) (op : Operation) :
    Publishing κ :=
  match st.phase client with
  | .fetched heads =>
      let op := { op with parents := heads }
      match writeOperationMessage P repoId op st.store with
      | (.ok id, store) =>
          { st with store := store, written := st.written ++ [(id, op)] }.setPhase
            client (.written heads id)
      | (.error _, store) => { st with store := store }
  | _ => st

def updateOpHeads (st : Publishing κ) (client : κ) : Publishing κ :=
  match st.phase client with
  | .written heads id =>
      match OpHeadsStore.updateOpHeads repoId heads id st.store with
      | (.ok _, store) =>
          { st with store := store, published := st.published ++ [id] }.setPhase
            client .idle
      | (.error _, store) => { st with store := store }
  | _ => st

def publishing : Reactive (Publishing κ) (Action κ) Unit :=
  fun st action =>
    ((), match action with
      | .getOpHeads client => st.getOpHeads repoId client
      | .writeOperation client op => st.writeOperation P repoId client op
      | .updateOpHeads client => st.updateOpHeads repoId client)

/-! ## What is promised -/

def ParentOf (st : Publishing κ) (p c : OpId) : Prop :=
  ∃ op, (c, op) ∈ st.written ∧ p ∈ op.parents

/-- Every published operation is a head or an ancestor of one. -/
def Retained (st : Publishing κ) : Prop :=
  ∀ id ∈ st.published, Covered st.ParentOf (st.store.heads repoId) id

/-- No acknowledged publication is lost at any point of the run. -/
def NoLostPublish (store : MemoryStore) (actions : List (Action κ)) : Prop :=
  ∀ before, before <+: actions →
    ((publishing P repoId).finalState (start store) before).Retained repoId

/--
The call is no update of the heads, or it finds one of the heads its client
fetched still a head (or the client fetched none), or its operation is covered
by the heads already.
-/
def Timely (st : Publishing κ) : Action κ → Prop
  | .updateOpHeads client => ∀ heads id, st.phase client = .written heads id →
      TakesEffect (st.store.heads repoId) heads ∨
        Covered st.ParentOf (st.store.heads repoId) id
  | _ => True

/-! ## What one call does -/

/-- A client that is about to publish has written an operation on its heads. -/
structure Consistent (st : Publishing κ) : Prop where
  registered : st.store.isRepoRegistered repoId
  written : ∀ client heads id, st.phase client = .written heads id →
    ∃ op, (id, op) ∈ st.written ∧ op.parents = heads

inductive Step (st : Publishing κ) : Action κ → Publishing κ → Prop where
  | fetched (client : κ) (hphase : st.phase client = .idle) :
      Step st (.getOpHeads client)
        (st.setPhase client (.fetched (st.store.heads repoId)))
  | written (client : κ) (op : Operation) (heads : List OpId) (id : OpId)
      (hphase : st.phase client = .fetched heads)
      (hid : id = hashOperation P { op with parents := heads }) :
      Step st (.writeOperation client op)
        ({ st with
            store := st.store.putOperation repoId id { op with parents := heads }
            written := st.written ++ [(id, { op with parents := heads })] }.setPhase
          client (.written heads id))
  | published (client : κ) (heads : List OpId) (id : OpId)
      (hphase : st.phase client = .written heads id) :
      Step st (.updateOpHeads client)
        ({ st with
            store := (st.store.updateOpHeads repoId heads id).2
            published := st.published ++ [id] }.setPhase client .idle)
  | skipped (action : Action κ) : Step st action st

variable {P repoId} {st st' : Publishing κ} {action : Action κ}

theorem updateOpHeads_written {client : κ} {heads : List OpId} {id : OpId}
    (hreg : st.store.isRepoRegistered repoId)
    (hphase : st.phase client = .written heads id) :
    st.updateOpHeads repoId client =
      { st with
          store := (st.store.updateOpHeads repoId heads id).2
          published := st.published ++ [id] }.setPhase client .idle := by
  simp only [updateOpHeads, hphase, OpHeadsStore.updateOpHeads_eq hreg]

theorem publishing_step (hreg : st.store.isRepoRegistered repoId)
    (action : Action κ) :
    Step P repoId st action (publishing P repoId st action).2 := by
  cases action with
  | getOpHeads client =>
      simp only [publishing, getOpHeads]
      cases hphase : st.phase client with
      | idle =>
          simp only [OpHeadsStore.getOpHeads_eq hreg]
          exact .fetched client hphase
      | _ => exact .skipped _
  | writeOperation client op =>
      simp only [publishing, writeOperation]
      cases hphase : st.phase client with
      | fetched heads =>
          simp only [writeOperationMessage_eq P repoId hreg]
          exact .written client op heads _ hphase rfl
      | _ => exact .skipped _
  | updateOpHeads client =>
      cases hphase : st.phase client with
      | written heads id =>
          simp only [publishing, updateOpHeads_written hreg hphase]
          exact .published client heads id hphase
      | _ =>
          simp only [publishing, updateOpHeads, hphase]
          exact .skipped _

/-! ## What one call preserves -/

omit [DecidableEq κ] in
theorem Consistent.start {store : MemoryStore}
    (hreg : store.isRepoRegistered repoId) :
    Consistent repoId (start store : Publishing κ) where
  registered := hreg
  written := by
    intro client heads id hphase
    cases hphase

theorem Consistent.setPhase (hst : Consistent repoId st) {client : κ}
    {phase : Phase} (hphase : ∀ heads id, phase = .written heads id →
      ∃ op, (id, op) ∈ st.written ∧ op.parents = heads) :
    Consistent repoId (st.setPhase client phase) where
  registered := hst.registered
  written := by
    intro client' heads id h
    by_cases hclient : client' = client
    · subst hclient
      exact hphase heads id (by simpa [Publishing.setPhase] using h)
    · exact hst.written client' heads id
        (by simpa [Publishing.setPhase, hclient] using h)

theorem Step.consistent (h : Step P repoId st action st')
    (hst : Consistent repoId st) : Consistent repoId st' := by
  cases h with
  | fetched client _ => exact hst.setPhase fun _ _ h => by cases h
  | written client op heads id _ _ =>
      apply Consistent.setPhase
      · refine ⟨hst.registered, fun client heads id h => ?_⟩
        obtain ⟨old, hmem, hparents⟩ := hst.written client heads id h
        exact ⟨old, List.mem_append_left _ hmem, hparents⟩
      · intro _ _ h
        obtain ⟨rfl, rfl⟩ := Phase.written.inj h
        exact ⟨_, List.mem_append_right _ (List.mem_singleton_self _), rfl⟩
  | published client heads id _ =>
      apply Consistent.setPhase
      · exact ⟨hst.registered, hst.written⟩
      · intro _ _ h
        cases h
  | skipped => exact hst

theorem Step.retained (h : Step P repoId st action st')
    (hst : Consistent repoId st) (htimely : Timely repoId st action)
    (hretained : Retained repoId st) : Retained repoId st' := by
  cases h with
  | fetched => exact hretained
  | written =>
      -- the heads stay, and the parent relation grows
      intro x hx
      refine (hretained x hx).mono ?_
      rintro p c ⟨old, hmem, hparent⟩
      exact ⟨old, List.mem_append_left _ hmem, hparent⟩
  | published client heads id hphase =>
      obtain ⟨op, hmem, hparents⟩ := hst.written client heads id hphase
      have hheads : ((st.store.updateOpHeads repoId heads id).2).heads repoId =
          updateHeads (st.store.heads repoId) heads id :=
        st.store.heads_updateOpHeads ..
      have hkept {x : OpId}
          (hx : Covered st.ParentOf (st.store.heads repoId) x) :
          Covered st.ParentOf (updateHeads (st.store.heads repoId) heads id) x :=
        hx.replace fun head hhead =>
          covered_updateHeads (fun old hold =>
            .single ⟨op, hmem, hparents ▸ hold⟩) hhead
      intro x hx
      change Covered st.ParentOf (((st.store.updateOpHeads repoId heads id).2).heads repoId) x
      rw [hheads]
      rcases List.mem_append.mp hx with hx | hx
      · exact hkept (hretained x hx)
      · obtain rfl := List.mem_singleton.mp hx
        rcases htimely heads x hphase with heffect | hcovered
        · exact .of_mem (newId_mem_updateHeads heffect)
        · exact hkept hcovered
  | skipped => exact hretained

theorem timely_of_retained {client : κ}
    (hreg : st.store.isRepoRegistered repoId)
    (hretained : Retained repoId
      (publishing P repoId st (.updateOpHeads client)).2) :
    Timely repoId st (.updateOpHeads client) := by
  intro heads id hphase
  by_cases heffect : TakesEffect (st.store.heads repoId) heads
  · exact .inl heffect
  · right
    simp only [publishing, updateOpHeads_written hreg hphase] at hretained
    have hcovered := hretained id
      (List.mem_append_right _ (List.mem_singleton_self id))
    have hheads : ((st.store.updateOpHeads repoId heads id).2).heads repoId =
        st.store.heads repoId :=
      (st.store.heads_updateOpHeads ..).trans
        (updateHeads_of_not_takesEffect heffect)
    rw [← hheads]
    exact hcovered

/-! ## Lost publications -/

theorem consistent_along {store : MemoryStore}
    (hreg : store.isRepoRegistered repoId) (actions : List (Action κ)) :
    Consistent repoId ((publishing P repoId).finalState (start store) actions) :=
  (publishing P repoId).invariant (.start hreg) fun _ action _ hst =>
    (publishing_step hst.registered action).consistent hst

/--
A run loses no acknowledged publication exactly if each of its updates is
timely: a stale update is acknowledged without having any effect.
-/
theorem noLostPublish_iff {store : MemoryStore}
    (hreg : store.isRepoRegistered repoId) (actions : List (Action κ)) :
    NoLostPublish P repoId store actions ↔
      ∀ before action, before ++ [action] <+: actions →
        Timely repoId ((publishing P repoId).finalState (start store) before)
          action := by
  constructor
  · intro hsafe before action hinitial
    cases action with
    | updateOpHeads client =>
        have hretained := hsafe _ hinitial
        rw [Reactive.finalState_concat] at hretained
        exact timely_of_retained (consistent_along hreg before).registered
          hretained
    | _ => exact trivial
  · intro htimely before hbefore
    refine (publishing P repoId).invariant_along (fun id hid => ?_)
      (fun before action hinitial hretained => ?_) hbefore
    · cases hid
    · have hst := consistent_along (P := P) hreg before
      exact (publishing_step hst.registered action).retained hst
        (htimely before action hinitial) hretained

/-- A client publishes while nobody else does. -/
def timelyUpdate : List (Action Unit) :=
  [.getOpHeads (), .writeOperation () { viewId := [1] }, .updateOpHeads ()]

theorem noLostPublish_iff_timelyUpdate :
    NoLostPublish .reference "repo" (MemoryStore.new.registerRepo "repo") timelyUpdate := by
  refine (noLostPublish_iff rfl timelyUpdate).mpr ?_
  simp only [timelyUpdate, Reactive.forall_initial_cons_iff]
  refine ⟨trivial, trivial, ?_, ?_⟩
  · intro heads id hphase
    have hfetched : heads = [rootOperationIdBytes] := (Phase.written.inj hphase).1.symm
    subst hfetched
    exact .inl (.inr ⟨rootOperationIdBytes, List.mem_cons_self, List.mem_cons_self⟩)
  · intro before call hinitial
    simp at hinitial

/-- Two clients publish from the same heads, the second after the first. -/
def staleUpdate : List (Action Bool) :=
  [.getOpHeads false, .getOpHeads true,
    .writeOperation false { viewId := [1] },
    .writeOperation true { viewId := [2] },
    .updateOpHeads false, .updateOpHeads true]

theorem staleUpdate_loses :
    ¬ NoLostPublish .reference "repo" (MemoryStore.new.registerRepo "repo")
      staleUpdate := by
  intro hsafe
  have hretained := hsafe staleUpdate List.prefix_rfl
  generalize hst : (publishing .reference "repo").finalState
    (start (MemoryStore.new.registerRepo "repo")) staleUpdate = st at hretained
  let lost := hashOperation .reference
    { viewId := [2], parents := [rootOperationIdBytes] }
  have hpublished : lost ∈ st.published := by
    subst hst
    decide +kernel
  have hheads : lost ∉ st.store.heads "repo" := by
    subst hst
    decide +kernel
  have hparents : ∀ entry ∈ st.written, lost ∉ entry.2.parents := by
    subst hst
    decide +kernel
  -- no head and no parent of a written operation is the lost one
  refine (hretained lost hpublished).mem_of_closed (· ≠ lost)
    (fun head hhead heq => hheads (heq ▸ hhead)) ?_ rfl
  rintro p c ⟨op, hmem, hparent⟩ - rfl
  exact hparents _ hmem hparent

end Publishing

end CommitCloud.Client
