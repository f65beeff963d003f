import CommitCloud.Client.Publish
import CommitCloud.Server.HeadUpdates
import Mathlib.Data.List.Chain

/-!
# Linear history

Clients that publish as above compare and swap the heads.  From one head there
is always one head: the operations whose publication took effect form a chain,
each with the one before as its only parent.  An update has no effect only if
another client's took effect since its client fetched the heads, so of clients
that compete one always gets ahead.  Where there are many heads, the first
client that nobody overtakes leaves one for good.
-/

namespace CommitCloud.Client.Publishing

open Foundation CommitCloud.Server CommitCloud.Proto.OpStore

variable {κ : Type} [DecidableEq κ] {P : Platform} {repoId : RepoId}

variable {st st' : Publishing κ} {action : Action κ} {client : κ} {heads : List OpId}

/-! ## What a client holds -/

/-- The client fetched these heads and has not published since. -/
def Holding (st : Publishing κ) (client : κ) (heads : List OpId) : Prop :=
  st.phase client = .fetched heads ∨ ∃ id, st.phase client = .written heads id

section Holding

variable {store : MemoryStore} {written : List (OpId × Operation)} {published : List OpId}
  {client' : κ} {phase : Phase}

/-- Only the phase of the client that acts changes. -/
theorem holding_setPhase_of_ne (hne : client ≠ client') :
    Holding (({ st with store, written, published } : Publishing κ).setPhase client' phase)
      client heads ↔ Holding st client heads := by
  simp only [Holding, setPhase, Function.update_of_ne hne]

theorem holding_setPhase_self :
    Holding (({ st with store, written, published } : Publishing κ).setPhase client phase)
      client heads ↔ phase = .fetched heads ∨ ∃ id, phase = .written heads id := by
  simp only [Holding, setPhase, Function.update_self]

end Holding

/-- After a call a client holds what it held, or what it was told just now. -/
theorem Step.holding (h : Step P repoId st action st')
    (hholding : Holding st' client heads) :
    Holding st client heads ∨
      action = .getOpHeads client ∧ heads = st.store.heads repoId := by
  cases h with
  | fetched client' hphase =>
      by_cases hclient : client = client'
      · subst hclient
        rcases holding_setPhase_self.mp hholding with h | ⟨id, h⟩
        · exact .inr ⟨rfl, (Phase.fetched.inj h).symm⟩
        · cases h
      · exact .inl ((holding_setPhase_of_ne hclient).mp hholding)
  | written client' op heads' id hphase =>
      by_cases hclient : client = client'
      · subst hclient
        rcases holding_setPhase_self.mp hholding with h | ⟨id', h⟩
        · cases h
        · obtain ⟨rfl, -⟩ := Phase.written.inj h
          exact .inl (.inl hphase)
      · exact .inl ((holding_setPhase_of_ne hclient).mp hholding)
  | published client' heads' id hphase =>
      by_cases hclient : client = client'
      · subst hclient
        rcases holding_setPhase_self.mp hholding with h | ⟨id', h⟩
        · cases h
        · cases h
      · exact .inl ((holding_setPhase_of_ne hclient).mp hholding)
  | skipped => exact .inl hholding

/-- The heads change only by an update that takes effect. -/
theorem Step.heads_eq_or (h : Step P repoId st action st') :
    st'.store.heads repoId = st.store.heads repoId ∨
      ∃ client heads id, action = .updateOpHeads client ∧
        st.phase client = .written heads id ∧ TakesEffect (st.store.heads repoId) heads := by
  cases h with
  | published client heads id hphase =>
      by_cases heffect : TakesEffect (st.store.heads repoId) heads
      · exact .inr ⟨client, heads, id, rfl, hphase, heffect⟩
      · left
        exact (st.store.heads_updateOpHeads ..).trans (updateHeads_of_not_takesEffect heffect)
  | _ => exact .inl rfl

/-- Who has just published holds nothing. -/
theorem not_holding_of_published (hreg : st.store.isRepoRegistered repoId) {id : OpId}
    {heads' : List OpId} (hphase : st.phase client = .written heads' id) :
    ¬ Holding (publishing P repoId st (.updateOpHeads client)).2 client heads := by
  simp only [publishing, updateOpHeads_written hreg hphase, holding_setPhase_self]
  rintro (h | ⟨_, h⟩) <;> cases h

theorem takesEffect_self (heads : List OpId) : TakesEffect heads heads := by
  cases heads with
  | nil => exact .inl rfl
  | cons head heads => exact .inr ⟨head, List.mem_cons_self, List.mem_cons_self⟩

/-! ## Updates without effect -/

/-- While the client held these heads, another client's update took effect. -/
def Overtaken (P : Platform) (repoId : RepoId) (store : MemoryStore)
    (actions : List (Action κ)) (client : κ) (heads : List OpId) : Prop :=
  ∃ before other heads' id, before ++ [.updateOpHeads other] <+: actions ∧ other ≠ client ∧
    let st := (publishing P repoId).finalState (start store) before
    Holding st client heads ∧ st.phase other = .written heads' id ∧
      TakesEffect (st.store.heads repoId) heads'

theorem Overtaken.append {store : MemoryStore} {actions : List (Action κ)}
    (h : Overtaken P repoId store actions client heads) (action : Action κ) :
    Overtaken P repoId store (actions ++ [action]) client heads := by
  obtain ⟨before, other, heads', id, hinitial, hrest⟩ := h
  exact ⟨before, other, heads', id, hinitial.trans (List.prefix_append ..), hrest⟩

/-- What a client holds are the current heads, unless another one was faster. -/
theorem current_or_overtaken {store : MemoryStore} (hreg : store.isRepoRegistered repoId)
    (actions : List (Action κ)) {client : κ} {heads : List OpId}
    (hholding : Holding ((publishing P repoId).finalState (start store) actions) client
      heads) :
    ((publishing P repoId).finalState (start store) actions).store.heads repoId = heads ∨
      Overtaken P repoId store actions client heads := by
  induction actions using List.reverseRecOn with
  | nil => rcases hholding with h | ⟨id, h⟩ <;> cases h
  | append_singleton actions action ih =>
      have hst := (consistent_along (P := P) hreg actions).registered
      have hstep := publishing_step (P := P) hst action
      rw [Reactive.finalState_concat] at hholding ⊢
      rcases hstep.holding hholding with hbefore | ⟨rfl, rfl⟩
      · rcases hstep.heads_eq_or with hheads | ⟨other, heads', id, rfl, hphase, heffect⟩
        · rw [hheads]
          exact (ih hbefore).imp_right (·.append action)
        · rcases ih hbefore with hcurrent | hovertaken
          · refine .inr ⟨actions, other, heads', id, List.prefix_rfl, ?_, hbefore, hphase,
              heffect⟩
            rintro rfl
            exact not_holding_of_published hst hphase hholding
          · exact .inr (hovertaken.append _)
      · rcases hstep.heads_eq_or with hheads | ⟨_, _, _, heq, _⟩
        · exact .inl hheads
        · cases heq

/--
An update has no effect only if another client's update took effect after its
client fetched the heads.
-/
theorem overtaken_of_no_effect {store : MemoryStore}
    (hreg : store.isRepoRegistered repoId) (actions : List (Action κ)) {client : κ}
    {heads : List OpId} {id : OpId}
    (hphase : ((publishing P repoId).finalState (start store) actions).phase client =
      .written heads id)
    (hstale : ¬ TakesEffect
      (((publishing P repoId).finalState (start store) actions).store.heads repoId) heads) :
    Overtaken P repoId store actions client heads := by
  refine (current_or_overtaken hreg actions (.inr ⟨id, hphase⟩)).resolve_left
    fun hcurrent => hstale ?_
  rw [hcurrent]
  exact takesEffect_self heads

/-- The second of two clients that publish on the same heads. -/
theorem overtaken_of_no_effect_stale :
    Overtaken .reference "repo" (MemoryStore.new.registerRepo "repo")
      staleUpdate.dropLast true [rootOperationIdBytes] := by
  have hphase : ((publishing .reference "repo").finalState
      (start (MemoryStore.new.registerRepo "repo")) staleUpdate.dropLast).phase true =
      .written [rootOperationIdBytes] (hashOperation .reference
        { viewId := [2], parents := [rootOperationIdBytes] }) := by
    decide +kernel
  refine overtaken_of_no_effect rfl staleUpdate.dropLast hphase ?_
  rw [TakesEffect]
  decide +kernel

/-! ## One head -/

theorem updateHeads_singleton (head old newId : OpId) :
    updateHeads [head] [old] newId = if head = old then [newId] else [head] := by
  split
  next heq =>
    subst heq
    simp [updateHeads]
  next hne => simp [updateHeads, hne]

/-- The only parent of the operation, as it was written. -/
def OnlyParent (st : Publishing κ) (p c : OpId) : Prop :=
  ∃ op, (c, op) ∈ st.written ∧ op.parents = [p]

/--
There is one head, the last of a chain of published operations from the first
one, and every client that is about to publish replaces one head.
-/
structure Linear (repoId : RepoId) (first : OpId) (st : Publishing κ) : Prop where
  chain : ∃ chain, List.IsChain st.OnlyParent (first :: chain) ∧
    st.store.heads repoId = [(first :: chain).getLast (List.cons_ne_nil _ _)] ∧
    chain.Sublist st.published
  held : ∀ client heads, Holding st client heads → ∃ head, heads = [head]

theorem Step.linear (h : Step P repoId st action st') {first : OpId}
    (hst : Consistent repoId st) (hlinear : Linear repoId first st) :
    Linear repoId first st' := by
  obtain ⟨chain, hchain, hheads, hpublished⟩ := hlinear.chain
  have hheld (client : κ) (heads : List OpId) (hholding : Holding st' client heads) :
      ∃ head, heads = [head] := by
    rcases h.holding hholding with hbefore | ⟨-, rfl⟩
    · exact hlinear.held client heads hbefore
    · exact ⟨_, hheads⟩
  refine ⟨?_, hheld⟩
  cases h with
  | fetched => exact ⟨chain, hchain, hheads, hpublished⟩
  | written client op heads id _ hid =>
      refine ⟨chain, hchain.imp ?_, hheads, hpublished⟩
      rintro p c ⟨op', hmem, hparents⟩
      exact ⟨op', List.mem_append_left _ hmem, hparents⟩
  | published client heads id hphase =>
      obtain ⟨old, rfl⟩ := hlinear.held client heads (.inr ⟨id, hphase⟩)
      obtain ⟨op, hmem, hparents⟩ := hst.written client [old] id hphase
      have hafter : ((st.store.updateOpHeads repoId [old] id).2).heads repoId =
          updateHeads (st.store.heads repoId) [old] id := st.store.heads_updateOpHeads ..
      rw [hheads, updateHeads_singleton] at hafter
      split at hafter
      next hcurrent =>
        refine ⟨chain ++ [id], ?_, ?_, hpublished.append_right _⟩
        · rw [← List.cons_append]
          refine hchain.append (List.isChain_singleton id) fun last hlast new hnew => ?_
          rw [List.getLast?_eq_some_getLast (List.cons_ne_nil _ _)] at hlast
          obtain rfl := Option.some.inj hlast
          obtain rfl := Option.some.inj hnew
          exact ⟨op, hmem, hcurrent ▸ hparents⟩
        · exact hafter.trans (by simp)
      next => exact ⟨chain, hchain, hafter, hpublished.trans (List.sublist_append_left ..)⟩
  | skipped => exact ⟨chain, hchain, hheads, hpublished⟩

/-- Whoever publishes, history that starts from one head stays linear. -/
theorem history_linear {store : MemoryStore} (hreg : store.isRepoRegistered repoId)
    {first : OpId} (hfirst : store.heads repoId = [first]) (actions : List (Action κ)) :
    Linear repoId first ((publishing P repoId).finalState (start store) actions) := by
  have hboth : Consistent repoId ((publishing P repoId).finalState (start store) actions) ∧
      Linear repoId first ((publishing P repoId).finalState (start store) actions) := by
    refine (publishing P repoId).invariant
      (I := fun st : Publishing κ => Consistent repoId st ∧ Linear repoId first st)
      ⟨.start hreg, ⟨[], List.isChain_singleton first, hfirst, List.nil_sublist _⟩, ?_⟩
      fun st action _ h => ?_
    · rintro client heads (h | ⟨id, h⟩) <;> cases h
    · have hstep := publishing_step (P := P) h.1.registered action
      exact ⟨(publishing_step h.1.registered action).consistent h.1,
        hstep.linear h.1 h.2⟩
  exact hboth.2

theorem history_linear_stale :
    Linear "repo" rootOperationIdBytes ((publishing .reference "repo").finalState
      (start (MemoryStore.new.registerRepo "repo")) staleUpdate) :=
  history_linear rfl rfl staleUpdate

/-! ## Many heads -/

theorem updateHeads_self (heads : List OpId) (newId : OpId) :
    updateHeads heads heads newId = [newId] := by
  have hretained : retainedHeads heads heads = [] := by simp [retainedHeads]
  rw [updateHeads_of_takesEffect (takesEffect_self heads), hretained]
  simp

/-- No client is about to publish without replacing a head. -/
structure Replacing (repoId : RepoId) (st : Publishing κ) : Prop where
  consistent : Consistent repoId st
  heads : st.store.heads repoId ≠ []
  held : ∀ client heads, Holding st client heads → heads ≠ []

theorem Step.heads_ne_nil (h : Step P repoId st action st')
    (hheads : st.store.heads repoId ≠ []) : st'.store.heads repoId ≠ [] := by
  cases h with
  | published client heads id hphase =>
      have hafter := st.store.heads_updateOpHeads repoId heads id
      exact fun hnil => updateHeads_ne_nil hheads (hafter.symm.trans hnil)
  | _ => exact hheads

theorem replacing_step (h : Replacing repoId st) (action : Action κ) :
    Replacing repoId (publishing P repoId st action).2 := by
  have hstep := publishing_step (P := P) h.consistent.registered action
  refine ⟨(publishing_step h.consistent.registered action).consistent h.consistent,
    hstep.heads_ne_nil h.heads, fun client heads hholding => ?_⟩
  rcases hstep.holding hholding with hbefore | ⟨-, rfl⟩
  · exact h.held client heads hbefore
  · exact h.heads

omit [DecidableEq κ] in
theorem replacing_start {store : MemoryStore} (hreg : store.isRepoRegistered repoId)
    (hheads : store.heads repoId ≠ []) : Replacing repoId (start store : Publishing κ) where
  consistent := .start hreg
  heads := hheads
  held := by
    rintro client heads (h | ⟨id, h⟩) <;> cases h

/-- One head is replaced by one head, if at all. -/
theorem one_head_step (h : Replacing repoId st) (hone : ∃ head, st.store.heads repoId = [head])
    (action : Action κ) :
    ∃ head, (publishing P repoId st action).2.store.heads repoId = [head] := by
  obtain ⟨head, hhead⟩ := hone
  have hstep := publishing_step (P := P) h.consistent.registered action
  generalize (publishing P repoId st action).2 = st' at hstep ⊢
  cases hstep with
  | published client heads id hphase =>
      have hafter : ((st.store.updateOpHeads repoId heads id).2).heads repoId =
          updateHeads (st.store.heads repoId) heads id := st.store.heads_updateOpHeads ..
      have hne : heads ≠ [] := h.held client heads (.inr ⟨id, hphase⟩)
      rw [hhead] at hafter
      by_cases heffect : TakesEffect [head] heads
      · obtain ⟨old, hmem, hold⟩ := heffect.resolve_left hne
        obtain rfl := List.mem_singleton.mp hmem
        have hretained : retainedHeads [old] heads = [] := by simp [retainedHeads, hold]
        rw [updateHeads_of_takesEffect heffect, hretained] at hafter
        simp only [List.not_mem_nil, if_false, List.nil_append] at hafter
        exact ⟨id, hafter⟩
      · rw [updateHeads_of_not_takesEffect heffect] at hafter
        exact ⟨head, hafter⟩
  | _ => exact ⟨head, hhead⟩

/--
A client that publishes and was not overtaken since it fetched the heads makes
its operation, with all heads as its parents, the only head.  From then on there
is one head, whoever publishes.
-/
theorem heads_settle {store : MemoryStore} (hreg : store.isRepoRegistered repoId)
    (hheads : store.heads repoId ≠ []) (before after : List (Action κ)) {client : κ}
    {heads : List OpId} {id : OpId}
    (hphase : ((publishing P repoId).finalState (start store) before).phase client =
      .written heads id)
    (hahead : ¬ Overtaken P repoId store before client heads) :
    (((publishing P repoId).finalState (start store)
        (before ++ [.updateOpHeads client])).store.heads repoId = [id] ∧
      ∃ op, (id, op) ∈ ((publishing P repoId).finalState (start store) before).written ∧
        op.parents = ((publishing P repoId).finalState (start store) before).store.heads
          repoId) ∧
    ∃ head, ((publishing P repoId).finalState (start store)
      (before ++ .updateOpHeads client :: after)).store.heads repoId = [head] := by
  have hreplacing (actions : List (Action κ)) :
      Replacing repoId ((publishing P repoId).finalState (start store) actions) :=
    (publishing P repoId).invariant (replacing_start hreg hheads)
      fun st action _ h => replacing_step h action
  have hbefore := hreplacing before
  have hcurrent := (current_or_overtaken hreg before (.inr ⟨id, hphase⟩)).resolve_right hahead
  have hmerged : ((publishing P repoId).finalState (start store)
      (before ++ [.updateOpHeads client])).store.heads repoId = [id] := by
    rw [Reactive.finalState_concat]
    simp only [publishing, updateOpHeads_written hbefore.consistent.registered hphase]
    refine (MemoryStore.heads_updateOpHeads ..).trans ?_
    rw [hcurrent, updateHeads_self]
  obtain ⟨op, hwritten, hparents⟩ := hbefore.consistent.written client heads id hphase
  refine ⟨⟨hmerged, op, hwritten, hparents.trans hcurrent.symm⟩, ?_⟩
  rw [List.append_cons, Reactive.finalState_append]
  refine ((publishing P repoId).invariant
    (I := fun st => Replacing repoId st ∧ ∃ head, st.store.heads repoId = [head])
    ⟨hreplacing _, id, hmerged⟩ fun st action _ h => ?_).2
  exact ⟨replacing_step h.1 action, one_head_step h.1 h.2 action⟩

/-- A repository with two heads. -/
def twoHeads : MemoryStore :=
  ((MemoryStore.new.registerRepo "repo").updateOpHeads "repo" [] [1]).2

theorem heads_settle_two :
    (((publishing .reference "repo").finalState (start twoHeads)
        [.getOpHeads true, .writeOperation true { viewId := [2] },
          .updateOpHeads true]).store.heads "repo" =
        [hashOperation .reference { viewId := [2], parents := [rootOperationIdBytes, [1]] }] ∧
      ∃ op, (hashOperation .reference
            { viewId := [2], parents := [rootOperationIdBytes, [1]] }, op) ∈
          ((publishing .reference "repo").finalState (start twoHeads)
            [.getOpHeads true, .writeOperation true { viewId := [2] }]).written ∧
        op.parents = ((publishing .reference "repo").finalState (start twoHeads)
          [.getOpHeads true, .writeOperation true { viewId := [2] }]).store.heads "repo") ∧
    ∃ head, ((publishing .reference "repo").finalState (start twoHeads)
      [.getOpHeads true, .writeOperation true { viewId := [2] },
        .updateOpHeads true]).store.heads "repo" = [head] := by
  have hphase : ((publishing .reference "repo").finalState (start twoHeads)
      [.getOpHeads true, .writeOperation true { viewId := [2] }]).phase true =
      .written [rootOperationIdBytes, [1]] (hashOperation .reference
        { viewId := [2], parents := [rootOperationIdBytes, [1]] }) := by
    decide +kernel
  refine heads_settle rfl (by decide) [.getOpHeads true,
    .writeOperation true { viewId := [2] }] [] hphase ?_
  -- nothing but the fetch and the write comes before
  rintro ⟨before, other, heads', id, hinitial, -⟩
  have hmem : .updateOpHeads other ∈
      ([.getOpHeads true, .writeOperation true { viewId := [2] }] : List (Action Bool)) :=
    hinitial.subset (by simp)
  simp at hmem

end CommitCloud.Client.Publishing
