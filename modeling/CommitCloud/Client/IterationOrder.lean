import CommitCloud.Client.OpStore
import CommitCloud.Server.IterationOrder

/-!
# Clients that write equal values

The conversions to messages keep equality of values, and the transport keeps
equality of messages.  So two clients that write equal views or operations are
told the same id, whatever order their maps and sets iterate in.
-/

namespace CommitCloud.Client.OpStore

open Foundation CommitCloud.Server

variable {J : JjLib}

theorem operationToProto_equiv {op op' : Jj.Operation} (h : op.Equiv op') :
    (operationToProto op).Equiv (operationToProto op') := by
  obtain ⟨viewId, parents, metadata, preds⟩ := op
  obtain ⟨viewId', parents', metadata', preds'⟩ := op'
  obtain ⟨rfl, rfl, hmetadata, rfl⟩ := h
  refine ⟨rfl, .some ?_⟩
  obtain ⟨time, description, host, user, snapshot, ws, attributes⟩ := metadata
  obtain ⟨time', description', host', user', snapshot', ws', attributes'⟩ := metadata'
  obtain ⟨rfl, rfl, rfl, rfl, rfl, rfl, hattributes⟩ := hmetadata
  exact ⟨rfl, ((HashMap.collect_equiv_of_nodup _).trans hattributes).trans
    (HashMap.collect_equiv_of_nodup _).symm⟩

theorem viewToProto_sameUpToOrder {view view' : Jj.View J.RefTarget}
    (h : view.Equiv view') :
    (viewToProto J view).SameUpToOrder (viewToProto J view') := by
  obtain ⟨headIds, wc, bookmarks, tags, remotes, refs, gitHead⟩ := view
  obtain ⟨headIds', wc', bookmarks', tags', remotes', refs', gitHead'⟩ := view'
  obtain ⟨hheads, rfl, rfl, rfl, rfl, rfl, rfl⟩ := h
  have hrest := (Proto.OpStore.View.Equiv.refl (viewToProto J
    ⟨headIds, wc, bookmarks, tags, remotes, refs, gitHead⟩)).sameUpToOrder
  exact { hrest with headIds := hheads.perm }

/-- What a client sends, as the server receives it. -/
theorem hashOperation_delivered (P : Platform) (T : Transport)
    (message : Proto.OpStore.Operation) :
    hashOperation P (T.operation message) = hashOperation P message :=
  hashOperation_eq_of_equiv P (T.operation_equiv message)

theorem hashView_delivered (P : Platform) (T : Transport)
    (message : Proto.OpStore.View) :
    hashView P (T.view message) = hashView P message :=
  hashView_eq_of_sameUpToOrder P (T.view_equiv message).sameUpToOrder

/--
No iteration order shows in an id: not that of a message, and not that of the
values of two clients or of the messages the clients make of them.
-/
structure IgnoresIterationOrder (J : JjLib) (P : Platform) : Prop where
  hashView : ∀ view view' : Proto.OpStore.View, view.SameUpToOrder view' →
    hashView P view = hashView P view'
  hashOperation : ∀ op op' : Proto.OpStore.Operation, op.Equiv op' →
    hashOperation P op = hashOperation P op'
  writeView : ∀ (T T' : Transport) (repoId repoId' : RepoId)
    (s s' : MemoryStore) (view view' : Jj.View J.RefTarget),
    s.isRepoRegistered repoId → s'.isRepoRegistered repoId' →
    view.Equiv view' →
    ∃ id, (writeView J P T repoId view s).1 = .ok id ∧
      (writeView J P T' repoId' view' s').1 = .ok id
  writeOperation : ∀ (T T' : Transport) (repoId repoId' : RepoId)
    (s s' : MemoryStore) (op op' : Jj.Operation),
    s.isRepoRegistered repoId → s'.isRepoRegistered repoId' → op.Equiv op' →
    ∃ id, (writeOperation P T repoId op s).1 = .ok id ∧
      (writeOperation P T' repoId' op' s').1 = .ok id

theorem ignoresIterationOrder (J : JjLib) (P : Platform) :
    IgnoresIterationOrder J P where
  hashView _ _ h := hashView_eq_of_sameUpToOrder P h
  hashOperation _ _ h := hashOperation_eq_of_equiv P h
  writeView T T' repoId repoId' s s' view view' hreg hreg' h := by
    refine ⟨_, congrArg Prod.fst (writeView_eq hreg view), ?_⟩
    rw [writeView_eq hreg' view', hashView_delivered, hashView_delivered,
      hashView_eq_of_sameUpToOrder P (viewToProto_sameUpToOrder h)]
  writeOperation T T' repoId repoId' s s' op op' hreg hreg' h := by
    refine ⟨_, congrArg Prod.fst (writeOperation_eq hreg op), ?_⟩
    rw [writeOperation_eq hreg' op', hashOperation_delivered,
      hashOperation_delivered,
      hashOperation_eq_of_equiv P (operationToProto_equiv h)]

end CommitCloud.Client.OpStore
