import CommitCloud.Server.Frames

/-!
# Ids and iteration order

The hashing code sorts everything that has no order of its own: the attributes
of an operation, the heads of a view, the keys of its maps and the terms of its
targets.  So messages that are equal as values have equal fields, and equal ids.
-/

namespace CommitCloud.Server

open Foundation CommitCloud.Proto.OpStore

variable (P : Platform)

/-! ## Operations -/

theorem metadataFields_eq_of_equiv {metadata metadata' : OperationMetadata}
    (h : metadata.Equiv metadata') :
    metadataFields metadata = metadataFields metadata' := by
  obtain ⟨hfields, hattributes⟩ := h
  cases metadata
  cases metadata'
  simp only [OperationMetadata.mk.injEq, and_true] at hfields
  obtain ⟨rfl, rfl, rfl, rfl, rfl, rfl, rfl⟩ := hfields
  simp only [metadataFields, BTreeMap.collect_eq_of_equiv hattributes]

theorem operationFields_eq_of_equiv {op op' : Operation} (h : op.Equiv op') :
    operationFields op = operationFields op' := by
  obtain ⟨hrest, hmetadata⟩ := h
  obtain ⟨viewId, parents, metadata, preds, set⟩ := op
  obtain ⟨viewId', parents', metadata', preds', set'⟩ := op'
  simp only [Operation.mk.injEq, true_and] at hrest
  obtain ⟨rfl, rfl, rfl, rfl⟩ := hrest
  cases hmetadata with
  | none => rfl
  | some hequiv =>
      simp only [operationFields, Option.elim_some,
        metadataFields_eq_of_equiv hequiv]

theorem hashOperation_eq_of_equiv {op op' : Operation} (h : op.Equiv op') :
    hashOperation P op = hashOperation P op' := by
  rw [hashOperation, hashOperation, operationBuffer_eq, operationBuffer_eq,
    operationFields_eq_of_equiv h]

/-! ## Views -/

theorem insertionSort_eq_of_perm {ids ids' : List Bytes} (h : ids.Perm ids') :
    ids.insertionSort (· ≤ ·) = ids'.insertionSort (· ≤ ·) := by
  have hperm : (ids.insertionSort (· ≤ ·)).Perm (ids'.insertionSort (· ≤ ·)) :=
    (List.perm_insertionSort _ ids).trans
      (h.trans (List.perm_insertionSort _ ids').symm)
  exact hperm.eq_of_pairwise' (List.pairwise_insertionSort _ ids)
    (List.pairwise_insertionSort _ ids')

theorem sortedCommitIds_eq_of_perm {terms terms' : List RefTargetTerm}
    (h : terms.Perm terms') : sortedCommitIds terms = sortedCommitIds terms' :=
  insertionSort_eq_of_perm (h.map (·.commitId))

theorem refTargetFields_eq_of_sameTerms {target target' : RefTarget}
    (h : target.SameTerms target') :
    refTargetFields target = refTargetFields target' := by
  rw [refTargetFields, refTargetFields, sortedCommitIds_eq_of_perm h.1,
    sortedCommitIds_eq_of_perm h.2]

theorem remoteRefFields_eq_of_sameTerms {remote remote' : RemoteRef}
    (h : remote.SameTerms remote') :
    remoteRefFields remote = remoteRefFields remote' := by
  obtain ⟨target, isTracked⟩ := remote
  obtain ⟨target', isTracked'⟩ := remote'
  obtain ⟨rfl, htarget⟩ := h
  cases htarget with
  | none => rfl
  | some hterms =>
      simp only [remoteRefFields, Option.elim_some,
        refTargetFields_eq_of_sameTerms hterms]

/-- The fields of a map's entries, by ascending name. -/
theorem flatMap_collect_eq {ν : Type} {same : ν → ν → Prop}
    (fields : ν → List Field) (hfields : ∀ {v v'}, same v v' → fields v = fields v')
    {m m' : HashMap String ν}
    (h : ∀ name, Option.Rel same (m.get name) (m'.get name)) :
    (BTreeMap.collect m.entries).entries.flatMap
        (fun entry => textField entry.1 :: fields entry.2) =
      (BTreeMap.collect m'.entries).entries.flatMap
        (fun entry => textField entry.1 :: fields entry.2) := by
  have hget (name : String) : (m.get name).map fields = (m'.get name).map fields := by
    have hrel := h name
    generalize m.get name = v, m'.get name = v' at hrel
    cases hrel with
    | none => rfl
    | some hsame => exact congrArg some (hfields hsame)
  have hflat := congrArg
    (List.flatMap fun entry : String × List Field => textField entry.1 :: entry.2)
    (BTreeMap.map_collect_eq hget)
  simpa only [List.flatMap_map] using hflat

theorem viewFields_eq_of_sameUpToOrder {view view' : View}
    (h : view.SameUpToOrder view') : viewFields view = viewFields view' := by
  simp only [viewFields]
  rw [insertionSort_eq_of_perm h.headIds, BTreeMap.collect_eq_of_equiv h.wcCommitIds,
    flatMap_collect_eq refTargetFields refTargetFields_eq_of_sameTerms
      h.localBookmarks,
    flatMap_collect_eq remoteRefFields remoteRefFields_eq_of_sameTerms
      h.remoteBookmarks]

theorem hashView_eq_of_sameUpToOrder {view view' : View}
    (h : view.SameUpToOrder view') : hashView P view = hashView P view' := by
  rw [hashView, hashView, viewBuffer_eq, viewBuffer_eq,
    viewFields_eq_of_sameUpToOrder h]

end CommitCloud.Server
