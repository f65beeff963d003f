import CommitCloud.Client.OpStore

/-!
# Operations through the cloud

An operation that is written and read back comes back with its time zone
offsets set to zero and is the same otherwise.
-/

namespace CommitCloud.Client.OpStore

open Foundation CommitCloud.Server

variable {P : Platform} {T : Transport} {repoId : RepoId} {s : MemoryStore}

def withoutOffsets (op : Jj.Operation) : Jj.Operation :=
  { op with
    metadata := { op.metadata with
      time := {
        start := { op.metadata.time.start with tzOffset := 0 }
        end_ := { op.metadata.time.end_ with tzOffset := 0 } } } }

/-! ## The conversions -/

theorem foldl_insert_predecessors (map : BTreeMap CommitId (List CommitId)) :
    (map.entries.map fun entry => Proto.OpStore.CommitPredecessors.mk entry.1
        entry.2).foldl
      (fun map pred => map.insert pred.commitId pred.predecessorIds) .empty =
        map := by
  rw [List.foldl_map]
  exact map.collect_entries

theorem operationFromProto_toProto (op : Jj.Operation) :
    (operationFromProto (operationToProto op)).Equiv (withoutOffsets op) where
  viewId := rfl
  parents := rfl
  metadata := {
    time := rfl
    description := rfl
    hostname := rfl
    username := rfl
    isSnapshot := rfl
    workspaceName := rfl
    attributes := (HashMap.collect_equiv_of_nodup _).trans
      (HashMap.collect_equiv_of_nodup _) }
  commitPredecessors := by
    cases h : op.commitPredecessors with
    | none => simp [operationFromProto, operationToProto, withoutOffsets, h]
    | some map =>
        simp [operationFromProto, operationToProto, withoutOffsets, h,
          foldl_insert_predecessors]

theorem operationFromProto_equiv {message message' : Proto.OpStore.Operation}
    (h : message.Equiv message') :
    (operationFromProto message).Equiv (operationFromProto message') := by
  obtain ⟨hrest, hmetadata⟩ := h
  obtain ⟨viewId, parents, metadata, preds, set⟩ := message
  obtain ⟨viewId', parents', metadata', preds', set'⟩ := message'
  simp only [Proto.OpStore.Operation.mk.injEq, true_and] at hrest
  obtain ⟨rfl, rfl, rfl, rfl⟩ := hrest
  refine ⟨rfl, rfl, ?_, rfl⟩
  cases hmetadata with
  | none => exact ⟨rfl, rfl, rfl, rfl, rfl, rfl, .refl _⟩
  | @some m m' hequiv =>
      obtain ⟨hfields, hattributes⟩ := hequiv
      cases m
      cases m'
      simp only [Proto.OpStore.OperationMetadata.mk.injEq, and_true] at hfields
      obtain ⟨rfl, rfl, rfl, rfl, rfl, rfl, rfl⟩ := hfields
      refine ⟨rfl, rfl, rfl, rfl, rfl, rfl, ?_⟩
      exact ((HashMap.collect_equiv_of_nodup _).trans hattributes).trans
        (HashMap.collect_equiv_of_nodup _).symm

/-! ## Writing and reading back -/

theorem readOperation_written (hreg : s.isRepoRegistered repoId)
    (op : Jj.Operation) :
    ∃ id s' op', writeOperation P T repoId op s = (.ok id, s') ∧
      readOperation T repoId id s' = (.ok op', s') ∧
      op'.Equiv (withoutOffsets op) := by
  refine ⟨_, _, _, writeOperation_eq hreg op,
    readOperation_eq hreg (Nested.lookup_put_self ..), ?_⟩
  -- the message is delivered twice, to the server and back
  have hstored := T.operation_equiv (operationToProto op)
  have hread := T.operation_equiv (T.operation (operationToProto op))
  exact ((operationFromProto_equiv hread).trans
    (operationFromProto_equiv hstored)).trans (operationFromProto_toProto op)

def OperationRoundTrips (P : Platform) (T : Transport) (repoId : RepoId)
    (s : MemoryStore) (op : Jj.Operation) : Prop :=
  ∃ id s' op', writeOperation P T repoId op s = (.ok id, s') ∧
    (readOperation T repoId id s').1 = .ok op' ∧ op'.Equiv op

theorem operationRoundTrips_iff_equiv (hreg : s.isRepoRegistered repoId)
    (op : Jj.Operation) :
    OperationRoundTrips P T repoId s op ↔ (withoutOffsets op).Equiv op := by
  obtain ⟨id, s', op', hwrite, hread, hequiv⟩ :=
    readOperation_written (P := P) (T := T) hreg op
  constructor
  · rintro ⟨id', s'', op'', hwrite', hread', hequiv'⟩
    rw [hwrite] at hwrite'
    cases hwrite'
    rw [hread] at hread'
    cases hread'
    exact hequiv.symm.trans hequiv'
  · intro h
    exact ⟨id, s', op', hwrite, by rw [hread], hequiv.trans h⟩

/--
An operation survives the round trip exactly if its times are in UTC: a message
has no room for the offsets.
-/
theorem operationRoundTrips_iff (hreg : s.isRepoRegistered repoId)
    (op : Jj.Operation) :
    OperationRoundTrips P T repoId s op ↔
      op.metadata.time.start.tzOffset = 0 ∧ op.metadata.time.end_.tzOffset = 0 := by
  rw [operationRoundTrips_iff_equiv hreg]
  constructor
  · intro h
    have htime := h.metadata.time
    exact ⟨(congrArg (·.start.tzOffset) htime).symm,
      (congrArg (·.end_.tzOffset) htime).symm⟩
  · rintro ⟨hstart, hend⟩
    have hsame : withoutOffsets op = op := by
      obtain ⟨viewId, parents, ⟨⟨⟨start, _⟩, ⟨end_, _⟩⟩, rest⟩, preds⟩ := op
      obtain rfl : _ = 0 := hstart
      obtain rfl : _ = 0 := hend
      rfl
    rw [hsame]

def easternOperation : Jj.Operation where
  viewId := rootViewIdBytes
  parents := [rootOperationIdBytes]
  metadata := {
    time := ⟨⟨0, 60⟩, ⟨0, 60⟩⟩
    description := "new empty commit"
    hostname := "host"
    username := "user"
    isSnapshot := false
    workspaceName := some "default"
    attributes := .empty }
  commitPredecessors := some .empty

theorem operationRoundTrips_iff_eastern :
    OperationRoundTrips .reference .direct "repo"
        (MemoryStore.new.registerRepo "repo") easternOperation ↔
      easternOperation.metadata.time.start.tzOffset = 0 ∧
        easternOperation.metadata.time.end_.tzOffset = 0 :=
  operationRoundTrips_iff rfl easternOperation

theorem easternOperation_changed :
    ¬ OperationRoundTrips .reference .direct "repo"
      (MemoryStore.new.registerRepo "repo") easternOperation := by
  rw [operationRoundTrips_iff_equiv rfl]
  intro h
  exact absurd h.metadata.time (by decide)

end CommitCloud.Client.OpStore
