import CommitCloud.Client.Backend
import CommitCloud.Client.OpStore
import CommitCloud.Server.References

/-!
# Missing objects

How the five reads of a client report that an object is missing.  The backend
tells the status `NOT_FOUND` apart, which the server also gives for a
repository it does not know; the operation store reports all failures alike.
-/

namespace CommitCloud.Client

open Foundation CommitCloud.Server Backend

variable {J : JjLib} {B : JjBackend} {repoId : RepoId} {s : MemoryStore}

/-! ## Errors -/

/-- jj's errors of an operation store, as far as a missing object is concerned. -/
inductive OpStoreError where
  | objectNotFound (objectType hash : String) (source : ClientError)
  | other (source : ClientError)
  deriving DecidableEq

/-- `map_err(|e| OpStoreError::Other(e.into()))` -/
def opStoreCall {α : Type} (call : Session α) :
    MemoryStore → Except OpStoreError α × MemoryStore :=
  fun s => ((call s).1.mapError .other, (call s).2)

def Backend.BackendFailure.IsObjectNotFound : BackendFailure → Prop
  | .error (.objectNotFound ..) => True
  | _ => False

def OpStoreError.IsObjectNotFound : OpStoreError → Prop
  | .objectNotFound .. => True
  | .other _ => False

section FailsWith

variable {ε α β : Type}

def FailsWith (kind : ε → Prop) (result : Except ε α) : Prop :=
  ∃ error, result = .error error ∧ kind error

@[simp] theorem failsWith_error {kind : ε → Prop} {error : ε} :
    FailsWith kind (.error error : Except ε α) ↔ kind error := by
  simp [FailsWith]

@[simp] theorem not_failsWith_ok {kind : ε → Prop} {a : α} :
    ¬ FailsWith kind (.ok a) := by
  simp [FailsWith]

theorem opStoreCall_ne_objectNotFound (call : Session α) :
    ¬ FailsWith OpStoreError.IsObjectNotFound (opStoreCall call s).1 := by
  unfold opStoreCall
  cases (call s).1 with
  | ok a => exact not_failsWith_ok
  | error error => exact failsWith_error.not.mpr not_false

/-- A read reports an object as missing exactly if the server says `NOT_FOUND`. -/
theorem rpc_objectNotFound_iff {handler : Handler α} {objectType : String} {id : Bytes}
    {decode : α → BackendResult β}
    (hdecode : ∀ a, ¬ FailsWith BackendFailure.IsObjectNotFound (decode a)) :
    FailsWith BackendFailure.IsObjectNotFound
        (rpc handler (readFailure objectType id) decode s).1 ↔
      ∃ message, (handler.call s).1 = .error (.status ⟨.notFound, message⟩) := by
  unfold rpc remoteCall
  rcases handler.call s with ⟨_ | answer, s'⟩
  case ok => exact iff_of_false (hdecode answer) nofun
  case error failure =>
    rw [failsWith_error]
    rcases failure with ⟨code, message⟩ | _
    case status => cases code <;> simp [readFailure, BackendFailure.IsObjectNotFound]
    case panicked => simp [readFailure, BackendFailure.IsObjectNotFound]

end FailsWith

theorem orPanic_ne_objectNotFound {α : Type} (value : Option α) :
    ¬ FailsWith BackendFailure.IsObjectNotFound (orPanic value) := by
  cases value with
  | none => exact failsWith_error.not.mpr not_false
  | some a => exact not_failsWith_ok

/-! ## Reads -/

inductive Read where
  | commit (id : CommitId)
  | tree (path : String) (id : TreeId)
  | file (D : Delivery) (id : FileId)
  | operation (T : OpStore.Transport) (id : OpId)
  | view (T : OpStore.Transport) (id : ViewId)

/-- The client answers for these without a call. -/
def Read.BuiltIn : Read → Prop
  | .commit id => id = rootCommitIdBytes
  | .tree _ id => id = emptyTreeIdBytes
  | _ => False

def Read.ReportsMissing (J : JjLib) (B : JjBackend) (repoId : RepoId) (s : MemoryStore) :
    Read → Prop
  | .commit id =>
      FailsWith BackendFailure.IsObjectNotFound (readCommit B repoId id s).1
  | .tree path id =>
      FailsWith BackendFailure.IsObjectNotFound (readTree B repoId path id s).1
  | .file D id => FailsWith BackendFailure.IsObjectNotFound (readFile D repoId id s).1
  | .operation T id => FailsWith OpStoreError.IsObjectNotFound
      (opStoreCall (OpStore.readOperation T repoId id) s).1
  | .view T id => FailsWith OpStoreError.IsObjectNotFound
      (opStoreCall (OpStore.readView J T repoId id) s).1

/-- The server has the object; it makes up the root operation and the root view. -/
def Read.Present (repoId : RepoId) (s : MemoryStore) : Read → Prop
  | .commit id => (s.getCommit repoId id).isSome
  | .tree _ id => (s.getTree repoId id).isSome
  | .file _ id => (s.getFile repoId id).isSome
  | .operation _ id => (s.readableOperation repoId id).isSome
  | .view _ id => (s.readableView repoId id).isSome

theorem readCommit_reports_iff {id : CommitId} (hid : id ≠ rootCommitIdBytes) :
    (Read.commit id).ReportsMissing J B repoId s ↔
      ¬ (s.isRepoRegistered repoId ∧ (Read.commit id).Present repoId s) := by
  simp only [Read.ReportsMissing, Read.Present, readCommit, if_neg hid]
  rw [rpc_objectNotFound_iff, BackendService.call_readCommit]
  · cases s.isRepoRegistered repoId <;> cases s.getCommit repoId id <;> simp [unregistered]
  · intro response
    cases response.commit with
    | none => exact failsWith_error.not.mpr not_false
    | some commit => exact orPanic_ne_objectNotFound _

theorem readTree_reports_iff {path : String} {id : TreeId} (hid : id ≠ emptyTreeIdBytes) :
    (Read.tree path id).ReportsMissing J B repoId s ↔
      ¬ (s.isRepoRegistered repoId ∧ (Read.tree path id).Present repoId s) := by
  simp only [Read.ReportsMissing, Read.Present, readTree, if_neg hid]
  rw [rpc_objectNotFound_iff, BackendService.call_readTree]
  · cases s.isRepoRegistered repoId <;> cases s.getTree repoId id <;>
      simp [unregistered, hid]
  · intro response
    unfold treeFromProto
    split
    · exact orPanic_ne_objectNotFound _
    · exact failsWith_error.not.mpr not_false

theorem readFile_reports_iff {D : Delivery} {id : FileId} :
    (Read.file D id).ReportsMissing J B repoId s ↔
      ¬ (s.isRepoRegistered repoId ∧ (Read.file D id).Present repoId s) := by
  simp only [Read.ReportsMissing, Read.Present, readFile]
  rw [rpc_objectNotFound_iff fun _ => not_failsWith_ok, BackendService.call_readFile]
  cases s.isRepoRegistered repoId <;> cases s.getFile repoId id <;> simp [unregistered]

/-- The read does not get a status that its mapping of errors conflates. -/
def Read.ToldApart (repoId : RepoId) (s : MemoryStore) : Read → Prop
  | .commit _ | .tree _ _ | .file _ _ => s.isRepoRegistered repoId
  | .operation T id => s.isRepoRegistered repoId → (Read.operation T id).Present repoId s
  | .view T id => s.isRepoRegistered repoId → (Read.view T id).Present repoId s

theorem reportsMissing_iff (J : JjLib) (B : JjBackend) (s : MemoryStore) (repoId : RepoId)
    (read : Read) (hbuiltIn : ¬ read.BuiltIn) :
    (read.ReportsMissing J B repoId s ↔
        s.isRepoRegistered repoId ∧ ¬ read.Present repoId s) ↔
      read.ToldApart repoId s := by
  cases read with
  | commit id =>
      rw [readCommit_reports_iff hbuiltIn, Read.ToldApart]
      tauto
  | tree path id =>
      rw [readTree_reports_iff hbuiltIn, Read.ToldApart]
      tauto
  | file D id =>
      rw [readFile_reports_iff, Read.ToldApart]
      tauto
  | operation T id =>
      have hnever : ¬ (Read.operation T id).ReportsMissing J B repoId s :=
        opStoreCall_ne_objectNotFound _
      rw [iff_false_left hnever, Read.ToldApart]
      tauto
  | view T id =>
      have hnever : ¬ (Read.view T id).ReportsMissing J B repoId s :=
        opStoreCall_ne_objectNotFound _
      rw [iff_false_left hnever, Read.ToldApart]
      tauto

/-- A commit that is missing from a registered repository. -/
theorem reportsMissing_iff_registered :
    (Read.commit [1]).ReportsMissing .reference .reference "repo"
        (MemoryStore.new.registerRepo "repo") ↔
      (MemoryStore.new.registerRepo "repo").isRepoRegistered "repo" ∧
        ¬ (Read.commit [1]).Present "repo" (MemoryStore.new.registerRepo "repo") :=
  (reportsMissing_iff .reference .reference (MemoryStore.new.registerRepo "repo") "repo"
    (.commit [1]) (by decide : ¬ [1] = rootCommitIdBytes)).mpr rfl

/--
A commit of a repository that the server does not know is reported as missing,
and an operation that is missing from a registered repository is not.
-/
theorem reportsMissing_fails :
    ¬ ((Read.commit [1]).ReportsMissing .reference .reference "repo" MemoryStore.new ↔
        MemoryStore.new.isRepoRegistered "repo" ∧
          ¬ (Read.commit [1]).Present "repo" MemoryStore.new) ∧
      ¬ ((Read.operation .direct [1]).ReportsMissing .reference .reference "repo"
            (MemoryStore.new.registerRepo "repo") ↔
          (MemoryStore.new.registerRepo "repo").isRepoRegistered "repo" ∧
            ¬ (Read.operation .direct [1]).Present "repo"
              (MemoryStore.new.registerRepo "repo")) := by
  constructor
  · intro h
    have hreports : (Read.commit [1]).ReportsMissing .reference .reference "repo"
        MemoryStore.new :=
      (readCommit_reports_iff (by decide)).mpr fun hpresent => nomatch hpresent.1
    exact nomatch (h.mp hreports).1
  · intro h
    have hmissing : ¬ (Read.operation .direct [1]).Present "repo"
        (MemoryStore.new.registerRepo "repo") := by
      unfold Read.Present
      decide
    exact opStoreCall_ne_objectNotFound _ (h.mpr ⟨rfl, hmissing⟩)

end CommitCloud.Client
