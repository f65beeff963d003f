import CommitCloud.Client.ReadErrors
import CommitCloud.Client.WriteBack

/-!
# Resolving prefixes of operation ids

The client compares a prefix with the id of the root operation and asks the
server for no other.  What the server stores of a repository are the operations
whose ids it returned, so the answer can be checked against its store.
-/

namespace CommitCloud.Client

open Foundation CommitCloud.Server OpStore

variable {J : JjLib} {P : Platform} {B : JjBackend} {X : JjPrefix} {repoId : RepoId}
  {id : OpId} {s : MemoryStore} {calls : List (Call J)}

def resolveOperationIdPrefix (X : JjPrefix) (hexPrefix : X.HexPrefix) :
    Except OpStoreError (Jj.PrefixResolution OpId) :=
  if X.matchesId hexPrefix rootOperationIdBytes then
    .ok (.singleMatch rootOperationIdBytes)
  else .ok .noMatch

/-! ## Prefixes of the root id -/

theorem hex_replicate_zero (n : Nat) :
    hex (List.replicate n 0) = List.replicate (2 * n) 48 := by
  induction n with
  | zero => rfl
  | succ n ih =>
      rw [List.replicate_succ, hex, ih, Nat.mul_succ, List.replicate_succ,
        List.replicate_succ]
      rfl

/-- The root operation is found by its zeros, as many of them as are given. -/
theorem matchesId_root_iff (hmatches : X.MatchesDigits) {hexPrefix : X.HexPrefix} :
    X.matchesId hexPrefix rootOperationIdBytes ↔
      ∃ n ≤ 2 * operationIdLength, X.digits hexPrefix = List.replicate n 48 := by
  rw [hmatches, rootOperationIdBytes, hex_replicate_zero, List.prefix_replicate_iff]
  constructor
  · rintro ⟨hlength, hdigits⟩
    exact ⟨_, hlength, hdigits⟩
  · rintro ⟨n, hn, hdigits⟩
    rw [hdigits, List.length_replicate]
    exact ⟨hn, rfl⟩

theorem resolve_eq_singleMatch_iff {hexPrefix : X.HexPrefix} :
    resolveOperationIdPrefix X hexPrefix = .ok (.singleMatch id) ↔
      X.matchesId hexPrefix rootOperationIdBytes ∧ id = rootOperationIdBytes := by
  unfold resolveOperationIdPrefix
  split
  next h => simp [h, eq_comm]
  next h => simp [h]

/-! ## Operations of a repository -/

/-- A client was told that it wrote an operation under the id. -/
def ReturnedOperation (J : JjLib) (P : Platform) (B : JjBackend) (calls : List (Call J))
    (repoId : RepoId) (id : OpId) : Prop :=
  ∃ T contents, (.writeOperation T repoId contents, .writeOperation (.ok id)) ∈
    (clients J P B).trace MemoryStore.new calls

/-- The server stores the operations that clients were told to have written. -/
theorem storedOperation_iff_returned :
    (∃ op, ((clients J P B).finalState MemoryStore.new calls).getOperation repoId id =
        some op) ↔ ReturnedOperation J P B calls repoId id := by
  constructor
  · rintro ⟨op, hstored⟩
    obtain ⟨call, req, s, hcall, hmade, hwrote⟩ :=
      sent_of_stored filled_ops (fun _ => rfl) (repoId, id) hstored
    obtain ⟨rfl, hreg, hid, -⟩ := (server_step P s req).wroteOperation hwrote
    cases call with
    | writeOperation T repoId' contents =>
        simp only [Call.request, Option.some.injEq, Request.writeOperation.injEq,
          Proto.OpStore.WriteOperationRequest.mk.injEq] at hcall
        obtain ⟨rfl, rfl⟩ := hcall
        have hanswer := writeOperation_eq (P := P) (T := T) hreg contents
        simp only [clients, hanswer, Prod.map_fst, hid] at hmade
        exact ⟨T, contents, hmade⟩
    | _ => simp [Call.request] at hcall
  · rintro ⟨T, contents, hmade⟩
    exact (writtenOperation_stored hmade).2

/-! ## Resolution -/

/--
An answer that names one operation names one with the prefix, and no other
operation that can be read in the repository has it.
-/
def ResolvesSoundly (X : JjPrefix) (J : JjLib) (P : Platform) (B : JjBackend)
    (calls : List (Call J)) (repoId : RepoId) (hexPrefix : X.HexPrefix) : Prop :=
  ∀ id, resolveOperationIdPrefix X hexPrefix = .ok (.singleMatch id) →
    X.digits hexPrefix <+: hex id ∧
      ∀ other, other = rootOperationIdBytes ∨ ReturnedOperation J P B calls repoId other →
        X.digits hexPrefix <+: hex other → other = id

/--
A prefix is resolved soundly exactly if it is no run of zeros, a longer one than
the root id has, or a run with which no other stored operation's id begins.
-/
theorem resolvesSoundly_iff (hmatches : X.MatchesDigits) (calls : List (Call J))
    (repoId : RepoId) (hexPrefix : X.HexPrefix) :
    ResolvesSoundly X J P B calls repoId hexPrefix ↔
      ∀ n ≤ 2 * operationIdLength, X.digits hexPrefix = List.replicate n 48 →
        ∀ id op, ((clients J P B).finalState MemoryStore.new calls).getOperation repoId id =
          some op → List.replicate n 48 <+: hex id → id = rootOperationIdBytes := by
  constructor
  · intro hsound n hn hdigits id op hstored hzeros
    have hroot := (matchesId_root_iff hmatches).mpr ⟨n, hn, hdigits⟩
    obtain ⟨-, hother⟩ := hsound _ (resolve_eq_singleMatch_iff.mpr ⟨hroot, rfl⟩)
    exact hother id (.inr (storedOperation_iff_returned.mp ⟨op, hstored⟩))
      (hdigits ▸ hzeros)
  · intro hstored id hresolved
    obtain ⟨hroot, rfl⟩ := resolve_eq_singleMatch_iff.mp hresolved
    refine ⟨(hmatches _ _).mp hroot, ?_⟩
    rintro other (rfl | hreturned) hprefixed
    · rfl
    · obtain ⟨n, hn, hdigits⟩ := (matchesId_root_iff hmatches).mp hroot
      obtain ⟨op, hop⟩ := storedOperation_iff_returned.mpr hreturned
      exact hstored n hn hdigits other op hop (hdigits ▸ hprefixed)

/-- One operation is written to a new repository. -/
def writtenOnce (op : Jj.Operation) : List (Call .reference) :=
  [.init "repo", .writeOperation .direct "repo" op]

theorem writtenOnce_finalState (op : Jj.Operation) :
    let message := operationToProto op
    (clients .reference .reference .reference).finalState MemoryStore.new (writtenOnce op) =
      (MemoryStore.new.registerRepo "repo").putOperation "repo"
        (hashOperation .reference message) message := rfl

theorem returned_writtenOnce (op : Jj.Operation) :
    ReturnedOperation .reference .reference .reference (writtenOnce op) "repo"
      (hashOperation .reference (operationToProto op)) :=
  ⟨.direct, op, List.mem_cons_of_mem _ List.mem_cons_self⟩

/-- The id of the operation that was written begins with another digit. -/
theorem resolvesSoundly_iff_writtenOnce :
    ResolvesSoundly .reference .reference .reference .reference
      (writtenOnce easternOperation) "repo" [0] := by
  refine (resolvesSoundly_iff JjPrefix.reference_matchesDigits _ "repo" [0]).mpr ?_
  intro n _ hdigits id op hstored hzeros
  rw [writtenOnce_finalState, MemoryStore.getOperation, MemoryStore.putOperation,
    Nested.lookup_put] at hstored
  split at hstored
  next hid =>
    obtain ⟨-, rfl⟩ := hid
    have hother : ¬ JjPrefix.reference.digits [0] <+:
        hex (hashOperation .reference (operationToProto easternOperation)) := by
      decide +kernel
    exact absurd (hdigits ▸ hzeros) hother
  next => cases hstored

def simplifiedParents : Jj.Operation :=
  { easternOperation with
    metadata := { easternOperation.metadata with description := "simplify parents" } }

/-- The one digit `0` is said to be the root operation, and is also another one. -/
theorem simplifiedParents_ambiguous :
    ¬ ResolvesSoundly .reference .reference .reference .reference
      (writtenOnce simplifiedParents) "repo" [0] := by
  intro hsound
  have hroot : JjPrefix.reference.matchesId [0] rootOperationIdBytes := by decide
  obtain ⟨-, hother⟩ := hsound _ (resolve_eq_singleMatch_iff.mpr ⟨hroot, rfl⟩)
  have hreturned := returned_writtenOnce simplifiedParents
  have hzero : JjPrefix.reference.digits [0] <+:
      hex (hashOperation .reference (operationToProto simplifiedParents)) := by
    decide +kernel
  have hne : hashOperation .reference (operationToProto simplifiedParents) ≠
      rootOperationIdBytes := by
    decide +kernel
  exact hne (hother _ (.inr hreturned) hzero)

end CommitCloud.Client
