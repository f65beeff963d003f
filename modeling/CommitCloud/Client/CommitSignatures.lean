import CommitCloud.Client.CommitRoundTrip
import CommitCloud.Server.ContentAddress

/-!
# Signatures of commits

The encoder puts a commit's signature into the message and the server stores
it, but the decoder does not read it and a signing function is never called.
So every commit is unsigned when it is read, and a signature is lost whenever
there is one and the commit is written.
-/

namespace CommitCloud.Client.Backend

open Foundation CommitCloud.Server

variable {P : Platform} {B : JjBackend} {repoId : RepoId} {commit : Jj.Commit}
  {signWith : Option SigningFn} {signedData : Bytes} {s : MemoryStore}

/--
The signature a written commit should have: what the signing function, if one
is passed, returns for the data that is signed, else the commit's own.
-/
def signatureToKeep (commit : Jj.Commit) (signWith : Option SigningFn)
    (signedData : Bytes) : Option Bytes :=
  match signWith with
  | some sign => sign signedData
  | none => commit.secureSig.map (·.sig)

def Carries (commit : Jj.Commit) (sig : Bytes) : Prop :=
  commit.secureSig.map (·.sig) = some sig

/--
The commit that a write returns carries the signature, and so does whatever is
read under its id while nothing else is written there.
-/
def KeepsSignature (P : Platform) (B : JjBackend) (repoId : RepoId)
    (commit : Jj.Commit) (signWith : Option SigningFn) (signedData : Bytes)
    (s : MemoryStore) : Prop :=
  ∀ sig, signatureToKeep commit signWith signedData = some sig →
    ∀ id commit' s', writeCommit P repoId commit signWith s = (.ok (id, commit'), s') →
      Carries commit' sig ∧
        ∀ between, (∀ stored,
          ¬ Written WroteCommit ((server P).trace s' between) (repoId, id) stored) →
        ∀ read, (readCommit B repoId id ((server P).finalState s' between)).1 =
          .ok read → Carries read sig

/-! ## Reads are unsigned -/

theorem commitFromProto_unsigned {proto : Proto.Backend.Commit}
    (h : commitFromProto B proto = some commit) : commit.secureSig = none := by
  obtain ⟨rootTree, -, h⟩ := Option.bind_eq_some_iff.mp h
  obtain ⟨labels, -, h⟩ := Option.bind_eq_some_iff.mp h
  obtain rfl := Option.some.inj h
  rfl

theorem readCommit_unsigned (hroot : B.RootIsUnsigned) {id : CommitId}
    (h : (readCommit B repoId id s).1 = .ok commit) : commit.secureSig = none := by
  unfold readCommit at h
  split at h
  next =>
    obtain rfl := Except.ok.inj h
    exact hroot _ _
  next =>
    unfold rpc remoteCall at h
    split at h
    next response _ _ =>
      cases hproto : response.commit with
      | none => simp [hproto, fail] at h
      | some proto =>
          simp only [hproto] at h
          exact commitFromProto_unsigned (orPanic_eq_ok_iff.mp h)
    next => cases h

/-- What was just written can be read. -/
theorem readCommit_putCommit (hterms : B.KeepsTerms)
    (hlabels : B.NormalizesLabels) (hreg : s.isRepoRegistered repoId)
    (commit : Jj.Commit) (id : CommitId) : ∃ read, (readCommit B repoId id
      (s.putCommit repoId id (storedCommit commit id))).1 = .ok read := by
  by_cases hroot : id = rootCommitIdBytes
  · exact ⟨_, by rw [readCommit, if_pos hroot]⟩
  · refine ⟨readBack commit, ?_⟩
    rw [readCommit_eq (s := s.putCommit repoId id (storedCommit commit id)) hreg
      hroot (Nested.lookup_put_self ..), commitFromProto_storedCommit hterms hlabels]
    rfl

/-- The signature of a commit that is written is lost. -/
theorem not_keepsSignature_of_written (hterms : B.KeepsTerms)
    (hlabels : B.NormalizesLabels) (hroot : B.RootIsUnsigned)
    (hreg : s.isRepoRegistered repoId) {sig : Bytes}
    (hsig : signatureToKeep commit signWith signedData = some sig) {id : CommitId}
    (hhash : computeGitCommitHash P (commitToProto commit) = some id) :
    ¬ KeepsSignature P B repoId commit signWith signedData s := by
  intro hkeeps
  obtain ⟨-, hreads⟩ := hkeeps sig hsig id commit _
    (writeCommit_eq_ok_iff.mpr ⟨hreg, hhash, rfl, rfl⟩)
  obtain ⟨read, hread⟩ := readCommit_putCommit hterms hlabels hreg commit id
  have hcarries := hreads [] (by rintro stored ⟨call, hmem, -⟩; cases hmem) read hread
  rw [Carries, readCommit_unsigned hroot hread] at hcarries
  cases hcarries

/-- A signature is kept exactly if there is none or nothing is written. -/
theorem keepsSignature_iff (hser : P.SerializesCommits)
    (hterms : B.KeepsTerms) (hlabels : B.NormalizesLabels)
    (hroot : B.RootIsUnsigned) :
    KeepsSignature P B repoId commit signWith signedData s ↔
      signatureToKeep commit signWith signedData = none ∨
        ¬ (s.isRepoRegistered repoId ∧ Acceptable P commit.author ∧
          Acceptable P commit.committer) := by
  rw [← commitHash_isSome_iff hser, Option.isSome_iff_exists]
  constructor
  · intro hkeeps
    cases hsig : signatureToKeep commit signWith signedData with
    | none => exact .inl rfl
    | some sig =>
        refine .inr fun ⟨hreg, id, hhash⟩ => ?_
        exact not_keepsSignature_of_written hterms hlabels hroot hreg hsig hhash
          hkeeps
  · rintro (hnone | hrejected) sig hsig id commit' s' hwrite
    · rw [hnone] at hsig
      cases hsig
    · obtain ⟨hreg, hhash, -, -⟩ := writeCommit_eq_ok_iff.mp hwrite
      exact absurd ⟨hreg, id, hhash⟩ hrejected

/-- A commit signed with one byte. -/
def signedCommit : Jj.Commit :=
  { conflictedCommit "author" with secureSig := some ⟨[], [1]⟩ }

theorem keepsSignature_unsigned :
    KeepsSignature .reference .reference "repo" (conflictedCommit "author") none []
      (MemoryStore.new.registerRepo "repo") :=
  (keepsSignature_iff Platform.reference_serializesCommits
    JjBackend.reference_keepsTerms JjBackend.reference_normalizesLabels
    JjBackend.reference_rootIsUnsigned).mpr (.inl rfl)

/-- The signed commit reads back unsigned. -/
theorem signedCommit_not_keepsSignature :
    ¬ KeepsSignature .reference .reference "repo" signedCommit none []
      (MemoryStore.new.registerRepo "repo") := by
  intro hkeeps
  have haccepted : Acceptable .reference signedCommit.author ∧
      Acceptable .reference signedCommit.committer :=
    ⟨⟨by decide, by decide, 3600, rfl, by decide⟩,
      ⟨by decide, by decide, -3600, rfl, by decide⟩⟩
  obtain ⟨id, hhash⟩ := Option.isSome_iff_exists.mp
    ((commitHash_isSome_iff Platform.reference_serializesCommits).mpr haccepted)
  exact (not_keepsSignature_of_written JjBackend.reference_keepsTerms
    JjBackend.reference_normalizesLabels JjBackend.reference_rootIsUnsigned rfl rfl
    hhash) hkeeps

end CommitCloud.Client.Backend
