import CommitCloud.Client.Backend
import CommitCloud.Server.CommitIds

/-!
# Commits through the cloud

A commit goes through four forms: that of jj, the message, the message stored
under its hash, and that of jj again.  What is read is the commit with its
conflict labels in normal form.  The server has no hash for a commit that Git
cannot write, so the round trip depends on the two signatures.
-/

namespace CommitCloud.Client.Backend

open Foundation CommitCloud.Server

variable {P : Platform} {B : JjBackend} {repoId : RepoId} {commit : Jj.Commit}
  {signWith : Option SigningFn} {s : MemoryStore}

/-! ## Signatures that Git can write -/

/-- Without the characters that delimit the parts of a signature. -/
def PlainText (text : String) : Prop :=
  '<' ∉ text.toList ∧ '>' ∉ text.toList ∧ '\n' ∉ text.toList

instance (text : String) : Decidable (PlainText text) :=
  inferInstanceAs (Decidable (_ ∧ _ ∧ _))

/--
The offset in seconds is an `i32`, unless the build lets it wrap, and has at
most two digits of hours.
-/
structure Acceptable (P : Platform) (sig : Jj.Signature) : Prop where
  name : PlainText sig.name
  email : PlainText sig.email
  offset : ∃ offset, P.mulInt32 sig.timestamp.tzOffset 60 = some offset ∧
    offset.toInt.natAbs / 3600 ≤ 99

theorem plainText_iff {text : String} :
    PlainText text ↔ ∀ b ∈ utf8 text, Gix.illegalInSignature b = false := by
  have hbytes : PlainText text ↔
      60 ∉ utf8 text ∧ 62 ∉ utf8 text ∧ 10 ∉ utf8 text := by
    rw [PlainText, ← ascii_mem_utf8_iff (by decide), ← ascii_mem_utf8_iff (by decide),
      ← ascii_mem_utf8_iff (by decide)]
    rfl
  rw [hbytes]
  constructor
  · rintro ⟨hless, hgreater, hnewline⟩ b hb
    simp [Gix.illegalInSignature, ne_of_mem_of_not_mem hb hless,
      ne_of_mem_of_not_mem hb hgreater, ne_of_mem_of_not_mem hb hnewline]
  · intro h
    exact ⟨fun hmem => absurd (h _ hmem) (by decide),
      fun hmem => absurd (h _ hmem) (by decide),
      fun hmem => absurd (h _ hmem) (by decide)⟩

/-- The text put in place of an empty one is plain. -/
theorem plainText_placeholder_iff {text : String} :
    PlainText (if text.isEmpty then emptyStringPlaceholder else text) ↔
      PlainText text := by
  split
  next hempty =>
    rw [String.isEmpty_iff] at hempty
    subst hempty
    have hplaceholder : PlainText emptyStringPlaceholder := by decide
    have hnothing : PlainText "" := by decide
    exact iff_of_true hplaceholder hnothing
  next => rfl

theorem gitWritable_iff {sig : Jj.Signature} :
    GitWritable P (some (signatureToProto sig)) ↔ Acceptable P sig := by
  have hgit := signatureToGit_eq (P := P) (some (signatureToProto sig))
  constructor
  · rintro ⟨git, hsome, hname, hemail, hoffset⟩
    rw [hgit] at hsome
    obtain ⟨offset, hmul, rfl⟩ := Option.map_eq_some_iff.mp hsome
    exact {
      name := plainText_placeholder_iff.mp (plainText_iff.mpr hname)
      email := plainText_placeholder_iff.mp (plainText_iff.mpr hemail)
      offset := ⟨offset, hmul, hoffset⟩ }
  · rintro ⟨hname, hemail, offset, hmul, hoffset⟩
    refine ⟨_, hgit.trans (Option.map_eq_some_iff.mpr ⟨offset, hmul, rfl⟩), ?_, ?_,
      hoffset⟩
    · exact plainText_iff.mp (plainText_placeholder_iff.mpr hname)
    · exact plainText_iff.mp (plainText_placeholder_iff.mpr hemail)

/-- A commit has a hash exactly if Git can write its author and committer. -/
theorem commitHash_isSome_iff (hser : P.SerializesCommits) :
    (computeGitCommitHash P (commitToProto commit)).isSome ↔
      Acceptable P commit.author ∧ Acceptable P commit.committer := by
  rw [computeGitCommitHash, Option.isSome_map, commitBuffer_isSome_iff hser]
  exact and_congr gitWritable_iff gitWritable_iff

/-! ## The calls -/

/-- The message as the server stores it. -/
def storedCommit (commit : Jj.Commit) (id : CommitId) : Proto.Backend.Commit :=
  { commitToProto commit with commitId := id }

/-- A write returns the commit itself, stored under its hash. -/
theorem writeCommit_eq_ok_iff {id : CommitId} {commit' : Jj.Commit}
    {s' : MemoryStore} :
    writeCommit P repoId commit signWith s = (.ok (id, commit'), s') ↔
      s.isRepoRegistered repoId ∧
        computeGitCommitHash P (commitToProto commit) = some id ∧
        commit' = commit ∧ s' = s.putCommit repoId id (storedCommit commit id) := by
  have hhash : BackendService.commitIdOf P (commitToProto commit) =
      computeGitCommitHash P (commitToProto commit) := rfl
  simp only [writeCommit, rpc, remoteCall, BackendService.call_writeCommit, hhash]
  cases hreg : s.isRepoRegistered repoId with
  | false => simp [unregistered]
  | true =>
      cases hid : computeGitCommitHash P (commitToProto commit) with
      | none => simp
      | some id' =>
          simp only [if_true, Prod.mk.injEq, Except.ok.injEq, Option.some.injEq,
            true_and, storedCommit]
          constructor
          · rintro ⟨⟨rfl, rfl⟩, rfl⟩
            exact ⟨rfl, rfl, rfl⟩
          · rintro ⟨rfl, rfl, rfl⟩
            exact ⟨⟨rfl, rfl⟩, rfl⟩

/-- The commit as it is read back: unsigned, with normal labels. -/
def readBack (commit : Jj.Commit) : Jj.Commit :=
  { commit with
    conflictLabels := Jj.normalLabels commit.conflictLabels
    secureSig := none }

theorem commitFromProto_storedCommit (hterms : B.KeepsTerms)
    (hlabels : B.NormalizesLabels) (id : CommitId) :
    commitFromProto B (storedCommit commit id) = some (readBack commit) := by
  simp only [commitFromProto, storedCommit, commitToProto]
  rw [hterms, hlabels]
  rfl

theorem readCommit_eq {id : CommitId} {stored : Proto.Backend.Commit}
    (hreg : s.isRepoRegistered repoId) (hroot : id ≠ rootCommitIdBytes)
    (hstored : s.getCommit repoId id = some stored) :
    readCommit B repoId id s = (orPanic (commitFromProto B stored), s) := by
  simp only [readCommit, if_neg hroot, rpc, remoteCall, BackendService.call_readCommit, hreg,
    hstored, if_true]

/-! ## The round trip -/

/--
A write returns the commit, and a read of its id, if that is not the id of the
root commit, gives the commit with normal labels: the commit itself exactly if
its labels are normal.
-/
def CommitRoundTrips (P : Platform) (B : JjBackend) (repoId : RepoId)
    (commit : Jj.Commit) (signWith : Option SigningFn) (s : MemoryStore) : Prop :=
  ∃ id s', writeCommit P repoId commit signWith s = (.ok (id, commit), s') ∧
    (id ≠ rootCommitIdBytes → ∃ commit',
      readCommit B repoId id s' = (.ok commit', s') ∧
      commit' = { commit with
        conflictLabels := Jj.normalLabels commit.conflictLabels } ∧
      (commit' = commit ↔ Jj.Labeled commit.conflictLabels ∨
        commit.conflictLabels = .resolved ""))

/-- Unsigned commits make the round trip exactly if Git can write them. -/
theorem commitRoundTrips_iff (hser : P.SerializesCommits)
    (hterms : B.KeepsTerms) (hlabels : B.NormalizesLabels)
    (hreg : s.isRepoRegistered repoId) (hunsigned : commit.secureSig = none) :
    CommitRoundTrips P B repoId commit signWith s ↔
      Acceptable P commit.author ∧ Acceptable P commit.committer := by
  rw [← commitHash_isSome_iff hser, Option.isSome_iff_exists]
  constructor
  · rintro ⟨id, s', hwrite, -⟩
    exact ⟨id, (writeCommit_eq_ok_iff.mp hwrite).2.1⟩
  · rintro ⟨id, hhash⟩
    refine ⟨id, _, writeCommit_eq_ok_iff.mpr ⟨hreg, hhash, rfl, rfl⟩, fun hroot => ?_⟩
    have hstored : (s.putCommit repoId id (storedCommit commit id)).getCommit repoId
        id = some (storedCommit commit id) := Nested.lookup_put_self ..
    have hread : readBack commit = { commit with
        conflictLabels := Jj.normalLabels commit.conflictLabels } := by
      simp only [readBack, hunsigned]
    refine ⟨readBack commit, ?_, hread, ?_⟩
    · rw [readCommit_eq (s := s.putCommit repoId id (storedCommit commit id)) hreg
        hroot hstored,
        commitFromProto_storedCommit hterms hlabels]
      rfl
    · rw [← Jj.normalLabels_eq_self_iff, hread]
      constructor
      · exact congrArg Jj.Commit.conflictLabels
      · intro hnormal
        rw [hnormal]

/-- A conflicted commit without labels, by an author of the given name. -/
def conflictedCommit (name : String) : Jj.Commit where
  parents := [[1], [2]]
  predecessors := [[3]]
  rootTree := ⟨[[4], [5], [6]], rfl⟩
  conflictLabels := ⟨["", "", ""], rfl⟩
  changeId := [7]
  description := "merge"
  author := ⟨name, "", ⟨-1, 60⟩⟩
  committer := ⟨"", "", ⟨1, -60⟩⟩
  secureSig := none

theorem commitRoundTrips_conflicted :
    CommitRoundTrips .reference .reference "repo" (conflictedCommit "author") none
      (MemoryStore.new.registerRepo "repo") := by
  refine (commitRoundTrips_iff Platform.reference_serializesCommits
    JjBackend.reference_keepsTerms JjBackend.reference_normalizesLabels rfl
    rfl).mpr ⟨?_, ?_⟩
  · exact ⟨by decide, by decide, 3600, rfl, by decide⟩
  · exact ⟨by decide, by decide, -3600, rfl, by decide⟩

/-- The server panics on an author's name that Git cannot write. -/
theorem bracketedAuthor_not_roundTrips :
    ¬ CommitRoundTrips .reference .reference "repo" (conflictedCommit "<") none
      (MemoryStore.new.registerRepo "repo") := by
  rintro ⟨id, s', hwrite, -⟩
  have hhash := (writeCommit_eq_ok_iff.mp hwrite).2.1
  have haccepted := (commitHash_isSome_iff Platform.reference_serializesCommits).mp
    (Option.isSome_iff_exists.mpr ⟨id, hhash⟩)
  exact haccepted.1.name.1 (by decide)

end CommitCloud.Client.Backend
