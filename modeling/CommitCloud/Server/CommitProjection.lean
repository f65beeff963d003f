import CommitCloud.Server.WriteHandlers

/-!
# What a commit id determines

The part of a commit message that its hash is computed from, in the message's
own terms.  Two commits with plain signatures feed SHA-1 the same bytes exactly
if they agree on this part.
-/

namespace CommitCloud.Server

open Foundation CommitCloud.Proto.Backend
open CommitCloud.Client.Backend (PlainText)

variable {P : Platform} {sig sig' : Option Signature} {commit commit' : Commit}

/-! ## The Git projection -/

/-- Times are in whole seconds, rounded toward zero. -/
structure SignatureProjection where
  name : String
  email : String
  seconds : Int
  offsetMins : Int32
  deriving DecidableEq

/-- What a missing signature, a missing timestamp and empty texts stand for. -/
def signatureProjection (sig : Option Signature) : SignatureProjection :=
  let s := sig.getD {}
  let t := s.timestamp.getD {}
  { name := if s.name = "" then emptyStringPlaceholder else s.name
    email := if s.email = "" then emptyStringPlaceholder else s.email
    seconds := t.millisSinceEpoch.toInt.tdiv 1000
    offsetMins := t.tzOffset }

structure GitProjection where
  tree : TreeId
  parents : List CommitId
  author : SignatureProjection
  committer : SignatureProjection
  changeId : Bytes
  description : String
  deriving DecidableEq

/-- The first root tree; the empty one if there is none with the length of an id. -/
def firstTree : List TreeId → TreeId
  | [] => emptyTreeIdBytes
  | id :: _ => if id.length = 20 then id else emptyTreeIdBytes

def gitProjection (commit : Commit) : GitProjection where
  tree := firstTree commit.rootTreeId
  parents := commit.parentCommitIds.filter fun id =>
    id.length = 20 ∧ id ≠ rootCommitIdBytes
  author := signatureProjection commit.author
  committer := signatureProjection commit.committer
  changeId := commit.changeId
  description := commit.description

/-! ## The projection is what Git sees -/

theorem gitTree_bytes : (gitTree commit).bytes = firstTree commit.rootTreeId := by
  rw [gitTree]
  cases commit.rootTreeId with
  | nil => rfl
  | cons id rest =>
      rw [firstTree, List.head?_cons, Option.bind_some, Gix.ObjectId.tryFrom]
      split
      next h => rfl
      next h => rfl

theorem filterMap_tryFrom (ids : List Bytes) :
    (ids.filterMap Gix.ObjectId.tryFrom).map Gix.ObjectId.bytes =
      ids.filter fun id => id.length = 20 := by
  induction ids with
  | nil => rfl
  | cons id ids ih =>
      by_cases hid : id.length = 20
      · simp [Gix.ObjectId.tryFrom, hid, ih]
      · simp [Gix.ObjectId.tryFrom, hid, ih]

theorem gitParents_bytes :
    (gitParents commit).map Gix.ObjectId.bytes = (gitProjection commit).parents := by
  rw [gitParents, filterMap_tryFrom, List.filter_filter, gitProjection]
  simp

theorem toInt_div_thousand (millis : Int64) :
    (millis / 1000).toInt = millis.toInt.tdiv 1000 := by
  have hlow := millis.le_toInt
  have hhigh := millis.toInt_lt
  have hthousand : (1000 : Int64).toInt = 1000 := rfl
  have habs : (millis.toInt.tdiv 1000).natAbs = millis.toInt.natAbs / 1000 :=
    Int.natAbs_tdiv ..
  rw [Int64.toInt_div, hthousand]
  apply Int.bmod_eq_of_le_mul_two <;> omega

theorem signatureProjection_eq (sig : Option Signature) : signatureProjection sig =
    ⟨signatureName sig, signatureEmail sig, (signatureSeconds sig).toInt,
      signatureOffsetMins sig⟩ := by
  cases sig with
  | none => rfl
  | some s =>
      obtain ⟨name, email, timestamp⟩ := s
      cases timestamp with
      | none => simp [signatureProjection, signatureName, signatureEmail,
          signatureSeconds, signatureOffsetMins]
      | some t => simp only [signatureProjection, signatureName, signatureEmail,
          signatureSeconds, signatureOffsetMins, Option.getD_some, Option.elim_some,
          Option.bind_some, String.isEmpty_iff, toInt_div_thousand]

theorem signatureProjection_eq_iff :
    signatureProjection sig = signatureProjection sig' ↔
      signatureName sig = signatureName sig' ∧ signatureEmail sig = signatureEmail sig' ∧
      signatureSeconds sig = signatureSeconds sig' ∧
      signatureOffsetMins sig = signatureOffsetMins sig' := by
  simp only [signatureProjection_eq, SignatureProjection.mk.injEq, Int64.toInt_inj]

/-- Without overflow, all of the offset is written. -/
theorem sameSignature_iff (h : PlainSignature sig) (h' : PlainSignature sig') :
    SameSignature P sig sig' ↔ signatureProjection sig = signatureProjection sig' := by
  have hexact := exactOffset_of_lt h.offset
  have hexact' := exactOffset_of_lt h'.offset
  rw [signatureProjection_eq_iff]
  constructor
  · intro hsame
    exact ⟨hsame.name, hsame.email, hsame.seconds, hsame.offsetMins hexact hexact'⟩
  · rintro ⟨hname, hemail, hseconds, hoffset⟩
    refine ⟨hname, hemail, hseconds, ?_, fun _ _ => hoffset⟩
    rw [signatureToGit_eq, signatureToGit_eq, hoffset]
    simp only [Option.map_map, Function.comp_def, Gix.Time.offsetText,
      Gix.Time.offsetHours, Gix.Time.offsetMinutes]

structure PlainCommit (commit : Commit) : Prop where
  author : PlainSignature commit.author
  committer : PlainSignature commit.committer

theorem sameCommit_iff (h : PlainCommit commit) (h' : PlainCommit commit') :
    SameCommit P commit commit' ↔ gitProjection commit = gitProjection commit' := by
  have hbytes : Function.Injective Gix.ObjectId.bytes := fun _ _ => Gix.ObjectId.ext
  have htree : gitTree commit = gitTree commit' ↔
      firstTree commit.rootTreeId = firstTree commit'.rootTreeId := by
    rw [← gitTree_bytes, ← gitTree_bytes, hbytes.eq_iff]
  have hparents : gitParents commit = gitParents commit' ↔
      (gitProjection commit).parents = (gitProjection commit').parents := by
    rw [← gitParents_bytes, ← gitParents_bytes, hbytes.list_map.eq_iff]
  have hauthor := sameSignature_iff (P := P) h.author h'.author
  have hcommitter := sameSignature_iff (P := P) h.committer h'.committer
  constructor
  · intro hsame
    simp only [gitProjection, GitProjection.mk.injEq]
    exact ⟨htree.mp hsame.tree, hparents.mp hsame.parents, hauthor.mp hsame.author,
      hcommitter.mp hsame.committer, hsame.changeId, hsame.description⟩
  · intro hproj
    simp only [gitProjection, GitProjection.mk.injEq] at hproj
    obtain ⟨ht, hp, ha, hc, hchange, hdescription⟩ := hproj
    exact ⟨htree.mpr ht, hparents.mpr hp, hauthor.mpr ha, hcommitter.mpr hc, hchange,
      hdescription⟩

/-! ## The bytes that are hashed -/

/-- What `computeGitCommitHash` gives to SHA-1. -/
def commitHashInput (P : Platform) (commit : Commit) : Option Bytes :=
  (commitBuffer P commit).map (Gix.hashInput .commit)

/-- A commit with plain signatures is hashed, and as its Git projection. -/
theorem commitHashInput_eq_iff (hser : P.SerializesCommits) (h : PlainCommit commit)
    (h' : PlainCommit commit') :
    (commitHashInput P commit).isSome ∧
      (commitHashInput P commit = commitHashInput P commit' ↔
        gitProjection commit = gitProjection commit') := by
  obtain ⟨buf, hbuf⟩ := Option.isSome_iff_exists.mp
    (commitBuffer_isSome_of_plain hser h.author h.committer)
  obtain ⟨buf', hbuf'⟩ := Option.isSome_iff_exists.mp
    (commitBuffer_isSome_of_plain hser h'.author h'.committer)
  rw [commitHashInput, commitHashInput, hbuf, hbuf']
  refine ⟨rfl, ?_⟩
  rw [← sameCommit_iff (P := P) h h', ← commitBuffer_eq_iff hser hbuf hbuf',
    Option.map_some, Option.map_some, Option.some_inj,
    (Gix.hashInput_injective .commit).eq_iff]

def timedCommit (millis : Int64) (parents : List CommitId) : Commit where
  author := some { name := "author", timestamp := some ⟨millis, -90⟩ }
  parentCommitIds := parents

theorem plainCommit_timed (millis : Int64) (parents : List CommitId) :
    PlainCommit (timedCommit millis parents) where
  author := {
    name := by
      intro sig hsig
      obtain rfl := Option.some.inj hsig
      exact (by decide : PlainText "author")
    email := by
      intro sig hsig
      obtain rfl := Option.some.inj hsig
      exact (by decide : PlainText "")
    offset := (by decide : (-90 : Int32).toInt.natAbs < 6000) }
  committer := {
    name := nofun
    email := nofun
    offset := (by decide : (0 : Int32).toInt.natAbs < 6000) }

theorem commitHashInput_eq_iff_timed :
    (commitHashInput .reference (timedCommit (-1500) [])).isSome ∧
      (commitHashInput .reference (timedCommit (-1500) []) =
          commitHashInput .reference (timedCommit (-1999) [rootCommitIdBytes]) ↔
        gitProjection (timedCommit (-1500) []) =
          gitProjection (timedCommit (-1999) [rootCommitIdBytes])) :=
  commitHashInput_eq_iff Platform.reference_serializesCommits (plainCommit_timed _ _)
    (plainCommit_timed _ _)

end CommitCloud.Server
