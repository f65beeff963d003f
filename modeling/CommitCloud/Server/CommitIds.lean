import CommitCloud.Gix.Decoding
import CommitCloud.Server.ContentAddress

/-!
# Commit ids

A commit's id is the hash of the Git commit made from it.  So the id identifies
the commit as far as Git has room for it: `SameCommit` lists what two commits
with one id have in common.
-/

namespace CommitCloud.Server

open Foundation CommitCloud.Proto.Backend

variable {P : Platform}

/-! ## What Git sees of a commit -/

def signatureName (sig : Option Signature) : String :=
  sig.elim emptyStringPlaceholder fun s =>
    if s.name.isEmpty then emptyStringPlaceholder else s.name

def signatureEmail (sig : Option Signature) : String :=
  sig.elim emptyStringPlaceholder fun s =>
    if s.email.isEmpty then emptyStringPlaceholder else s.email

def signatureSeconds (sig : Option Signature) : Int64 :=
  (sig.bind (·.timestamp)).elim 0 fun t => t.millisSinceEpoch / 1000

def signatureOffsetMins (sig : Option Signature) : Int32 :=
  (sig.bind (·.timestamp)).elim 0 (·.tzOffset)

theorem signatureToGit_eq (sig : Option Signature) :
    signatureToGit P sig =
      (P.mulInt32 (signatureOffsetMins sig) 60).map fun offset =>
        { name := utf8 (signatureName sig)
          email := utf8 (signatureEmail sig)
          time := ⟨signatureSeconds sig, offset⟩ } := by
  rw [Option.map_eq_bind]
  cases sig with
  | none => rfl
  | some s =>
      obtain ⟨name, email, timestamp⟩ := s
      cases timestamp <;> rfl

/-- The offset in seconds is not cut down to 32 bits. -/
def ExactOffset (sig : Option Signature) : Prop :=
  (signatureOffsetMins sig * 60).toInt = (signatureOffsetMins sig).toInt * 60

/--
Signatures that are the same to Git: of the time only seconds are seen, of the
offset what is written of it, which is all of it unless it overflows.
-/
structure SameSignature (P : Platform) (sig sig' : Option Signature) : Prop where
  name : signatureName sig = signatureName sig'
  email : signatureEmail sig = signatureEmail sig'
  seconds : signatureSeconds sig = signatureSeconds sig'
  offset : (signatureToGit P sig).map (·.time.offsetText) =
    (signatureToGit P sig').map (·.time.offsetText)
  offsetMins : ExactOffset sig → ExactOffset sig' →
    signatureOffsetMins sig = signatureOffsetMins sig'

structure SameCommit (P : Platform) (commit commit' : Commit) : Prop where
  tree : gitTree commit = gitTree commit'
  parents : gitParents commit = gitParents commit'
  author : SameSignature P commit.author commit'.author
  committer : SameSignature P commit.committer commit'.committer
  changeId : commit.changeId = commit'.changeId
  description : commit.description = commit'.description

theorem mulInt32_eq_some {x y product : Int32}
    (h : P.mulInt32 x y = some product) : product = x * y := by
  unfold Platform.mulInt32 at h
  split at h
  · cases h
  · exact (Option.some.inj h).symm

theorem sameText_iff_sameSignature {sig sig' : Option Signature}
    {git git' : Gix.Signature} (hgit : signatureToGit P sig = some git)
    (hgit' : signatureToGit P sig' = some git') (hwritable : git.Writable)
    (hwritable' : git'.Writable) :
    git.SameText git' ↔ SameSignature P sig sig' := by
  have hoffset : (signatureToGit P sig).map (·.time.offsetText) =
      (signatureToGit P sig').map (·.time.offsetText) ↔
        git.time.offsetText = git'.time.offsetText := by
    simp [hgit, hgit']
  rw [signatureToGit_eq] at hgit hgit'
  obtain ⟨offset, hmul, rfl⟩ := Option.map_eq_some_iff.mp hgit
  obtain ⟨offset', hmul', rfl⟩ := Option.map_eq_some_iff.mp hgit'
  obtain rfl := mulInt32_eq_some hmul
  obtain rfl := mulInt32_eq_some hmul'
  constructor
  · rintro ⟨hname, hemail, hseconds, htext⟩
    exact {
      name := utf8_injective hname
      email := utf8_injective hemail
      seconds := hseconds
      offset := hoffset.mpr htext
      offsetMins := fun hexact hexact' => by
        refine Gix.Time.offset_eq_of_offsetText ?_ ?_ hwritable.2.2
          hwritable'.2.2 htext
        · exact hexact
        · exact hexact' }
  · rintro ⟨hname, hemail, hseconds, htext, -⟩
    exact ⟨congrArg utf8 hname, congrArg utf8 hemail, hseconds, hoffset.mp htext⟩

theorem gitExtraHeaders_inj {commit commit' : Commit}
    (h : gitExtraHeaders commit = gitExtraHeaders commit') :
    commit.changeId = commit'.changeId := by
  unfold gitExtraHeaders at h
  split at h
  next hempty =>
    split at h
    next hempty' =>
      rw [List.isEmpty_iff.mp hempty, List.isEmpty_iff.mp hempty']
    next => cases h
  next =>
    split at h
    next => cases h
    next =>
      have hvalue := (Prod.ext_iff.mp (List.cons.inj h).1).2
      exact List.reverse_injective (hex_injective hvalue)

theorem plain_gitExtraHeaders (commit : Commit) :
    ∀ line ∈ gitExtraHeaders commit, Gix.PlainLine line := by
  intro line hline
  unfold gitExtraHeaders at hline
  split at hline
  · cases hline
  · obtain rfl := List.mem_singleton.mp hline
    have hname : Gix.PlainName (utf8 "change-id") := by decide
    exact ⟨hname, fun hmem => absurd (hex_ge hmem) (by decide)⟩

/-! ## Buffers -/

theorem commitBuffer_eq_some (hser : P.SerializesCommits) {commit : Commit}
    {buf : Bytes} (h : commitBuffer P commit = some buf) :
    ∃ git author committer, signatureToGit P commit.author = some author ∧
      signatureToGit P commit.committer = some committer ∧
      git = Gix.Commit.mk (gitTree commit) (gitParents commit) author committer
        none (gitExtraHeaders commit) (utf8 commit.description) ∧
      git.Plain ∧ buf = git.serialize := by
  obtain ⟨git, hgit, hwrite⟩ := Option.bind_eq_some_iff.mp h
  obtain ⟨author, hauthor, hgit⟩ := Option.bind_eq_some_iff.mp hgit
  obtain ⟨committer, hcommitter, hgit⟩ := Option.bind_eq_some_iff.mp hgit
  obtain rfl := Option.some.inj hgit
  have hplain := plain_gitExtraHeaders commit
  rw [hser _ fun line hline => (hplain line hline).value] at hwrite
  split at hwrite
  next hwritable =>
    exact ⟨_, author, committer, hauthor, hcommitter, rfl,
      ⟨rfl, hwritable.1, hwritable.2, hplain⟩, (Option.some.inj hwrite).symm⟩
  next => cases hwrite

/-- Git can write the signature. -/
def GitWritable (P : Platform) (sig : Option Signature) : Prop :=
  ∃ git, signatureToGit P sig = some git ∧ git.Writable

/-- A commit is serialized exactly if both its signatures can be written. -/
theorem commitBuffer_isSome_iff (hser : P.SerializesCommits) {commit : Commit} :
    (commitBuffer P commit).isSome ↔
      GitWritable P commit.author ∧ GitWritable P commit.committer := by
  constructor
  · intro h
    obtain ⟨buf, hbuf⟩ := Option.isSome_iff_exists.mp h
    obtain ⟨git, author, committer, hauthor, hcommitter, rfl, hplain, -⟩ :=
      commitBuffer_eq_some hser hbuf
    exact ⟨⟨author, hauthor, hplain.author⟩, ⟨committer, hcommitter, hplain.committer⟩⟩
  · rintro ⟨⟨author, hauthor, hwritable⟩, ⟨committer, hcommitter, hwritable'⟩⟩
    have hgit : gitCommit P commit = some (Gix.Commit.mk (gitTree commit)
        (gitParents commit) author committer none (gitExtraHeaders commit)
        (utf8 commit.description)) := by
      simp [gitCommit, hauthor, hcommitter]
    rw [commitBuffer, hgit, Option.bind_some,
      hser _ fun line hline => (plain_gitExtraHeaders commit line hline).value,
      if_pos ⟨hwritable, hwritable'⟩]
    rfl

theorem commitBuffer_eq_iff (hser : P.SerializesCommits)
    {commit commit' : Commit} {buf buf' : Bytes}
    (h : commitBuffer P commit = some buf)
    (h' : commitBuffer P commit' = some buf') :
    buf = buf' ↔ SameCommit P commit commit' := by
  obtain ⟨git, author, committer, hauthor, hcommitter, hgit, hplain, rfl⟩ :=
    commitBuffer_eq_some hser h
  obtain ⟨git', author', committer', hauthor', hcommitter', hgit', hplain', rfl⟩ :=
    commitBuffer_eq_some hser h'
  rw [Gix.Commit.serialize_eq_iff hplain hplain']
  subst hgit hgit'
  have hauthors := sameText_iff_sameSignature hauthor hauthor' hplain.author
    hplain'.author
  have hcommitters := sameText_iff_sameSignature hcommitter hcommitter'
    hplain.committer hplain'.committer
  constructor
  · rintro ⟨htree, hparents, hauthor, hcommitter, hextra, hmessage⟩
    exact ⟨htree, hparents, hauthors.mp hauthor, hcommitters.mp hcommitter,
      gitExtraHeaders_inj hextra, utf8_injective hmessage⟩
  · rintro ⟨htree, hparents, hauthor, hcommitter, hchange, hdescription⟩
    refine ⟨htree, hparents, hauthors.mpr hauthor, hcommitters.mpr hcommitter,
      ?_, congrArg utf8 hdescription⟩
    simp only [gitExtraHeaders, hchange]

/-! ## Commits of a run -/

variable {requests : List Request}

def ReturnedCommitId (P : Platform) (requests : List Request) (repoId : RepoId)
    (commit : Commit) (id : CommitId) : Prop :=
  (.writeCommit ⟨repoId, some commit⟩, .ok (.writeCommit ⟨id⟩)) ∈
    (server P).trace MemoryStore.new requests

def commitBuffers (P : Platform) (requests : List Request) : Set Bytes :=
  { buf | ∃ repoId commit, .writeCommit ⟨repoId, some commit⟩ ∈ requests ∧
    commit.commitId = [] ∧ commitBuffer P commit = some buf }

/--
Two commits whose ids the server computed have one id exactly if they are the
same to Git.  Such a commit replaces a stored one only if that is the same to
Git as well, or was stored under an id its request named.
-/
structure CommitIdsIdentify (P : Platform) (requests : List Request) : Prop where
  unique : ∀ repoId id id' commit commit',
    commit.commitId = [] → commit'.commitId = [] →
    ReturnedCommitId P requests repoId commit id →
    ReturnedCommitId P requests repoId commit' id' →
    (id = id' ↔ SameCommit P commit commit')
  notReplaced : ∀ before repoId commit id old, commit.commitId = [] →
    before ++ [.writeCommit ⟨repoId, some commit⟩] <+: requests →
    (server P ((server P).finalState MemoryStore.new before)
      (.writeCommit ⟨repoId, some commit⟩)).1 = .ok (.writeCommit ⟨id⟩) →
    ((server P).finalState MemoryStore.new before).getCommit repoId id =
      some old →
    SameCommit P old commit ∨
      old.commitId ≠ [] ∧ .writeCommit ⟨repoId, some old⟩ ∈ before

theorem ReturnedCommitId.commitIdOf {repoId : RepoId} {commit : Commit}
    {id : CommitId} (h : ReturnedCommitId P requests repoId commit id) :
    .writeCommit ⟨repoId, some commit⟩ ∈ requests ∧
      BackendService.commitIdOf P commit = some id := by
  obtain ⟨before, after, rfl, hanswer⟩ := (server P).mem_trace_iff.mp h
  have hstep := server_step P ((server P).finalState MemoryStore.new before)
    (.writeCommit ⟨repoId, some commit⟩)
  rw [hanswer] at hstep
  obtain ⟨commit', heq, -, hid, -, -⟩ := hstep.wroteCommit (.mk repoId commit id)
  cases heq
  exact ⟨by simp, hid⟩

theorem Accepted.returnedCommitId {repoId : RepoId} {commit : Commit}
    {id : CommitId}
    (h : Accepted P requests repoId (.writeCommit ⟨repoId, some commit⟩))
    (hid : BackendService.commitIdOf P commit = some id) :
    ReturnedCommitId P requests repoId commit id := by
  obtain ⟨before, ⟨after, rfl⟩, hreg⟩ := h
  refine (server P).mem_trace_iff.mpr ⟨before, after, by simp, ?_⟩
  simp [server, handle, BackendService.call_writeCommit, hreg, hid]

/-- What a run stores of commits are the accepted ones, under the ids they get. -/
theorem writtenCommit_iff {repoId : RepoId} {id : CommitId} {stored : Commit} :
    Written WroteCommit ((server P).trace MemoryStore.new requests) (repoId, id)
        stored ↔
      ∃ commit, Accepted P requests repoId (.writeCommit ⟨repoId, some commit⟩) ∧
        BackendService.commitIdOf P commit = some id ∧
        stored = { commit with commitId := id } := by
  constructor
  · intro h
    obtain ⟨before, req, hinitial, hwrote⟩ := written_iff.mp h
    obtain ⟨commit, rfl, hreg, hid, rfl, -⟩ := (server_step P _ _).wroteCommit hwrote
    exact ⟨commit, ⟨before, hinitial, hreg⟩, hid, rfl⟩
  · rintro ⟨commit, haccepted, hid, rfl⟩
    exact ⟨_, haccepted.returnedCommitId hid, .mk repoId commit id⟩

theorem commitIdOf_of_commitBuffer {commit : Commit} {buf : Bytes}
    (hempty : commit.commitId = []) (hbuf : commitBuffer P commit = some buf) :
    BackendService.commitIdOf P commit =
      some (P.computeHash .commit buf).bytes := by
  rw [BackendService.commitIdOf, hempty, List.isEmpty_nil, if_pos rfl,
    computeGitCommitHash, hbuf, Option.map_some]

theorem ReturnedCommitId.hashed {repoId : RepoId} {commit : Commit}
    {id : CommitId} (h : ReturnedCommitId P requests repoId commit id)
    (hempty : commit.commitId = []) :
    ∃ buf ∈ commitBuffers P requests, commitBuffer P commit = some buf ∧
      (P.computeHash .commit buf).bytes = id := by
  obtain ⟨hmem, hid⟩ := h.commitIdOf
  rw [BackendService.commitIdOf, hempty, List.isEmpty_nil, if_pos rfl] at hid
  obtain ⟨buf, hbuf, hid⟩ := Option.map_eq_some_iff.mp hid
  exact ⟨buf, ⟨repoId, commit, hmem, hempty, hbuf⟩, hbuf, hid⟩

theorem id_eq_iff_sameCommit (hser : P.SerializesCommits)
    (hsha : P.Sha1InjOn .commit (commitBuffers P requests)) {repoId : RepoId}
    {id id' : CommitId} {commit commit' : Commit}
    (hempty : commit.commitId = []) (hempty' : commit'.commitId = [])
    (h : ReturnedCommitId P requests repoId commit id)
    (h' : ReturnedCommitId P requests repoId commit' id') :
    id = id' ↔ SameCommit P commit commit' := by
  obtain ⟨buf, hgiven, hbuf, rfl⟩ := h.hashed hempty
  obtain ⟨buf', hgiven', hbuf', rfl⟩ := h'.hashed hempty'
  rw [Platform.computeHash_eq_iff hsha hgiven hgiven',
    commitBuffer_eq_iff hser hbuf hbuf']

/-- Commit ids identify commits as far as Git sees them. -/
theorem commitIds_identify (hser : P.SerializesCommits)
    (hsha : P.Sha1InjOn .commit (commitBuffers P requests)) :
    CommitIdsIdentify P requests where
  unique repoId id id' commit commit' hempty hempty' h h' :=
    id_eq_iff_sameCommit hser hsha hempty hempty' h h'
  notReplaced before repoId commit id old hempty hinitial hanswer hold := by
    have hbefore : before <+: requests :=
      (List.prefix_append before _).trans hinitial
    have hreturned : ReturnedCommitId P requests repoId commit id := by
      obtain ⟨after, rfl⟩ := hinitial
      exact (server P).mem_trace_iff.mpr ⟨before, after, by simp, hanswer⟩
    obtain ⟨⟨req, answer⟩, hmem, hwrote⟩ := filled_commits.provenance
      (fun _ => rfl) (repoId, id) hold
    obtain ⟨_, stored, _⟩ := hwrote
    by_cases hnamed : stored.commitId = []
    · -- the stored commit was hashed too, and got the same id
      left
      have hstored : ReturnedCommitId P requests repoId stored id := by
        obtain ⟨after, rfl⟩ := hbefore
        rw [ReturnedCommitId, Reactive.trace_append]
        exact List.mem_append_left _ hmem
      have hsame := (id_eq_iff_sameCommit hser hsha hnamed hempty hstored
        hreturned).mp rfl
      exact ⟨hsame.tree, hsame.parents, hsame.author, hsame.committer,
        hsame.changeId, hsame.description⟩
    · right
      obtain ⟨hstored, hid⟩ := ReturnedCommitId.commitIdOf hmem
      rw [BackendService.commitIdOf, if_neg (by simpa using hnamed)] at hid
      obtain rfl := Option.some.inj hid
      exact ⟨hnamed, hstored⟩

def rewrittenCommit (predecessors : List Bytes) : Commit where
  changeId := [1]
  description := "first"
  predecessors := predecessors

def rewrittenTwice : List Request :=
  [.registerRepository {} "repo",
    .writeCommit ⟨"repo", some (rewrittenCommit [])⟩,
    .writeCommit ⟨"repo", some (rewrittenCommit [[1]])⟩]

theorem rewrittenTwice_injOn :
    Platform.reference.Sha1InjOn .commit
      (commitBuffers .reference rewrittenTwice) := by
  refine Set.Subsingleton.injOn (Set.Subsingleton.image ?_ _) _
  have hbuffer {repoId : RepoId} {commit : Commit}
      (hmem : .writeCommit ⟨repoId, some commit⟩ ∈ rewrittenTwice) :
      commitBuffer .reference commit =
        commitBuffer .reference (rewrittenCommit []) := by
    simp only [rewrittenTwice, List.mem_cons, reduceCtorEq, false_or,
      Request.writeCommit.injEq, WriteCommitRequest.mk.injEq,
      Option.some.injEq, List.not_mem_nil, or_false] at hmem
    rcases hmem with ⟨-, rfl⟩ | ⟨-, rfl⟩ <;> rfl
  rintro buf ⟨repoId, commit, hmem, -, hbuf⟩ buf' ⟨repoId', commit', hmem', -, hbuf'⟩
  rw [hbuffer hmem] at hbuf
  rw [hbuffer hmem'] at hbuf'
  exact Option.some.inj (hbuf.symm.trans hbuf')

theorem commitIds_identify_rewrittenTwice :
    CommitIdsIdentify .reference rewrittenTwice :=
  commitIds_identify Platform.reference_serializesCommits rewrittenTwice_injOn

/-- Git has no room for predecessors, so both versions get one id. -/
theorem rewrittenTwice_conflated :
    Platform.reference.Sha1InjOn .commit
        (commitBuffers .reference rewrittenTwice) ∧
      ¬ ∀ repoId id commit commit',
        commit.commitId = [] → commit'.commitId = [] →
        ReturnedCommitId .reference rewrittenTwice repoId commit id →
        ReturnedCommitId .reference rewrittenTwice repoId commit' id →
        commit = commit' := by
  refine ⟨rewrittenTwice_injOn, fun hunique => ?_⟩
  have hsome : (commitBuffer .reference (rewrittenCommit [])).isSome := by
    decide +kernel
  obtain ⟨buf, hbuf⟩ := Option.isSome_iff_exists.mp hsome
  have hid (predecessors : List Bytes) :
      BackendService.commitIdOf .reference (rewrittenCommit predecessors) =
        some (Platform.reference.computeHash .commit buf).bytes :=
    commitIdOf_of_commitBuffer rfl hbuf
  have hfirst : Accepted .reference rewrittenTwice "repo"
      (.writeCommit ⟨"repo", some (rewrittenCommit [])⟩) :=
    .of_registered [] [] ⟨_, rfl⟩
  have hsecond : Accepted .reference rewrittenTwice "repo"
      (.writeCommit ⟨"repo", some (rewrittenCommit [[1]])⟩) :=
    .of_registered [] [_] ⟨[], rfl⟩
  have heq := hunique "repo" _ _ _ rfl rfl (hfirst.returnedCommitId (hid []))
    (hsecond.returnedCommitId (hid [[1]]))
  exact absurd heq (by decide)

end CommitCloud.Server
