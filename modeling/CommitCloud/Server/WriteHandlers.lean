import CommitCloud.Client.CommitRoundTrip
import CommitCloud.Server.Programs
import CommitCloud.Server.TreeIds

/-!
# Calls that panic

Two handlers hash what they are sent with `gix`, and take for granted that it
can write the object.  Here is exactly what it can write; on everything else
these two handlers panic, and no other handler ever does.
-/

namespace CommitCloud.Server

open Foundation CommitCloud.Proto.Backend
open CommitCloud.Client.Backend (PlainText plainText_iff plainText_placeholder_iff)

variable {P : Platform} {s : MemoryStore}

/-! ## Signatures -/

/-- No delimiter in a text, and an offset below a hundred hours. -/
structure PlainSignature (sig : Option Signature) : Prop where
  name : ∀ s ∈ sig, PlainText s.name
  email : ∀ s ∈ sig, PlainText s.email
  offset : (signatureOffsetMins sig).toInt.natAbs < 6000

section Signatures

variable {sig : Option Signature}

theorem plainText_signatureName :
    PlainText (signatureName sig) ↔ ∀ s ∈ sig, PlainText s.name := by
  cases sig with
  | none => simp [signatureName, show PlainText emptyStringPlaceholder by decide]
  | some s => simpa [signatureName] using @plainText_placeholder_iff s.name

theorem plainText_signatureEmail :
    PlainText (signatureEmail sig) ↔ ∀ s ∈ sig, PlainText s.email := by
  cases sig with
  | none => simp [signatureEmail, show PlainText emptyStringPlaceholder by decide]
  | some s => simpa [signatureEmail] using @plainText_placeholder_iff s.email

theorem exactOffset_of_lt (h : (signatureOffsetMins sig).toInt.natAbs < 6000) :
    ExactOffset sig := by
  have hsixty : (60 : Int32).toInt = 60 := rfl
  rw [ExactOffset, Int32.toInt_mul, hsixty]
  apply Int.bmod_eq_of_le_mul_two <;> omega

theorem ExactOffset.mulInt32 (h : ExactOffset sig) :
    P.mulInt32 (signatureOffsetMins sig) 60 = some (signatureOffsetMins sig * 60) := by
  rw [Platform.mulInt32, if_neg]
  rintro ⟨-, hne⟩
  exact hne h

/-- Git can write a signature, and no offset is cut down, exactly if it is plain. -/
theorem plainSignature_iff :
    PlainSignature sig ↔ GitWritable P sig ∧ ExactOffset sig := by
  have hhours (x : Int) : (x * 60).natAbs / 3600 ≤ 99 ↔ x.natAbs < 6000 := by omega
  constructor
  · intro h
    have hexact := exactOffset_of_lt h.offset
    refine ⟨⟨_, (signatureToGit_eq sig).trans (by rw [hexact.mulInt32]; rfl), ?_, ?_, ?_⟩,
      hexact⟩
    · exact plainText_iff.mp (plainText_signatureName.mpr h.name)
    · exact plainText_iff.mp (plainText_signatureEmail.mpr h.email)
    · rw [Gix.Time.offsetHours, hexact]
      exact (hhours _).mpr h.offset
  · rintro ⟨⟨git, hgit, hname, hemail, hoffset⟩, hexact⟩
    rw [signatureToGit_eq, hexact.mulInt32, Option.map_some] at hgit
    obtain rfl := Option.some.inj hgit
    rw [Gix.Time.offsetHours, hexact, hhours] at hoffset
    exact ⟨plainText_signatureName.mp (plainText_iff.mpr hname),
      plainText_signatureEmail.mp (plainText_iff.mpr hemail), hoffset⟩

end Signatures

theorem commitBuffer_isSome_of_plain (hser : P.SerializesCommits) {commit : Commit}
    (hauthor : PlainSignature commit.author)
    (hcommitter : PlainSignature commit.committer) :
    (commitBuffer P commit).isSome :=
  (commitBuffer_isSome_iff hser).mpr
    ⟨(plainSignature_iff.mp hauthor).1, (plainSignature_iff.mp hcommitter).1⟩

/-! ## Trees -/

/-- The sort returns, and an assertion finds its result in order. -/
def Sortable (P : Platform) (entries : List TreeEntry) : Prop :=
  ∃ sorted, P.sortUnstable P.compareEntries (gitEntries entries) = some sorted ∧
    P.AcceptsOrder sorted

/-- No entry that Git keeps has a NUL in its name. -/
def PlainNames (entries : List TreeEntry) : Prop :=
  ∀ entry ∈ entries, (gitKindAndId entry).2.length = 20 → '\x00' ∉ entry.name.toList

theorem gitEntry_eq_some_iff {entry : TreeEntry} {git : Gix.Entry} :
    gitEntry entry = some git ↔ ∃ h : (gitKindAndId entry).2.length = 20,
      git = ⟨(gitKindAndId entry).1, utf8 entry.name, ⟨_, h⟩⟩ := by
  rw [gitEntry, Gix.ObjectId.tryFrom]
  split
  next h => simp [h, eq_comm]
  next h => simp [h]

/-- A character that no name holds is in no name that Git keeps. -/
theorem notMem_filename {entries : List TreeEntry} {c : Char} (hc : c.toNat < 128)
    (h : ∀ entry ∈ entries, c ∉ entry.name.toList) :
    ∀ git ∈ gitEntries entries, c.toUInt8 ∉ git.filename := by
  intro git hgit
  obtain ⟨entry, hentry, hsome⟩ := List.mem_filterMap.mp hgit
  obtain ⟨-, rfl⟩ := gitEntry_eq_some_iff.mp hsome
  exact mt (ascii_mem_utf8_iff hc).mp (h entry hentry)

theorem plainNames_iff {entries : List TreeEntry} :
    PlainNames entries ↔ ∀ git ∈ gitEntries entries, (0 : UInt8) ∉ git.filename := by
  have hnul (name : String) : (0 : UInt8) ∈ utf8 name ↔ '\x00' ∈ name.toList :=
    ascii_mem_utf8_iff (c := '\x00') (by decide)
  constructor
  · intro h git hgit
    obtain ⟨entry, hentry, hsome⟩ := List.mem_filterMap.mp hgit
    obtain ⟨hid, rfl⟩ := gitEntry_eq_some_iff.mp hsome
    rw [hnul]
    exact h entry hentry hid
  · intro h entry hentry hid
    rw [← hnul]
    exact h _ (List.mem_filterMap.mpr ⟨entry, hentry, gitEntry_eq_some_iff.mpr ⟨hid, rfl⟩⟩)

/-- Without slashes in names, Git's order is total, and the entries can be sorted. -/
theorem sortable_of_noSlash (hser : P.SerializesTrees) (hsorts : P.SortsTotalOrders)
    (hcompare : P.ComparesEntries) {entries : List TreeEntry}
    (h : ∀ entry ∈ entries, '/' ∉ entry.name.toList) : Sortable P entries := by
  have hslash := notMem_filename (c := '/') (by decide) h
  obtain ⟨sorted, hsorted, hascending⟩ := hsorts P.compareEntries (gitEntries entries)
    (hcompare ▸ Gix.Entry.totalOn_compare hslash)
  exact ⟨sorted, hsorted, fun _ => hser.entriesSorted sorted hascending⟩

theorem treeBuffer_isSome_iff (hser : P.SerializesTrees) (hsort : P.SortPermutes)
    {entries : List TreeEntry} :
    (treeBuffer P entries).isSome ↔ Sortable P entries ∧ PlainNames entries := by
  rw [treeBuffer, Sortable, plainNames_iff]
  cases hsorted : P.sortUnstable P.compareEntries (gitEntries entries) with
  | none => simp
  | some sorted =>
      have hperm := hsort _ _ _ hsorted
      rw [Option.bind_some, hser.writeTree]
      simp [hperm.mem_iff]

/-! ## Calls -/

/-- The request can be served: what it makes the server hash can be hashed. -/
def Request.Servable (P : Platform) (s : MemoryStore) : Request → Prop
  | .writeCommit req => s.isRepoRegistered req.repoId →
      ∀ commit ∈ req.commit, commit.commitId = [] →
        PlainSignature commit.author ∧ PlainSignature commit.committer
  | .writeTree req => s.isRepoRegistered req.repoId →
      Sortable P req.entries ∧ PlainNames req.entries
  | _ => True

/-- The call ends in a response or a status, and no offset it computes overflows. -/
structure Returns (P : Platform) (s : MemoryStore) (req : Request) : Prop where
  answer : (server P s req).1 ≠ .error .panicked
  offsets : ∀ repoId commit, req = .writeCommit ⟨repoId, some commit⟩ →
    s.isRepoRegistered repoId → commit.commitId = [] →
    ExactOffset commit.author ∧ ExactOffset commit.committer

theorem server_writeCommit_ne_panicked_iff {req : WriteCommitRequest} :
    (server P s (.writeCommit req)).1 ≠ .error .panicked ↔
      (s.isRepoRegistered req.repoId → ∀ commit ∈ req.commit, commit.commitId = [] →
        (commitBuffer P commit).isSome) := by
  simp only [server, handle, Handler.call_map, BackendService.call_writeCommit]
  cases hreg : s.isRepoRegistered req.repoId with
  | false => simp [unregistered]
  | true =>
      cases req.commit with
      | none => simp
      | some commit =>
          by_cases hid : commit.commitId = []
          · cases hbuf : commitBuffer P commit <;>
              simp [BackendService.commitIdOf, computeGitCommitHash, hid, hbuf]
          · simp [BackendService.commitIdOf, hid]

theorem server_writeTree_ne_panicked_iff {req : WriteTreeRequest} :
    (server P s (.writeTree req)).1 ≠ .error .panicked ↔
      (s.isRepoRegistered req.repoId → (treeBuffer P req.entries).isSome) := by
  simp only [server, handle, Handler.call_map, BackendService.call_writeTree]
  cases hreg : s.isRepoRegistered req.repoId with
  | false => simp [unregistered]
  | true => cases hbuf : treeBuffer P req.entries <;> simp [computeGitTreeHash, hbuf]

/-- The handlers that hash nothing with `gix` objects never panic. -/
theorem program_ne_panicked {req : Request} (hcommit : ∀ req', req ≠ .writeCommit req')
    (htree : ∀ req', req ≠ .writeTree req') :
    (program P req).Ends (· ≠ .error .panicked) := by
  have hok (response : Response) : (.ok response : Answer) ≠ .error .panicked := by simp
  have hrefused (code : Code) (message : String) :
      refuse code message ≠ .error .panicked := by simp [refuse]
  cases req with
  | writeCommit req => exact absurd rfl (hcommit req)
  | writeTree req => exact absurd rfl (htree req)
  | registerRepository req uuid => exact .once fun _ => hok _
  | readCommit req =>
      refine gated_ends (hrefused _ _) (.once ?_)
      rintro (_ | commit)
      · exact hrefused _ _
      · exact hok _
  | readTree req =>
      refine gated_ends (hrefused _ _) ?_
      split
      · exact .done (hok _)
      · refine .once ?_
        rintro (_ | entries)
        · exact hrefused _ _
        · exact hok _
  | readFile req =>
      refine gated_ends (hrefused _ _) (.once ?_)
      rintro (_ | content)
      · exact hrefused _ _
      · exact hok _
  | writeFile req => exact gated_ends (hrefused _ _) (.once fun _ => hok _)
  | readSymlink req => exact .done (hrefused _ _)
  | writeSymlink req => exact .done (hrefused _ _)
  | readOperation req =>
      refine gated_ends (hrefused _ _) (.once ?_)
      rintro (_ | op)
      · -- the root operation is made up
        show (if req.operationId = rootOperationIdBytes then _ else _) ≠ _
        split
        · exact hok _
        · exact hrefused _ _
      · exact hok _
  | writeOperation req =>
      obtain ⟨repoId, op⟩ := req
      cases op with
      | none => exact .done (hrefused _ _)
      | some op => exact gated_ends (hrefused _ _) (.once fun _ => hok _)
  | readView req =>
      refine gated_ends (hrefused _ _) (.once ?_)
      rintro (_ | view)
      · -- and so is the root view
        show (if req.viewId = rootViewIdBytes then _ else _) ≠ _
        split
        · exact hok _
        · exact hrefused _ _
      · exact hok _
  | writeView req =>
      obtain ⟨repoId, view⟩ := req
      cases view with
      | none => exact .done (hrefused _ _)
      | some view => exact gated_ends (hrefused _ _) (.once fun _ => hok _)
  | getOpHeads req => exact gated_ends (hrefused _ _) (.once fun _ => hok _)
  | updateOpHeads req => exact gated_ends (hrefused _ _) (.once fun _ => hok _)

theorem server_ne_panicked {req : Request} (hcommit : ∀ req', req ≠ .writeCommit req')
    (htree : ∀ req', req ≠ .writeTree req') :
    (server P s req).1 ≠ .error .panicked := by
  rw [← run_program]
  exact (program_ne_panicked hcommit htree).run s

/-- A call returns exactly if its request can be served. -/
theorem returns_iff (hser : P.SerializesCommits) (htrees : P.SerializesTrees)
    (hsort : P.SortPermutes) (s : MemoryStore) (req : Request) :
    Returns P s req ↔ req.Servable P s := by
  cases req with
  | writeCommit req =>
      obtain ⟨repoId, commit⟩ := req
      constructor
      · rintro ⟨hanswer, hoffsets⟩ hreg commit rfl hid
        have hwritable := (commitBuffer_isSome_iff hser).mp
          (server_writeCommit_ne_panicked_iff.mp hanswer hreg commit rfl hid)
        have hexact := hoffsets repoId commit rfl hreg hid
        exact ⟨plainSignature_iff.mpr ⟨hwritable.1, hexact.1⟩,
          plainSignature_iff.mpr ⟨hwritable.2, hexact.2⟩⟩
      · intro h
        refine ⟨server_writeCommit_ne_panicked_iff.mpr fun hreg commit hcommit hid => ?_,
          fun repoId' commit' heq hreg hid => ?_⟩
        · obtain ⟨hauthor, hcommitter⟩ := h hreg commit hcommit hid
          exact commitBuffer_isSome_of_plain hser hauthor hcommitter
        · cases heq
          obtain ⟨hauthor, hcommitter⟩ := h hreg commit' rfl hid
          exact ⟨exactOffset_of_lt hauthor.offset, exactOffset_of_lt hcommitter.offset⟩
  | writeTree req =>
      have hbuffer : (treeBuffer P req.entries).isSome ↔
          Sortable P req.entries ∧ PlainNames req.entries :=
        treeBuffer_isSome_iff htrees hsort
      constructor
      · intro h hreg
        exact hbuffer.mp (server_writeTree_ne_panicked_iff.mp h.answer hreg)
      · intro h
        exact ⟨server_writeTree_ne_panicked_iff.mpr fun hreg => hbuffer.mpr (h hreg),
          fun _ _ heq => nomatch heq⟩
  | _ =>
      exact iff_of_true ⟨server_ne_panicked (fun _ => nofun) fun _ => nofun,
        fun _ _ heq => nomatch heq⟩ trivial

/-- A request to write a commit by the given author. -/
def authoredCommit (name : String) (tzOffset : Int32) : Request :=
  .writeCommit ⟨"repo", some { author := some {
    name := name, timestamp := some { millisSinceEpoch := 1500, tzOffset := tzOffset } } }⟩

/-- A request to write a tree of one file. -/
def namedFile (name : String) : Request :=
  .writeTree ⟨"repo", "", [{ name := name, value := some ⟨some
    (.file { id := List.replicate 20 1 })⟩ }]⟩

theorem returns_iff_authored :
    Returns .reference (MemoryStore.new.registerRepo "repo")
      (authoredCommit "author" (-5999)) := by
  refine (returns_iff Platform.reference_serializesCommits
    Platform.reference_serializesTrees Platform.reference_sortPermutes _ _).mpr ?_
  intro _ commit hcommit _
  obtain rfl := Option.some.inj hcommit
  refine ⟨⟨?_, ?_, by decide⟩, ⟨nofun, nofun, by decide⟩⟩ <;>
  · intro sig hsig
    obtain rfl := Option.some.inj hsig
    decide

/-- Well-formed messages that make the server panic. -/
theorem writes_panic :
    (server .reference (MemoryStore.new.registerRepo "repo")
        (authoredCommit "<" 0)).1 = .error .panicked ∧
      (server .reference (MemoryStore.new.registerRepo "repo")
        (authoredCommit "author" 6000)).1 = .error .panicked ∧
      (server .reference (MemoryStore.new.registerRepo "repo")
        (authoredCommit "author" 35791395)).1 = .error .panicked ∧
      (server .reference (MemoryStore.new.registerRepo "repo")
        (namedFile "\x00")).1 = .error .panicked := by
  decide +kernel

end CommitCloud.Server
