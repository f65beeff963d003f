import CommitCloud.Gix.Decoding
import CommitCloud.Gix.Order
import CommitCloud.Server.ContentAddress

/-!
# Tree ids

A tree's id is the hash of the Git tree made from its entries.  So the id
identifies the entries Git keeps, in some order; the empty tree, which is read
without a look into the store, is no exception.
-/

namespace CommitCloud.Server

open Foundation CommitCloud.Proto.Backend

variable {P : Platform} {requests : List Request}

/-- Trees that are the same to Git. -/
def SameTree (entries entries' : List TreeEntry) : Prop :=
  (gitEntries entries).Perm (gitEntries entries')

/-- The buffers of the trees the run sends, and that of the empty tree. -/
def treeBuffers (P : Platform) (requests : List Request) : Set Bytes :=
  { buf | buf = [] ∨ ∃ repoId path entries,
    .writeTree ⟨repoId, path, entries⟩ ∈ requests ∧
      treeBuffer P entries = some buf }

/--
Trees written under one id are the same to Git; a stored one is never replaced
by another one, and what is read under an id is what was written under it.
-/
structure TreeIdsIdentify (P : Platform) (requests : List Request) : Prop where
  identifies : Identifies (server P)
    (fun s (key : RepoId × TreeId) => s.getTree key.1 key.2)
    WroteTree SameTree MemoryStore.new requests
  read : ∀ before repoId id path entries, before <+: requests →
    Written WroteTree ((server P).trace MemoryStore.new before)
      (repoId, id) entries →
    ∃ entries', (server P ((server P).finalState MemoryStore.new before)
        (.readTree ⟨repoId, id, path⟩)).1 = .ok (.readTree ⟨id, entries'⟩) ∧
      SameTree entries' entries

/-- Git keeps an entry with an object id, under its name. -/
theorem gitEntry_of_length {entry : TreeEntry}
    (hid : (gitKindAndId entry).2.length = 20) :
    ∃ git, gitEntry entry = some git ∧ git.filename = utf8 entry.name := by
  refine ⟨⟨(gitKindAndId entry).1, utf8 entry.name, ⟨_, hid⟩⟩, ?_, rfl⟩
  rw [gitEntry, Gix.ObjectId.tryFrom, dif_pos hid, Option.map_some]

/-- The entries are sorted, and then written one after the other. -/
theorem treeBuffer_eq_some_iff (hser : P.SerializesTrees) {entries : List TreeEntry}
    {buf : Bytes} : treeBuffer P entries = some buf ↔
      ∃ sorted, P.sortUnstable P.compareEntries (gitEntries entries) = some sorted ∧
        (P.AcceptsOrder sorted ∧ ∀ entry ∈ sorted, (0 : UInt8) ∉ entry.filename) ∧
        buf = sorted.flatMap Gix.Entry.serialize := by
  rw [treeBuffer, Option.bind_eq_some_iff]
  refine exists_congr fun sorted => and_congr_right fun _ => ?_
  rw [hser.writeTree]
  split
  next hwritable =>
    rw [and_iff_right hwritable, Option.some.injEq, eq_comm]
  next hwritable =>
    rw [eq_false hwritable, false_and]
    exact iff_of_false (Option.some_ne_none buf).symm id

theorem treeBuffer_eq_some (hser : P.SerializesTrees) (hsort : P.SortPermutes)
    {entries : List TreeEntry} {buf : Bytes}
    (h : treeBuffer P entries = some buf) :
    ∃ sorted : List Gix.Entry, sorted.Perm (gitEntries entries) ∧
      (∀ entry ∈ sorted, (0 : UInt8) ∉ entry.filename) ∧
      buf = sorted.flatMap Gix.Entry.serialize := by
  obtain ⟨sorted, hsorted, ⟨-, hnames⟩, hbuf⟩ := (treeBuffer_eq_some_iff hser).mp h
  exact ⟨sorted, hsort _ _ _ hsorted, hnames, hbuf⟩

/-- A tree is serialized if the sort can order it and no name holds a NUL. -/
theorem treeBuffer_eq_of_names (hser : P.SerializesTrees)
    (hsort : P.SortPermutes) (hsorts : P.SortsTotalOrders)
    (hcompare : P.ComparesEntries) (entries : List TreeEntry)
    (hslash : ∀ entry ∈ gitEntries entries, 47 ∉ entry.filename)
    (hnul : ∀ entry ∈ gitEntries entries, 0 ∉ entry.filename) :
    ∃ sorted : List Gix.Entry, sorted.Perm (gitEntries entries) ∧
      treeBuffer P entries = some (sorted.flatMap Gix.Entry.serialize) := by
  obtain ⟨sorted, hsorted, hascending⟩ := hsorts P.compareEntries (gitEntries entries)
    (hcompare ▸ Gix.Entry.totalOn_compare hslash)
  have hperm := hsort _ _ _ hsorted
  have horder : P.AcceptsOrder sorted := fun _ => hser.entriesSorted sorted hascending
  exact ⟨sorted, hperm, (treeBuffer_eq_some_iff hser).mpr
    ⟨sorted, hsorted, ⟨horder, fun entry hentry => hnul entry (hperm.subset hentry)⟩, rfl⟩⟩

theorem sameTree_of_treeBuffer_eq (hser : P.SerializesTrees)
    (hsort : P.SortPermutes) {entries entries' : List TreeEntry} {buf : Bytes}
    (h : treeBuffer P entries = some buf)
    (h' : treeBuffer P entries' = some buf) : SameTree entries entries' := by
  obtain ⟨sorted, hperm, hnames, hbuf⟩ := treeBuffer_eq_some hser hsort h
  obtain ⟨sorted', hperm', hnames', hbuf'⟩ := treeBuffer_eq_some hser hsort h'
  obtain rfl := Gix.entries_eq_of_serialize hnames hnames' (hbuf.symm.trans hbuf')
  exact hperm.symm.trans hperm'

theorem Accepted.writtenTree {repoId : RepoId} {path : String} {id : TreeId}
    {entries : List TreeEntry}
    (h : Accepted P requests repoId (.writeTree ⟨repoId, path, entries⟩))
    (hid : computeGitTreeHash P entries = some id) :
    Written WroteTree ((server P).trace MemoryStore.new requests)
      (repoId, id) entries := by
  obtain ⟨before, hinitial, hreg⟩ := h
  refine written_iff.mpr ⟨before, _, hinitial, ?_⟩
  have hanswer : (server P ((server P).finalState MemoryStore.new before)
      (.writeTree ⟨repoId, path, entries⟩)).1 = .ok (.writeTree ⟨id⟩) := by
    simp [server, handle, BackendService.call_writeTree, hreg, hid]
  rw [hanswer]
  exact .mk repoId path entries id

theorem writtenTree_iff {repoId : RepoId} {id : TreeId} {entries : List TreeEntry} :
    Written WroteTree ((server P).trace MemoryStore.new requests) (repoId, id)
        entries ↔
      ∃ path, Accepted P requests repoId (.writeTree ⟨repoId, path, entries⟩) ∧
        computeGitTreeHash P entries = some id := by
  constructor
  · intro h
    obtain ⟨before, req, hinitial, hwrote⟩ := written_iff.mp h
    obtain ⟨path, rfl, hreg, hid, -⟩ := (server_step P _ _).wroteTree hwrote
    exact ⟨path, ⟨before, hinitial, hreg⟩, hid⟩
  · rintro ⟨path, haccepted, hid⟩
    exact haccepted.writtenTree hid

theorem hashed_of_writtenTree {repoId : RepoId} {id : TreeId} {entries : List TreeEntry}
    (h : Written WroteTree ((server P).trace MemoryStore.new requests)
      (repoId, id) entries) :
    ∃ buf ∈ treeBuffers P requests, treeBuffer P entries = some buf ∧
      (P.computeHash .tree buf).bytes = id := by
  obtain ⟨path, haccepted, hid⟩ := writtenTree_iff.mp h
  obtain ⟨buf, hbuf, hid⟩ := Option.map_eq_some_iff.mp hid
  exact ⟨buf, .inr ⟨repoId, path, entries, haccepted.mem, hbuf⟩, hbuf, hid⟩

theorem sameTree_of_written (hser : P.SerializesTrees) (hsort : P.SortPermutes)
    (hsha : P.Sha1InjOn .tree (treeBuffers P requests)) {repoId : RepoId}
    {id : TreeId} {entries entries' : List TreeEntry}
    (h : Written WroteTree ((server P).trace MemoryStore.new requests)
      (repoId, id) entries)
    (h' : Written WroteTree ((server P).trace MemoryStore.new requests)
      (repoId, id) entries') : SameTree entries entries' := by
  obtain ⟨buf, hgiven, hbuf, hid⟩ := hashed_of_writtenTree h
  obtain ⟨buf', hgiven', hbuf', hid'⟩ := hashed_of_writtenTree h'
  obtain rfl := (Platform.computeHash_eq_iff hsha hgiven hgiven').mp
    (hid.trans hid'.symm)
  exact sameTree_of_treeBuffer_eq hser hsort hbuf hbuf'

/-- No other buffer gets the id of the empty tree. -/
theorem eq_nil_of_hash (hempty : P.HashesEmptyTree) {given : Set Bytes}
    (hsha : P.Sha1InjOn .tree given) (hnil : [] ∈ given) {buf : Bytes}
    (hbuf : buf ∈ given)
    (hid : (P.computeHash .tree buf).bytes = emptyTreeIdBytes) : buf = [] :=
  (Platform.computeHash_eq_iff hsha hbuf hnil).mp
    (hid.trans (congrArg Gix.ObjectId.bytes hempty).symm)

theorem eq_nil_of_serialize {entries : List Gix.Entry}
    (h : entries.flatMap Gix.Entry.serialize = []) : entries = [] := by
  cases entries with
  | nil => rfl
  | cons entry entries => simp [Gix.Entry.serialize] at h

theorem sameTree_nil_of_written (hser : P.SerializesTrees)
    (hsort : P.SortPermutes) (hempty : P.HashesEmptyTree)
    (hsha : P.Sha1InjOn .tree (treeBuffers P requests)) {repoId : RepoId}
    {entries : List TreeEntry}
    (h : Written WroteTree ((server P).trace MemoryStore.new requests)
      (repoId, emptyTreeIdBytes) entries) : SameTree [] entries := by
  obtain ⟨buf, hgiven, hbuf, hid⟩ := hashed_of_writtenTree h
  obtain rfl := eq_nil_of_hash hempty hsha (.inl rfl) hgiven hid
  obtain ⟨sorted, hperm, -, hsorted⟩ := treeBuffer_eq_some hser hsort hbuf
  obtain rfl := eq_nil_of_serialize hsorted.symm
  exact hperm

theorem server_readTree_iff {s : MemoryStore} {repoId : RepoId} {id id' : TreeId}
    {path : String} {entries : List TreeEntry} :
    (server P s (.readTree ⟨repoId, id, path⟩)).1 = .ok (.readTree ⟨id', entries⟩) ↔
      s.isRepoRegistered repoId ∧ id' = id ∧
        if id = emptyTreeIdBytes then entries = []
        else s.getTree repoId id = some entries := by
  simp only [server, handle, Handler.call_map, BackendService.call_readTree]
  by_cases hempty : id = emptyTreeIdBytes <;> cases s.isRepoRegistered repoId <;>
    cases s.getTree repoId id <;> simp [unregistered, hempty, eq_comm]

theorem server_readTree {s : MemoryStore} {repoId : RepoId} {id : TreeId}
    {entries : List TreeEntry} (path : String)
    (hreg : s.isRepoRegistered repoId)
    (hstored : s.getTree repoId id = some entries) :
    (server P s (.readTree ⟨repoId, id, path⟩)).1 =
      .ok (.readTree ⟨id, if id = emptyTreeIdBytes then [] else entries⟩) := by
  refine server_readTree_iff.mpr ⟨hreg, rfl, ?_⟩
  split
  next => rfl
  next => exact hstored

/-- Tree ids identify trees as far as Git sees them. -/
theorem treeIds_identify (hser : P.SerializesTrees) (hsort : P.SortPermutes)
    (hempty : P.HashesEmptyTree)
    (hsha : P.Sha1InjOn .tree (treeBuffers P requests)) :
    TreeIdsIdentify P requests := by
  have hidentifies : Identifies (server P)
      (fun s (key : RepoId × TreeId) => s.getTree key.1 key.2)
      WroteTree SameTree MemoryStore.new requests :=
    (filled_trees.identifies_iff (fun _ => rfl) requests).mpr
      fun _ _ _ h h' => sameTree_of_written hser hsort hsha h h'
  refine ⟨hidentifies, fun before repoId id path entries hinitial hwritten => ?_⟩
  obtain ⟨stored, hstored, hsame⟩ := hidentifies.readBack before (repoId, id)
    entries hinitial hwritten
  have hreg := registered_of_written
    (fun hstep hwrote => by
      obtain ⟨path, -, hreg, -, -⟩ := hstep.wroteTree hwrote
      exact hreg) hwritten
  refine ⟨_, server_readTree path hreg hstored, ?_⟩
  split
  next hid =>
    subst hid
    exact sameTree_nil_of_written hser hsort hempty hsha
      (hwritten.of_initial hinitial)
  next => exact hsame

def copiedFile (copyId : Bytes) : List TreeEntry :=
  [{ name := "file", value := some ⟨some
    (.file { id := List.replicate 20 1, copyId := copyId })⟩ }]

def copiedTwice : List Request :=
  [.registerRepository {} "repo",
    .writeTree { repoId := "repo", entries := copiedFile [1] },
    .writeTree { repoId := "repo", entries := copiedFile [2] }]

def copiedBuffer : Bytes := (treeBuffer .reference (copiedFile [1])).getD []

theorem treeBuffer_copiedFile (copyId : Bytes) :
    treeBuffer .reference (copiedFile copyId) = some copiedBuffer := rfl

theorem copiedBuffer_injOn {given : Set Bytes} (hgiven : given ⊆ {[], copiedBuffer}) :
    Platform.reference.Sha1InjOn .tree given := by
  have hne : Platform.reference.computeHash .tree [] ≠
      Platform.reference.computeHash .tree copiedBuffer := by decide +kernel
  exact Platform.injOn_hashInput_of_pair hgiven hne

theorem copiedTwice_injOn :
    Platform.reference.Sha1InjOn .tree (treeBuffers .reference copiedTwice) := by
  have hgiven : treeBuffers .reference copiedTwice ⊆ {[], copiedBuffer} := by
    rintro buf (rfl | ⟨repoId, path, entries, hmem, hbuf⟩)
    · exact .inl rfl
    · simp only [copiedTwice, List.mem_cons, reduceCtorEq, false_or,
        Request.writeTree.injEq, WriteTreeRequest.mk.injEq, List.not_mem_nil,
        or_false] at hmem
      rcases hmem with ⟨-, -, rfl⟩ | ⟨-, -, rfl⟩ <;>
        exact .inr (Option.some.inj (hbuf.symm.trans (treeBuffer_copiedFile _)))
  exact copiedBuffer_injOn hgiven

theorem treeIds_identify_copiedTwice : TreeIdsIdentify .reference copiedTwice :=
  treeIds_identify Platform.reference_serializesTrees Platform.reference_sortPermutes
    Platform.reference_hashesEmptyTree copiedTwice_injOn

/-- Git has no room for a copy id, so both trees get one id. -/
theorem copiedTwice_conflated :
    Platform.reference.Sha1InjOn .tree (treeBuffers .reference copiedTwice) ∧
      ¬ ∀ repoId id entries entries',
        Written WroteTree ((server .reference).trace MemoryStore.new copiedTwice)
          (repoId, id) entries →
        Written WroteTree ((server .reference).trace MemoryStore.new copiedTwice)
          (repoId, id) entries' → entries.Perm entries' := by
  refine ⟨copiedTwice_injOn, fun hunique => ?_⟩
  have hid (copyId : Bytes) : computeGitTreeHash .reference (copiedFile copyId) =
      some (Platform.reference.computeHash .tree copiedBuffer).bytes :=
    Option.map_eq_some_iff.mpr ⟨_, treeBuffer_copiedFile copyId, rfl⟩
  have hfirst : Accepted .reference copiedTwice "repo"
      (.writeTree ⟨"repo", "", copiedFile [1]⟩) :=
    .of_registered [] [] ⟨_, rfl⟩
  have hsecond : Accepted .reference copiedTwice "repo"
      (.writeTree ⟨"repo", "", copiedFile [2]⟩) :=
    .of_registered [] [_] ⟨[], rfl⟩
  have hperm := hunique "repo" _ _ _ (hfirst.writtenTree (hid [1]))
    (hsecond.writtenTree (hid [2]))
  exact absurd hperm (by decide)

end CommitCloud.Server
