import CommitCloud.Client.Backend
import CommitCloud.Server.TreeIds

/-!
# Trees through the cloud

What is read under the id of a written tree are its entries in their order,
except that a copy id of another length than an id's has become zeros.  Both
sides know the empty tree without asking the store, so no other tree may have
its id.
-/

namespace CommitCloud.Client.Backend

open Foundation CommitCloud.Server

variable {P : Platform} {B : JjBackend} {repoId : RepoId} {tree : Jj.Tree}
  {s : MemoryStore}

/-- A value the cloud stores: no submodule, and with an object id. -/
def StorableValue : Jj.TreeValue → Prop
  | .file id _ _ => id.length = 20
  | .symlink id => id.length = 20
  | .tree id => id.length = 20
  | .gitSubmodule _ => False

structure Storable (tree : Jj.Tree) : Prop where
  value : ∀ entry ∈ tree.entries, StorableValue entry.2
  name : ∀ entry ∈ tree.entries, '\x00' ∉ entry.1.value.toList

/-! ## Entries -/

theorem copyIdFromProto_eq_self_iff {copyId : Jj.CopyId} :
    copyIdFromProto copyId = copyId ↔ copyId.length = 20 := by
  unfold copyIdFromProto
  split
  next hlength => exact iff_of_true rfl hlength
  next hlength => exact ⟨fun h => h ▸ rfl, fun h => absurd h hlength⟩

/-- The value as it is read back. -/
def readBackValue : Jj.TreeValue → Jj.TreeValue
  | .file id executable copyId => .file id executable (copyIdFromProto copyId)
  | value => value

def KeepsCopyId : Jj.TreeValue → Prop
  | .file _ _ copyId => copyId.length = 20
  | _ => True

theorem readBackValue_eq_self_iff {value : Jj.TreeValue} :
    readBackValue value = value ↔ KeepsCopyId value := by
  cases value with
  | file id executable copyId =>
      simp only [readBackValue, KeepsCopyId, Jj.TreeValue.file.injEq, true_and,
        copyIdFromProto_eq_self_iff]
  | _ => exact iff_of_true rfl trivial

def readBackEntry (entry : Jj.RepoPathComponent × Jj.TreeValue) :
    Jj.RepoPathComponent × Jj.TreeValue :=
  (entry.1, readBackValue entry.2)

theorem treeEntry_roundTrip (hnames : B.AcceptsNames)
    {entry : Jj.RepoPathComponent × Jj.TreeValue}
    (hvalue : StorableValue entry.2) :
    ∃ proto, treeEntryToProto entry = .ok proto ∧
      treeEntryFromProto B proto = .ok (readBackEntry entry) ∧
      proto.name = entry.1.value ∧ (gitKindAndId proto).2.length = 20 := by
  obtain ⟨component, value⟩ := entry
  have hname := hnames component
  cases value with
  | gitSubmodule id => exact hvalue.elim
  | _ =>
      refine ⟨_, rfl, ?_, rfl, hvalue⟩
      simp only [treeEntryFromProto, hname]
      rfl

/-- All entries are sent and read back, and Git keeps each under its name. -/
theorem treeEntries_roundTrip (hnames : B.AcceptsNames)
    {entries : List (Jj.RepoPathComponent × Jj.TreeValue)}
    (hvalues : ∀ entry ∈ entries, StorableValue entry.2) :
    ∃ protos, entries.mapM treeEntryToProto = .ok protos ∧
      protos.mapM (treeEntryFromProto B) = .ok (entries.map readBackEntry) ∧
      (gitEntries protos).map (·.filename) =
        entries.map fun entry => utf8 entry.1.value := by
  induction entries with
  | nil => exact ⟨[], rfl, rfl, rfl⟩
  | cons entry entries ih =>
      obtain ⟨protos, hto, hfrom, hfilenames⟩ := ih
        fun other hmem => hvalues other (List.mem_cons_of_mem _ hmem)
      obtain ⟨proto, hto', hfrom', hname, hid⟩ := treeEntry_roundTrip hnames
        (hvalues entry List.mem_cons_self)
      obtain ⟨git, hgit, hfilename⟩ := gitEntry_of_length hid
      refine ⟨proto :: protos, ?_, ?_, ?_⟩
      · rw [List.mapM_cons, hto', hto]
        rfl
      · rw [List.mapM_cons, hfrom', hfrom]
        rfl
      · rw [gitEntries, List.filterMap_cons_some hgit, List.map_cons, hfilename,
          hname, List.map_cons]
        exact congrArg _ hfilenames

/-! ## The calls -/

theorem writeTree_eq_ok_iff (hne : tree.entries ≠ []) {path : String}
    {id : TreeId} {s' : MemoryStore} :
    writeTree P repoId path tree s = (.ok id, s') ↔
      ∃ protos, tree.entries.mapM treeEntryToProto = .ok protos ∧
        s.isRepoRegistered repoId ∧ computeGitTreeHash P protos = some id ∧
        s' = s.putTree repoId id protos := by
  have hnonempty : tree.entries.isEmpty = false := by simpa using hne
  simp only [writeTree, hnonempty, Bool.false_eq_true, if_false]
  cases hto : tree.entries.mapM treeEntryToProto with
  | error failure => simp [fail]
  | ok protos =>
      simp only [rpc, remoteCall, BackendService.call_writeTree]
      cases hreg : s.isRepoRegistered repoId with
      | false => simp [unregistered]
      | true =>
          cases hid : computeGitTreeHash P protos with
          | none => simp [hid]
          | some id' =>
              simp only [if_true, hid, Prod.mk.injEq, Except.ok.injEq,
                exists_eq_left', Option.some.injEq, true_and]
              constructor
              · rintro ⟨rfl, rfl⟩
                exact ⟨rfl, rfl⟩
              · rintro ⟨rfl, rfl⟩
                exact ⟨rfl, rfl⟩

/-- The tree as it is read back. -/
def readBackTree (tree : Jj.Tree) : Jj.Tree where
  entries := tree.entries.map readBackEntry
  sorted := List.pairwise_map.mpr tree.sorted

theorem readBackTree_eq_self_iff :
    readBackTree tree = tree ↔ ∀ entry ∈ tree.entries, KeepsCopyId entry.2 := by
  have hentries : readBackTree tree = tree ↔
      tree.entries.map readBackEntry = tree.entries.map id := by
    rw [Jj.Tree.ext_iff, List.map_id]
    rfl
  rw [hentries, List.map_inj_left]
  refine forall₂_congr fun entry _ => ?_
  rw [← readBackValue_eq_self_iff, readBackEntry, id, Prod.ext_iff]
  exact and_iff_right rfl

/-- What is read of a tree that was just written. -/
theorem readTree_putTree (hnames : B.AcceptsNames)
    (hvalues : ∀ entry ∈ tree.entries, StorableValue entry.2)
    {protos : List Proto.Backend.TreeEntry}
    (hto : tree.entries.mapM treeEntryToProto = .ok protos)
    (hreg : s.isRepoRegistered repoId) (path : String) {id : TreeId}
    (hid : id ≠ emptyTreeIdBytes) :
    readTree B repoId path id (s.putTree repoId id protos) =
      (.ok (readBackTree tree), s.putTree repoId id protos) := by
  obtain ⟨protos', hto', hfrom, -⟩ := treeEntries_roundTrip hnames hvalues
  obtain rfl := Except.ok.inj (hto.symm.trans hto')
  have hstored : (s.putTree repoId id protos).getTree repoId id = some protos :=
    Nested.lookup_put_self ..
  have hreg' : (s.putTree repoId id protos).isRepoRegistered repoId := hreg
  simp only [readTree, if_neg hid, rpc, remoteCall, BackendService.call_readTree,
    hreg', hstored, if_true, treeFromProto, hfrom]
  exact congrArg (fun tree => (orPanic tree, s.putTree repoId id protos))
    (readBackTree tree).fromSortedEntries_entries

/-! ## The round trip -/

/-- The buffers hashed for a tree: that of its message, and the empty one. -/
def hashedTrees (P : Platform) (tree : Jj.Tree) : Set Bytes :=
  { buf | buf = [] ∨ ∃ protos, tree.entries.mapM treeEntryToProto = .ok protos ∧
    treeBuffer P protos = some buf }

/-- What is read under the id of the tree just written is the tree. -/
def TreeRoundTrips (P : Platform) (B : JjBackend) (repoId : RepoId)
    (tree : Jj.Tree) (s : MemoryStore) : Prop :=
  ∀ path, ∃ id s', writeTree P repoId path tree s = (.ok id, s') ∧
    readTree B repoId path id s' = (.ok tree, s')

theorem treeHash_of_storable (hser : P.SerializesTrees)
    (hsort : P.SortPermutes) (hsorts : P.SortsTotalOrders)
    (hcompare : P.ComparesEntries) (hempty : P.HashesEmptyTree)
    (hnames : B.AcceptsNames) (hstorable : Storable tree)
    (hne : tree.entries ≠ []) (hsha : P.Sha1InjOn .tree (hashedTrees P tree)) :
    ∃ protos id, tree.entries.mapM treeEntryToProto = .ok protos ∧
      computeGitTreeHash P protos = some id ∧ id ≠ emptyTreeIdBytes := by
  obtain ⟨protos, hto, -, hfilenames⟩ := treeEntries_roundTrip hnames
    hstorable.value
  have hfilename : ∀ git ∈ gitEntries protos,
      ∃ entry ∈ tree.entries, utf8 entry.1.value = git.filename := by
    intro git hgit
    exact List.mem_map.mp (hfilenames ▸ List.mem_map_of_mem hgit)
  have hslash : ∀ git ∈ gitEntries protos, 47 ∉ git.filename := by
    intro git hgit hmem
    obtain ⟨entry, -, hentry⟩ := hfilename git hgit
    rw [← hentry] at hmem
    exact entry.1.noSlash ((ascii_mem_utf8_iff (by decide)).mp hmem)
  have hnul : ∀ git ∈ gitEntries protos, 0 ∉ git.filename := by
    intro git hgit hmem
    obtain ⟨entry, hentry, hname⟩ := hfilename git hgit
    rw [← hname] at hmem
    exact hstorable.name entry hentry ((ascii_mem_utf8_iff (by decide)).mp hmem)
  obtain ⟨sorted, hperm, hbuf⟩ := treeBuffer_eq_of_names hser hsort hsorts hcompare
    protos hslash hnul
  have hhash : computeGitTreeHash P protos = some (P.computeHash .tree
      (sorted.flatMap Gix.Entry.serialize)).bytes := by
    rw [computeGitTreeHash, hbuf, Option.map_some]
  refine ⟨protos, _, hto, hhash, fun hid => ?_⟩
  -- only the empty tree is hashed to its id, and this one has entries
  have hnil := eq_nil_of_hash hempty hsha (.inl rfl) (.inr ⟨protos, hto, hbuf⟩) hid
  obtain rfl := eq_nil_of_serialize hnil
  rw [← hperm.nil_eq] at hfilenames
  exact hne (List.map_eq_nil_iff.mp hfilenames.symm)

/-! Both sides answer for the empty tree without a look into the store. -/

theorem writeTree_of_nil (hnil : tree.entries = []) (path : String) :
    writeTree P repoId path tree s = (.ok emptyTreeIdBytes, s) := by
  simp only [writeTree, hnil, List.isEmpty_nil, if_true]

theorem readTree_emptyTreeId (path : String) :
    readTree B repoId path emptyTreeIdBytes s = (.ok ⟨[], .nil⟩, s) := by
  rw [readTree, if_pos rfl]
  rfl

theorem readBackTree_of_nil (hnil : tree.entries = []) :
    readBackTree tree = ⟨[], .nil⟩ :=
  Jj.Tree.ext (List.map_eq_nil_iff.mpr hnil)

/--
A tree of storable values is read back with its copy ids made as long as ids,
so as the tree itself exactly if they had that length.
-/
theorem tree_readBack (hser : P.SerializesTrees)
    (hsort : P.SortPermutes) (hsorts : P.SortsTotalOrders)
    (hcompare : P.ComparesEntries) (hempty : P.HashesEmptyTree)
    (hnames : B.AcceptsNames) (hstorable : Storable tree)
    (hsha : P.Sha1InjOn .tree (hashedTrees P tree))
    (hreg : s.isRepoRegistered repoId) (path path' : String) :
    ∃ id s', writeTree P repoId path tree s = (.ok id, s') ∧
      readTree B repoId path' id s' = (.ok (readBackTree tree), s') ∧
      (readBackTree tree = tree ↔ ∀ entry ∈ tree.entries, KeepsCopyId entry.2) := by
  by_cases hnil : tree.entries = []
  · refine ⟨_, s, writeTree_of_nil hnil path, ?_, readBackTree_eq_self_iff⟩
    rw [readTree_emptyTreeId, readBackTree_of_nil hnil]
  · obtain ⟨protos, id, hto, hhash, hid⟩ := treeHash_of_storable hser hsort hsorts
      hcompare hempty hnames hstorable hnil hsha
    refine ⟨id, _, (writeTree_eq_ok_iff hnil).mpr ⟨protos, hto, hreg, hhash, rfl⟩, ?_,
      readBackTree_eq_self_iff⟩
    exact readTree_putTree hnames hstorable.value hto hreg path' hid

theorem not_treeRoundTrips_of_copyId (hnames : B.AcceptsNames)
    (hvalues : ∀ entry ∈ tree.entries, StorableValue entry.2)
    {entry : Jj.RepoPathComponent × Jj.TreeValue} (hmem : entry ∈ tree.entries)
    (hcopy : ¬ KeepsCopyId entry.2) : ¬ TreeRoundTrips P B repoId tree s := by
  intro hroundTrips
  have hne : tree.entries ≠ [] := List.ne_nil_of_mem hmem
  obtain ⟨id, s', hwrite, hread⟩ := hroundTrips ""
  obtain ⟨protos, hto, hreg, -, rfl⟩ := (writeTree_eq_ok_iff hne).mp hwrite
  by_cases hid : id = emptyTreeIdBytes
  · rw [hid, readTree_emptyTreeId] at hread
    obtain rfl := Except.ok.inj (Prod.ext_iff.mp hread).1
    exact hne rfl
  · rw [readTree_putTree hnames hvalues hto hreg "" hid] at hread
    have hself := Except.ok.inj (Prod.ext_iff.mp hread).1
    exact hcopy (readBackTree_eq_self_iff.mp hself entry hmem)

/-- A tree of one file, with the copy id. -/
def oneFile (name : Jj.RepoPathComponent) (copyId : Jj.CopyId) : Jj.Tree where
  entries := [(name, .file (List.replicate 20 1) false copyId)]
  sorted := List.pairwise_singleton _ _

def plainName : Jj.RepoPathComponent := ⟨"file", by decide, by decide⟩

def nulName : Jj.RepoPathComponent := ⟨"\x00", by decide, by decide⟩

theorem storable_oneFile (copyId : Jj.CopyId) :
    Storable (oneFile plainName copyId) where
  value := List.forall_mem_singleton.mpr (List.length_replicate ..)
  name := List.forall_mem_singleton.mpr
    (by decide : '\x00' ∉ plainName.value.toList)

theorem oneFile_injOn (copyId : Jj.CopyId) :
    Platform.reference.Sha1InjOn .tree
      (hashedTrees .reference (oneFile plainName copyId)) := by
  have hgiven : hashedTrees .reference (oneFile plainName copyId) ⊆
      {[], copiedBuffer} := by
    rintro buf (rfl | ⟨protos, hto, hbuf⟩)
    · exact .inl rfl
    · obtain rfl := Except.ok.inj hto
      exact .inr (Option.some.inj (hbuf.symm.trans (treeBuffer_copiedFile copyId)))
  exact copiedBuffer_injOn hgiven

theorem tree_readBack_oneFile :
    ∃ id s', writeTree .reference "repo" "" (oneFile plainName [])
        (MemoryStore.new.registerRepo "repo") = (.ok id, s') ∧
      readTree .reference "repo" "" id s' =
        (.ok (readBackTree (oneFile plainName [])), s') ∧
      (readBackTree (oneFile plainName []) = oneFile plainName [] ↔
        ∀ entry ∈ (oneFile plainName []).entries, KeepsCopyId entry.2) :=
  tree_readBack Platform.reference_serializesTrees
    Platform.reference_sortPermutes Platform.reference_sortsTotalOrders
    Platform.reference_comparesEntries Platform.reference_hashesEmptyTree
    JjBackend.reference_acceptsNames (storable_oneFile []) (oneFile_injOn []) rfl "" ""

/--
A file with jj's placeholder for a copy id is read back with another one, and
the server panics on a name with a NUL.
-/
theorem oneFile_not_treeRoundTrips :
    ¬ TreeRoundTrips .reference .reference "repo" (oneFile plainName [])
        (MemoryStore.new.registerRepo "repo") ∧
      ¬ TreeRoundTrips .reference .reference "repo"
        (oneFile nulName rootCommitIdBytes)
        (MemoryStore.new.registerRepo "repo") := by
  constructor
  · exact not_treeRoundTrips_of_copyId JjBackend.reference_acceptsNames
      (storable_oneFile []).value (List.mem_singleton_self _)
      (by decide : ¬ [].length = 20)
  · intro hroundTrips
    obtain ⟨id, s', hwrite, -⟩ := hroundTrips ""
    obtain ⟨protos, hto, -, hhash, -⟩ :=
      (writeTree_eq_ok_iff (List.cons_ne_nil _ _)).mp hwrite
    obtain rfl := Except.ok.inj hto
    cases hhash

end CommitCloud.Client.Backend
