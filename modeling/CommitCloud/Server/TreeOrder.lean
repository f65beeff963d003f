import CommitCloud.Server.WriteHandlers

/-!
# The canonical order of a tree

Whatever order the entries of a tree are sent in, the server serializes the
ones that Git keeps by their names, where the name of a subtree ends in a
slash.  So the order in which they are sent does not change the tree's id.
-/

namespace CommitCloud.Server

open Foundation CommitCloud.Proto.Backend

variable {P : Platform} {entries entries' : List TreeEntry}

/-- Names that a directory can have: distinct, without slash and NUL. -/
structure DirectoryNames (entries : List TreeEntry) : Prop where
  distinct : entries.Pairwise fun a b => a.name ≠ b.name
  noSlash : ∀ entry ∈ entries, '/' ∉ entry.name.toList
  noNul : ∀ entry ∈ entries, '\x00' ∉ entry.name.toList

namespace DirectoryNames

theorem perm (h : DirectoryNames entries) (hperm : entries.Perm entries') :
    DirectoryNames entries' where
  distinct := (hperm.pairwise_iff Ne.symm).mp h.distinct
  noSlash entry hentry := h.noSlash entry (hperm.mem_iff.mpr hentry)
  noNul entry hentry := h.noNul entry (hperm.mem_iff.mpr hentry)

theorem filenames_distinct (h : DirectoryNames entries) :
    (gitEntries entries).Pairwise fun a b => a.filename ≠ b.filename := by
  refine h.distinct.filterMap gitEntry fun entry entry' hne git hgit git' hgit' => ?_
  obtain ⟨-, rfl⟩ := gitEntry_eq_some_iff.mp hgit
  obtain ⟨-, rfl⟩ := gitEntry_eq_some_iff.mp hgit'
  exact utf8_injective.ne hne

end DirectoryNames

/-- The entries that Git keeps, by their names with a slash after a subtree's. -/
structure CanonicalOrder (entries : List TreeEntry) (sorted : List Gix.Entry) : Prop where
  kept : sorted.Perm (gitEntries entries)
  ascending : sorted.Pairwise fun a b => a.sortKey < b.sortKey

theorem CanonicalOrder.perm {sorted : List Gix.Entry} (h : CanonicalOrder entries sorted)
    (hperm : entries.Perm entries') : CanonicalOrder entries' sorted where
  kept := h.kept.trans (hperm.filterMap gitEntry)
  ascending := h.ascending

/-- There is one canonical order. -/
theorem CanonicalOrder.unique {sorted sorted' : List Gix.Entry}
    (h : CanonicalOrder entries sorted) (h' : CanonicalOrder entries sorted') :
    sorted = sorted' :=
  eq_of_perm_of_strict (h.kept.trans h'.kept.symm) (fun _ _ hlt => List.lt_asymm hlt)
    h.ascending h'.ascending

/-- A list that Git's comparison puts in order is in canonical order. -/
theorem canonicalOrder_of_sorted (h : DirectoryNames entries) {sorted : List Gix.Entry}
    (hkept : sorted.Perm (gitEntries entries))
    (hsorted : sorted.Pairwise fun a b => a.compare b ≠ .gt) :
    CanonicalOrder entries sorted where
  kept := hkept
  ascending := by
    have hslash : ∀ git ∈ sorted, (47 : UInt8) ∉ git.filename := fun git hgit =>
      notMem_filename (c := '/') (by decide) h.noSlash git (hkept.mem_iff.mp hgit)
    have hdistinct : sorted.Pairwise fun a b => a.filename ≠ b.filename :=
      (hkept.pairwise_iff Ne.symm).mpr h.filenames_distinct
    refine (hsorted.and hdistinct).imp_of_mem ?_
    rintro a b ha hb ⟨hle, hne⟩
    rw [Gix.Entry.compare_eq_cmp_sortKey (hslash a ha) (hslash b hb), Ne,
      Gix.cmp_list_gt_iff, not_lt] at hle
    refine lt_of_le_of_ne hle fun hkey => hne ?_
    exact Gix.Entry.filename_eq_of_sortKey (hslash a ha) (hslash b hb) hkey

theorem treeBuffer_canonical (hser : P.SerializesTrees) (hsort : P.SortPermutes)
    (hsorts : P.SortsTotalOrders) (hcompare : P.ComparesEntries)
    (h : DirectoryNames entries) : ∃ sorted, CanonicalOrder entries sorted ∧
      treeBuffer P entries = some (sorted.flatMap Gix.Entry.serialize) := by
  have htotal := Gix.Entry.totalOn_compare
    (notMem_filename (c := '/') (by decide) h.noSlash)
  obtain ⟨sorted, hsorted, hascending⟩ := hsorts P.compareEntries (gitEntries entries)
    (hcompare ▸ htotal)
  have hkept := hsort _ _ _ hsorted
  refine ⟨sorted, canonicalOrder_of_sorted h hkept (hcompare ▸ hascending), ?_⟩
  have hnul : ∀ git ∈ sorted, (0 : UInt8) ∉ git.filename := fun git hgit =>
    notMem_filename (c := '\x00') (by decide) h.noNul git (hkept.mem_iff.mp hgit)
  exact (treeBuffer_eq_some_iff hser).mpr
    ⟨sorted, hsorted, ⟨fun _ => hser.entriesSorted sorted hascending, hnul⟩, rfl⟩

/--
A tree is serialized in canonical order, so that its id does not depend on the
order in which its entries are sent.
-/
theorem treeHash_canonical (hser : P.SerializesTrees) (hsort : P.SortPermutes)
    (hsorts : P.SortsTotalOrders) (hcompare : P.ComparesEntries)
    (h : DirectoryNames entries) :
    (∃ sorted, CanonicalOrder entries sorted ∧
      treeBuffer P entries = some (sorted.flatMap Gix.Entry.serialize)) ∧
    (∃ id, ∀ entries', entries.Perm entries' →
      computeGitTreeHash P entries' = some id) := by
  obtain ⟨sorted, hcanonical, hbuffer⟩ := treeBuffer_canonical hser hsort hsorts
    hcompare h
  refine ⟨⟨sorted, hcanonical, hbuffer⟩,
    (P.computeHash .tree (sorted.flatMap Gix.Entry.serialize)).bytes,
    fun entries' hperm => ?_⟩
  obtain ⟨sorted', hcanonical', hbuffer'⟩ := treeBuffer_canonical hser hsort hsorts
    hcompare (h.perm hperm)
  obtain rfl := (hcanonical.perm hperm).unique hcanonical'
  rw [computeGitTreeHash, hbuffer', Option.map_some]

/-- A file, and a directory whose name starts with the file's. -/
def fileAndDirectory : List TreeEntry :=
  [{ name := "a.b", value := some ⟨some (.file { id := List.replicate 20 1 })⟩ },
    { name := "a", value := some ⟨some (.treeId (List.replicate 20 2))⟩ },
    { name := "a-b" }]

theorem treeHash_canonical_fileAndDirectory :
    (∃ sorted, CanonicalOrder fileAndDirectory sorted ∧
      treeBuffer .reference fileAndDirectory =
        some (sorted.flatMap Gix.Entry.serialize)) ∧
    (∃ id, ∀ entries', fileAndDirectory.Perm entries' →
      computeGitTreeHash .reference entries' = some id) :=
  treeHash_canonical Platform.reference_serializesTrees Platform.reference_sortPermutes
    Platform.reference_sortsTotalOrders Platform.reference_comparesEntries
    ⟨by decide, by decide, by decide⟩

end CommitCloud.Server
