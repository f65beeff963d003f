import CommitCloud.Client.Backend
import CommitCloud.Client.OpStore
import CommitCloud.Foundation.Traversal
import CommitCloud.Server.CommitIds
import CommitCloud.Server.TreeIds

/-!
# What clients can decode

The server stores commits and trees as they are sent, and `jj` panics on lists
that make no merge and on entries that are out of order.  So what the server
answers can be decoded throughout a run exactly if the messages it was given
can be.
-/

namespace CommitCloud.Client

open Foundation CommitCloud.Server CommitCloud.Proto.Backend Backend

variable {P : Platform} {B : JjBackend} {s : MemoryStore} {requests : List Request}

/-! ## Commits -/

/-- The lists of the commit are ones that jj makes merges of. -/
structure DecodableCommit (commit : Commit) : Prop where
  rootTree : commit.rootTreeId.length % 2 = 1
  conflictLabels : commit.conflictLabels = [] ∨ commit.conflictLabels.length % 2 = 1

theorem commitFromProto_isSome_iff (hbuild : B.BuildsOdd) (hlabels : B.LabelsOdd)
    {commit : Commit} :
    (commitFromProto B commit).isSome ↔ DecodableCommit commit := by
  have hterms := hbuild commit.rootTreeId
  have hnamed := hlabels commit.conflictLabels
  unfold commitFromProto
  cases hroot : B.buildMerge commit.rootTreeId with
  | none =>
      rw [hroot] at hterms
      exact iff_of_false nofun fun h => nomatch hterms.mpr h.rootTree
  | some rootTree =>
      rw [hroot] at hterms
      cases hmade : B.labelsFromVec commit.conflictLabels with
      | none =>
          rw [hmade] at hnamed
          exact iff_of_false nofun fun h => nomatch hnamed.mpr h.conflictLabels
      | some labels =>
          rw [hmade] at hnamed
          exact iff_of_true rfl ⟨hterms.mp rfl, hnamed.mp rfl⟩

/-! ## Trees -/

/-- The value of an entry; a conflict is none. -/
def valueFromProto : TreeValue.Value → Option Jj.TreeValue
  | .file f => some (.file f.id f.executable (copyIdFromProto f.copyId))
  | .symlinkId id => some (.symlink id)
  | .treeId id => some (.tree id)
  | .conflictId _ => none

theorem treeEntryFromProto_eq_ok_iff {entry : TreeEntry}
    {decoded : Jj.RepoPathComponent × Jj.TreeValue} :
    treeEntryFromProto B entry = .ok decoded ↔
      B.newComponent entry.name = .ok decoded.1 ∧
        (entry.value.bind (·.value)).bind valueFromProto = some decoded.2 := by
  obtain ⟨name, value⟩ := entry
  obtain ⟨component, decodedValue⟩ := decoded
  cases hname : B.newComponent name with
  | error message =>
      simp only [treeEntryFromProto, hname]
      refine iff_of_false ?_ ?_
      · rintro ⟨⟩
      · rintro ⟨⟨⟩, -⟩
  | ok accepted =>
      rcases value with _ | ⟨_ | (file | id | id | id)⟩ <;>
        simp only [treeEntryFromProto, hname, valueFromProto]
      case ok.none | ok.some.none | ok.some.some.conflictId =>
        refine iff_of_false ?_ ?_
        · rintro ⟨⟩
        · rintro ⟨-, ⟨⟩⟩
      all_goals
        constructor
        · rintro ⟨⟩
          exact ⟨rfl, rfl⟩
        · rintro ⟨⟨⟩, ⟨⟩⟩
          rfl

/-- The entry has a name that jj accepts, and a value that is no conflict. -/
structure DecodableEntry (B : JjBackend) (entry : TreeEntry) : Prop where
  name : ∃ component, B.newComponent entry.name = .ok component
  value : ∃ value, entry.value.bind (·.value) = some value ∧
    ∀ id, value ≠ .conflictId id

theorem valueFromProto_eq_some_iff {value : TreeValue.Value} :
    (∃ decoded, valueFromProto value = some decoded) ↔ ∀ id, value ≠ .conflictId id := by
  cases value with
  | conflictId id => exact iff_of_false nofun fun h => h id rfl
  | _ => exact iff_of_true ⟨_, rfl⟩ nofun

theorem treeEntryFromProto_ok_iff {entry : TreeEntry} :
    (∃ decoded, treeEntryFromProto B entry = .ok decoded) ↔ DecodableEntry B entry := by
  constructor
  · rintro ⟨decoded, h⟩
    obtain ⟨hname, hvalue⟩ := treeEntryFromProto_eq_ok_iff.mp h
    obtain ⟨value, hinner, hvalue⟩ := Option.bind_eq_some_iff.mp hvalue
    exact ⟨⟨_, hname⟩, value, hinner, valueFromProto_eq_some_iff.mp ⟨_, hvalue⟩⟩
  · rintro ⟨⟨component, hname⟩, value, hinner, hplain⟩
    obtain ⟨decoded, hdecoded⟩ := valueFromProto_eq_some_iff.mpr hplain
    exact ⟨(component, decoded), treeEntryFromProto_eq_ok_iff.mpr
      ⟨hname, Option.bind_eq_some_iff.mpr ⟨value, hinner, hdecoded⟩⟩⟩

/-- Some entry is reported as malformed, or all stand in the order of their names. -/
def DecodableTree (B : JjBackend) (entries : List TreeEntry) : Prop :=
  (∀ entry ∈ entries, DecodableEntry B entry) →
    entries.Pairwise fun a b => a.name < b.name

theorem treeFromProto_ne_panicked_iff (hnames : B.KeepsNames) {entries : List TreeEntry} :
    treeFromProto B entries ≠ .error .panicked ↔ DecodableTree B entries := by
  have hentries : (∃ decoded, entries.mapM (treeEntryFromProto B) = .ok decoded) ↔
      ∀ entry ∈ entries, DecodableEntry B entry := by
    rw [exists_mapM_eq_ok_iff]
    exact forall₂_congr fun entry _ => treeEntryFromProto_ok_iff
  unfold treeFromProto
  cases hdecoded : entries.mapM (treeEntryFromProto B) with
  | error message =>
      refine iff_of_true ?_ fun hall => ?_
      · rintro ⟨⟩
      · obtain ⟨decoded, h⟩ := hentries.mpr hall
        cases hdecoded.symm.trans h
  | ok decoded =>
      have hsame : decoded.map (·.1.value) = entries.map (·.name) :=
        map_eq_of_mapM_eq_ok
          (fun _ _ h => hnames _ _ (treeEntryFromProto_eq_ok_iff.mp h).1) hdecoded
      have hsorted : (decoded.Pairwise fun a b => a.1.value < b.1.value) ↔
          entries.Pairwise fun a b => a.name < b.name := by
        rw [← List.pairwise_map (R := (· < ·)), hsame, List.pairwise_map]
      have hall := hentries.mp ⟨decoded, hdecoded⟩
      rw [DecodableTree, forall_prop_of_true hall, ← hsorted]
      simp only [Jj.Tree.fromSortedEntries]
      split
      next h =>
        refine iff_of_true ?_ h
        rintro ⟨⟩
      next h => exact iff_of_false (fun hne => hne rfl) h

/-! ## What the server answers -/

theorem server_readCommit_iff {repoId : RepoId} {id : CommitId} {commit : Commit} :
    (server P s (.readCommit ⟨repoId, id⟩)).1 = .ok (.readCommit ⟨some commit⟩) ↔
      s.isRepoRegistered repoId ∧ s.getCommit repoId id = some commit := by
  simp only [server, handle, Handler.call_map, BackendService.call_readCommit]
  cases s.isRepoRegistered repoId <;> cases s.getCommit repoId id <;> simp [unregistered]

/--
What the server answers a read with is decoded: without a panic, and a tree
into an error or into entries by strictly ascending names.
-/
structure AnswersDecode (J : JjLib) (P : Platform) (B : JjBackend)
    (s : MemoryStore) : Prop where
  commit : ∀ req commit,
    (server P s (.readCommit req)).1 = .ok (.readCommit ⟨some commit⟩) →
    (commitFromProto B commit).isSome
  tree : ∀ req id entries,
    (server P s (.readTree req)).1 = .ok (.readTree ⟨id, entries⟩) →
    treeFromProto B entries ≠ .error .panicked
  operation : ∀ T repoId id answer,
    (server P s (.readOperation ⟨repoId, id⟩)).1 = .ok answer →
    ∃ op, (OpStore.readOperation T repoId id s).1 = .ok op
  view : ∀ T repoId id answer,
    (server P s (.readView ⟨repoId, id⟩)).1 = .ok answer →
    ∃ view, (OpStore.readView J T repoId id s).1 = .ok view

theorem readOperation_decodes {T : OpStore.Transport} {repoId : RepoId} {id : OpId}
    {answer : Response}
    (h : (server P s (.readOperation ⟨repoId, id⟩)).1 = .ok answer) :
    ∃ op, (OpStore.readOperation T repoId id s).1 = .ok op := by
  simp only [server, handle, Handler.call_map, OpStoreService.call_readOperation] at h
  simp only [OpStore.readOperation, Session.rpc, remoteCall, OpStoreService.call_readOperation]
  by_cases hroot : id = rootOperationIdBytes <;> cases hreg : s.isRepoRegistered repoId <;>
    cases hget : s.getOperation repoId id <;> simp_all [unregistered]

theorem readView_decodes {J : JjLib} {T : OpStore.Transport} {repoId : RepoId}
    {id : ViewId} {answer : Response}
    (h : (server P s (.readView ⟨repoId, id⟩)).1 = .ok answer) :
    ∃ view, (OpStore.readView J T repoId id s).1 = .ok view := by
  simp only [server, handle, Handler.call_map, OpStoreService.call_readView] at h
  simp only [OpStore.readView, Session.rpc, remoteCall, OpStoreService.call_readView]
  by_cases hroot : id = rootViewIdBytes <;> cases hreg : s.isRepoRegistered repoId <;>
    cases hget : s.getView repoId id <;> simp_all [unregistered]

/-! ## Runs -/

/-- What a run stores of commits and trees can be decoded. -/
structure DecodableWrites (P : Platform) (B : JjBackend) (requests : List Request) :
    Prop where
  commit : ∀ repoId commit,
    Accepted P requests repoId (.writeCommit ⟨repoId, some commit⟩) →
    (BackendService.commitIdOf P commit).isSome → DecodableCommit commit
  tree : ∀ repoId path entries id,
    Accepted P requests repoId (.writeTree ⟨repoId, path, entries⟩) →
    computeGitTreeHash P entries = some id → id ≠ emptyTreeIdBytes →
    DecodableTree B entries

theorem commits_decode_iff (hbuild : B.BuildsOdd) (hlabels : B.LabelsOdd) :
    (∀ before, before <+: requests → ∀ req commit,
        (server P ((server P).finalState MemoryStore.new before) (.readCommit req)).1 =
          .ok (.readCommit ⟨some commit⟩) →
        (commitFromProto B commit).isSome) ↔
      ∀ repoId commit,
        Accepted P requests repoId (.writeCommit ⟨repoId, some commit⟩) →
        (BackendService.commitIdOf P commit).isSome → DecodableCommit commit := by
  calc (∀ before, before <+: requests → ∀ req commit,
        (server P ((server P).finalState MemoryStore.new before) (.readCommit req)).1 =
          .ok (.readCommit ⟨some commit⟩) →
        (commitFromProto B commit).isSome)
      ↔ ∀ before, before <+: requests → ∀ (key : RepoId × CommitId) commit,
          ((server P).finalState MemoryStore.new before).getCommit key.1 key.2 =
            some commit → DecodableCommit commit := by
        refine forall₂_congr fun before _ => ⟨fun h key commit hstored => ?_,
          fun h req commit hanswer => ?_⟩
        · have hreg := registered_of_stored filled_commits
            (fun hstep hwrote => by
              obtain ⟨commit, -, hreg, -⟩ := hstep.wroteCommit hwrote
              exact hreg) (fun _ => rfl) hstored
          exact (commitFromProto_isSome_iff hbuild hlabels).mp
            (h ⟨key.1, key.2⟩ commit (server_readCommit_iff.mpr ⟨hreg, hstored⟩))
        · exact (commitFromProto_isSome_iff hbuild hlabels).mpr
            (h (req.repoId, req.commitId) commit (server_readCommit_iff.mp hanswer).2)
    _ ↔ ∀ (key : RepoId × CommitId) commit, Written WroteCommit
          ((server P).trace MemoryStore.new requests) key commit →
          DecodableCommit commit :=
        filled_commits.forall_stored_iff (fun _ => rfl) requests
    _ ↔ _ := by
        constructor
        · intro h repoId commit haccepted hsome
          obtain ⟨id, hid⟩ := Option.isSome_iff_exists.mp hsome
          obtain ⟨hroot, hlabels⟩ :=
            h (repoId, id) _ (writtenCommit_iff.mpr ⟨commit, haccepted, hid, rfl⟩)
          exact ⟨hroot, hlabels⟩
        · rintro h ⟨repoId, id⟩ stored hwritten
          obtain ⟨commit, haccepted, hid, rfl⟩ := writtenCommit_iff.mp hwritten
          obtain ⟨hroot, hlabels⟩ := h repoId commit haccepted (by simp [hid])
          exact ⟨hroot, hlabels⟩

theorem trees_decode_iff (hnames : B.KeepsNames) :
    (∀ before, before <+: requests → ∀ req id entries,
        (server P ((server P).finalState MemoryStore.new before) (.readTree req)).1 =
          .ok (.readTree ⟨id, entries⟩) →
        treeFromProto B entries ≠ .error .panicked) ↔
      ∀ repoId path entries id,
        Accepted P requests repoId (.writeTree ⟨repoId, path, entries⟩) →
        computeGitTreeHash P entries = some id → id ≠ emptyTreeIdBytes →
        DecodableTree B entries := by
  calc (∀ before, before <+: requests → ∀ req id entries,
        (server P ((server P).finalState MemoryStore.new before) (.readTree req)).1 =
          .ok (.readTree ⟨id, entries⟩) →
        treeFromProto B entries ≠ .error .panicked)
      ↔ ∀ before, before <+: requests → ∀ (key : RepoId × TreeId) entries,
          ((server P).finalState MemoryStore.new before).getTree key.1 key.2 =
            some entries → key.2 ≠ emptyTreeIdBytes → DecodableTree B entries := by
        refine forall₂_congr fun before _ => ⟨fun h key entries hstored hne => ?_,
          fun h req id entries hanswer => ?_⟩
        · have hreg := registered_of_stored filled_trees
            (fun hstep hwrote => by
              obtain ⟨path, -, hreg, -⟩ := hstep.wroteTree hwrote
              exact hreg) (fun _ => rfl) hstored
          refine (treeFromProto_ne_panicked_iff hnames).mp
            (h ⟨key.1, key.2, ""⟩ key.2 entries (server_readTree_iff.mpr ⟨hreg, rfl, ?_⟩))
          rwa [if_neg hne]
        · refine (treeFromProto_ne_panicked_iff hnames).mpr ?_
          obtain ⟨-, -, hstored⟩ := server_readTree_iff.mp hanswer
          split at hstored
          next =>
            subst hstored
            exact fun _ => .nil
          next hne => exact h (req.repoId, req.treeId) entries hstored hne
    _ ↔ ∀ (key : RepoId × TreeId) entries, Written WroteTree
          ((server P).trace MemoryStore.new requests) key entries →
          key.2 ≠ emptyTreeIdBytes → DecodableTree B entries :=
        filled_trees.forall_stored_iff (fun _ => rfl) requests
    _ ↔ _ := by
        constructor
        · intro h repoId path entries id haccepted hid
          exact h (repoId, id) entries (writtenTree_iff.mpr ⟨path, haccepted, hid⟩)
        · rintro h ⟨repoId, id⟩ entries hwritten
          obtain ⟨path, haccepted, hid⟩ := writtenTree_iff.mp hwritten
          exact h repoId path entries id haccepted hid

/-- Every answer of a run is decoded exactly if every message it stores can be. -/
theorem answersDecode_iff (hbuild : B.BuildsOdd) (hlabels : B.LabelsOdd)
    (hnames : B.KeepsNames) (J : JjLib) (requests : List Request) :
    (∀ before, before <+: requests →
        AnswersDecode J P B ((server P).finalState MemoryStore.new before)) ↔
      DecodableWrites P B requests := by
  constructor
  · intro h
    exact ⟨(commits_decode_iff hbuild hlabels).mp fun before hbefore =>
        (h before hbefore).commit,
      (trees_decode_iff hnames).mp fun before hbefore => (h before hbefore).tree⟩
  · rintro ⟨hcommits, htrees⟩ before hbefore
    exact {
      commit := (commits_decode_iff hbuild hlabels).mpr hcommits before hbefore
      tree := (trees_decode_iff hnames).mpr htrees before hbefore
      operation := fun _ _ _ _ => readOperation_decodes
      view := fun _ _ _ _ => readView_decodes }

def symlinkEntry (name : String) : TreeEntry where
  name := name
  value := some ⟨some (.symlinkId (List.replicate 20 1))⟩

/-- The writes of a commit and of a tree with two symbolic links. -/
def decodableRun : List Request :=
  [.registerRepository {} "repo",
    .writeCommit ⟨"repo", some { rootTreeId := [[1]] }⟩,
    .writeTree ⟨"repo", "", [symlinkEntry "a", symlinkEntry "b"]⟩]

theorem answersDecode_iff_decodableRun :
    AnswersDecode .reference .reference .reference
      ((server .reference).finalState MemoryStore.new decodableRun) := by
  refine (answersDecode_iff JjBackend.reference_buildsOdd JjBackend.reference_labelsOdd
    JjBackend.reference_keepsNames .reference decodableRun).mpr ⟨?_, ?_⟩ decodableRun
    (List.prefix_refl decodableRun)
  · intro repoId commit haccepted _
    have hmem := haccepted.mem
    simp only [decodableRun, List.mem_cons, reduceCtorEq, false_or, Request.writeCommit.injEq,
      WriteCommitRequest.mk.injEq, Option.some.injEq, List.not_mem_nil, or_false] at hmem
    obtain ⟨-, rfl⟩ := hmem
    exact ⟨rfl, .inl rfl⟩
  · intro repoId path entries id haccepted _ _ _
    have hmem := haccepted.mem
    simp only [decodableRun, List.mem_cons, reduceCtorEq, false_or, Request.writeTree.injEq,
      WriteTreeRequest.mk.injEq, List.not_mem_nil, or_false] at hmem
    obtain ⟨-, -, rfl⟩ := hmem
    decide

/-- The write of a commit without a tree, in a registered repository. -/
def treelessRun : List Request :=
  [.registerRepository {} "repo", .writeCommit ⟨"repo", some {}⟩]

/-- The write of a tree whose entries are out of order. -/
def unorderedRun : List Request :=
  [.registerRepository {} "repo",
    .writeTree ⟨"repo", "", [symlinkEntry "b", symlinkEntry "a"]⟩]

/-- The server takes both writes, and the client panics on what it reads. -/
theorem answersDecode_fails :
    (¬ ∀ before, before <+: treelessRun →
        AnswersDecode .reference .reference .reference
          ((server .reference).finalState MemoryStore.new before)) ∧
      ¬ ∀ before, before <+: unorderedRun →
        AnswersDecode .reference .reference .reference
          ((server .reference).finalState MemoryStore.new before) := by
  constructor
  · intro h
    have hcommits := (commits_decode_iff JjBackend.reference_buildsOdd
      JjBackend.reference_labelsOdd).mp fun before hbefore => (h before hbefore).commit
    have hdecodable := hcommits "repo" {}
      (Accepted.of_registered [] [] (List.prefix_refl treelessRun)) (by decide +kernel)
    exact absurd hdecodable.rootTree (by decide)
  · intro h
    have htrees := (trees_decode_iff JjBackend.reference_keepsNames).mp
      fun before hbefore => (h before hbefore).tree
    obtain ⟨id, hid⟩ : ∃ id, computeGitTreeHash .reference
        [symlinkEntry "b", symlinkEntry "a"] = some id :=
      Option.isSome_iff_exists.mp (by decide)
    have hne : computeGitTreeHash .reference [symlinkEntry "b", symlinkEntry "a"] ≠
        some emptyTreeIdBytes := by decide +kernel
    have hdecodable := htrees "repo" "" _ id
      (Accepted.of_registered [] [] (List.prefix_refl unorderedRun)) hid
      fun hempty => hne (hempty ▸ hid)
    have hentries : ∀ entry ∈ [symlinkEntry "b", symlinkEntry "a"],
        DecodableEntry .reference entry := by
      simp only [List.forall_mem_cons]
      exact ⟨⟨⟨_, rfl⟩, _, rfl, nofun⟩, ⟨⟨_, rfl⟩, _, rfl, nofun⟩, nofun⟩
    exact absurd (hdecodable hentries) (by decide)

end CommitCloud.Client
