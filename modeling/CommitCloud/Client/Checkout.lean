import CommitCloud.Client.ReadHistory
import CommitCloud.Foundation.ClosedStore

/-!
# Checking out what the heads name

Operations name operations and views, views name commits, commits name commits
and trees, and trees name trees and files.  When clients write and publish only
what names ids that some client was told before, whatever can be reached from
the heads can be read, down to the files.
-/

namespace CommitCloud.Client

open Foundation CommitCloud.Server Backend OpStore

variable {J : JjLib} {P : Platform} {B : JjBackend}

/-- An object of some repository. -/
abbrev Reference := Kind × Bytes

abbrev Key.within (repoId : RepoId) (ref : Reference) : Key := ⟨ref.1, repoId, ref.2⟩

section References

variable (J)

def targetReferences (target : J.RefTarget) : List Reference :=
  (J.addedIds target).map fun id => (.commit, id)

/-- Symbolic links are not stored. -/
def entryReference : Jj.TreeValue → Option Reference
  | .file id _ _ => some (.file, id)
  | .tree id => some (.tree, id)
  | _ => none

variable {J}

/-- The objects that the value needs; predecessors need not exist. -/
def Value.references : Value J → List Reference
  | .file _ => []
  | .tree value => value.entries.filterMap fun entry => entryReference entry.2
  | .commit value =>
      value.parents.map (fun id => (.commit, id)) ++
        value.rootTree.values.map fun id => (.tree, id)
  | .view value =>
      value.headIds.elements.map (fun id => (.commit, id)) ++
        value.wcCommitIds.entries.map (fun entry => (.commit, entry.2)) ++
        value.localBookmarks.entries.flatMap (fun entry => targetReferences J entry.2) ++
        value.remoteViews.entries.flatMap fun remote =>
          remote.2.bookmarks.entries.flatMap fun entry => targetReferences J entry.2.target
  | .operation value =>
      (.view, value.viewId) :: value.parents.map fun id => (.operation, id)

end References

theorem Value.Equiv.mem_references {v w : Value J} (h : v.Equiv w) {ref : Reference} :
    ref ∈ v.references ↔ ref ∈ w.references := by
  cases h with
  | @view view view' h =>
      obtain ⟨headIds, wc, bookmarks, tags, remotes, refs, gitHead⟩ := view
      obtain ⟨headIds', wc', bookmarks', tags', remotes', refs', gitHead'⟩ := view'
      obtain ⟨hheads, rfl, rfl, rfl, rfl, rfl, rfl⟩ := h
      simp only [Value.references, List.mem_append, List.mem_map, hheads.perm.mem_iff]
  | operation h =>
      simp only [Value.references, h.viewId, h.parents]
  | _ => rfl

/-! ## What can be read in a repository -/

variable (B) in
/-- What a read of the object gives in a repository that exists. -/
def visible (c : Cloud J) (repoId : RepoId) (ref : Reference) : Option (Value J) :=
  (builtIn J B (.within repoId ref)).or (c.readable (.within repoId ref))

/-- The references of a repository hold, and so do those of its heads. -/
structure References (B : JjBackend) (c : Cloud J) (repoId : RepoId) : Prop where
  closed : ClosedStore (visible B c repoId) Value.references
  heads : ∀ id ∈ c.heads repoId, (visible B c repoId (.operation, id)).isSome

/-- The command names only what can be read. -/
def Command.NamesReadable (B : JjBackend) (c : Cloud J) : Command J → Prop
  | .write repoId v => ∀ ref ∈ v.readBack.references, (visible B c repoId ref).isSome
  | .publish repoId _ newId => (visible B c repoId (.operation, newId)).isSome
  | _ => True

theorem builtIn_references (hroot : B.RootIsBare) {key : Key} {v : Value J}
    (h : builtIn J B key = some v) {ref : Reference} (href : ref ∈ v.references) :
    ref = (.tree, emptyTreeIdBytes) := by
  unfold builtIn at h
  split at h
  · split at h
    · obtain rfl := Option.some.inj h
      obtain ⟨hparents, htree⟩ := hroot rootChangeIdBytes emptyTreeIdBytes
      simpa [Value.references, hparents, htree, Jj.Merge.resolved] using href
    · cases h
  · split at h
    · obtain rfl := Option.some.inj h
      cases href
    · cases h
  · cases h

theorem rootValue_references (key : Key) {v : Value J} (h : rootValue J key = some v)
    {ref : Reference} (href : ref ∈ v.references) :
    ref = (.view, rootViewIdBytes) ∨ ref = (.commit, rootCommitIdBytes) := by
  unfold rootValue at h
  split at h
  · split at h
    · obtain rfl := Option.some.inj h
      exact .inl (List.mem_singleton.mp href)
    · cases h
  · split at h
    · obtain rfl := Option.some.inj h
      exact .inr (List.mem_singleton.mp href)
    · cases h
  · cases h

theorem references_new (hroot : B.RootIsBare) (repoId : RepoId) :
    References B (Cloud.new : Cloud J) repoId where
  closed := by
    intro ref v hvisible ref' href
    rcases Option.or_eq_some_iff.mp hvisible with hknown | ⟨-, hstored⟩
    · rw [builtIn_references hroot hknown href]
      rfl
    · rcases rootValue_references (.within repoId ref) hstored href with rfl | rfl
      · rfl
      · rfl
  heads id hid := by
    obtain rfl := List.mem_singleton.mp hid
    rfl

section Steps

variable {c c' : Cloud J} {command : Command J} {answer : CloudAnswer J} {repoId : RepoId}

theorem grows_put {key : Key} {v : Value J}
    (hnames : ∀ ref ∈ v.readBack.references, (visible B c key.repoId ref).isSome) :
    ClosedStore.Grows (visible B c repoId) (visible B (c.put key v) repoId)
      Value.references := by
  intro ref
  by_cases hkey : Key.within repoId ref = key
  · subst hkey
    rw [visible, visible, Cloud.readable_put_self]
    cases builtIn J B (.within repoId ref) with
    | some value => exact .inl rfl
    | none => exact .inr ⟨v.readBack, rfl, hnames⟩
  · rw [visible, visible, Cloud.readable_put_of_ne c hkey]
    exact .inl rfl

theorem CloudStep.grows (h : CloudStep P c command answer c')
    (hnames : command.NamesReadable B c) :
    ClosedStore.Grows (visible B c repoId) (visible B c' repoId) Value.references := by
  cases h with
  | written repoId' v id => exact grows_put hnames
  | _ => exact fun ref => .inl rfl

theorem CloudStep.references (h : CloudStep P c command answer c')
    (hnames : command.NamesReadable B c) (hrefs : References B c repoId) :
    References B c' repoId where
  closed := hrefs.closed.grow (h.grows hnames)
  heads id hid := by
    apply (h.grows hnames).isSome
    cases h with
    | published repoId' oldIds newId =>
        by_cases hrepo : repoId = repoId'
        · subst hrepo
          rw [Cloud.heads_publish_self] at hid
          rcases mem_updateHeads hid with hid | rfl
          · exact hrefs.heads id hid
          · exact hnames
        · rw [Cloud.heads_publish_of_ne c hrepo] at hid
          exact hrefs.heads id hid
    | _ => exact hrefs.heads id hid

end Steps

/-! ## Runs that name only what was told -/

/-- A client knows the id, or was told it. -/
def Known (B : JjBackend) (past : List (Call J × Outcome J)) (key : Key) : Prop :=
  (builtIn J B key).isSome ∨ (rootValue J key).isSome ∨ ∃ v, Written Wrote past key v

/-- What is written, as it is read back, and what is published name known ids. -/
def Command.NamesKnown (B : JjBackend) (past : List (Call J × Outcome J)) :
    Command J → Prop
  | .write repoId v => ∀ ref ∈ v.readBack.references, Known B past (.within repoId ref)
  | .publish repoId _ newId => Known B past (.within repoId (.operation, newId))
  | _ => True

theorem visible_of_known (hkeeps : KeepsValues B) {calls : List (Call J)}
    {repoId : RepoId} {ref : Reference}
    (h : Known B ((clients J P B).trace MemoryStore.new calls) (.within repoId ref)) :
    (visible B ((cloud J P B).finalState Cloud.new (calls.map Call.command)) repoId
      ref).isSome := by
  rw [visible, Option.isSome_or, Cloud.readable, Option.isSome_or]
  rcases h with hbuiltIn | hroot | ⟨v, hwritten⟩
  · simp [hbuiltIn]
  · simp [hroot]
  · obtain ⟨v', hlast⟩ := hwritten.exists_last
    simp [(lastWritten_iff_object hkeeps calls _ v').mp hlast]

theorem Command.NamesKnown.readable (hkeeps : KeepsValues B) {calls : List (Call J)}
    {command : Command J}
    (h : command.NamesKnown B ((clients J P B).trace MemoryStore.new calls)) :
    command.NamesReadable B
      ((cloud J P B).finalState Cloud.new (calls.map Call.command)) := by
  cases command with
  | write repoId v => exact fun ref href => visible_of_known hkeeps (h ref href)
  | publish repoId oldIds newId => exact visible_of_known hkeeps h
  | _ => trivial

theorem references_of_known (hkeeps : KeepsValues B) (hroot : B.RootIsBare)
    {calls : List (Call J)}
    (hrun : ∀ before call, before ++ [call] <+: calls →
      call.command.NamesKnown B ((clients J P B).trace MemoryStore.new before))
    (repoId : RepoId) :
    References B ((cloud J P B).finalState Cloud.new (calls.map Call.command)) repoId := by
  rw [← Reactive.comap_finalState]
  refine Reactive.invariant_along _ (I := fun c => References B c repoId)
    (references_new hroot repoId) (fun before call hinitial h => ?_) List.prefix_rfl
  have hnames := (hrun before call hinitial).readable hkeeps
  rw [Reactive.comap_finalState] at h ⊢
  exact (cloud_step _ call.command).references hnames h

/-! ## Checkouts -/

section Checkout

variable (P B) (s : MemoryStore) (repoId : RepoId)

/-- Some read of the object gives the value. -/
def Gives (ref : Reference) (v : Value J) : Prop :=
  ∃ read : Call J, read.command = .read (.within repoId ref) ∧
    (clients J P B s read).1.answer = some (.ok (.value v))

variable (J) in
/-- The second object is named by the first one, as it is read. -/
def ReadRefers (ref ref' : Reference) : Prop :=
  ∃ v : Value J, Gives P B s repoId ref v ∧ ref' ∈ v.references

variable (J) in
/-- Everything that is reached from the object is given by every read. -/
def CheckedOut (ref : Reference) : Prop :=
  ∀ ref', Relation.ReflTransGen (ReadRefers J P B s repoId) ref ref' →
    ∀ read : Call J, read.command = .read (.within repoId ref') →
      ∃ v, (clients J P B s read).1.answer = some (.ok (.value v))

end Checkout

section Reads

variable {s : MemoryStore} {c : Cloud J} {repoId : RepoId} {ref : Reference}

theorem cloud_read_visible (hreg : c.registered repoId) :
    (cloud J P B c (.read (.within repoId ref))).1 =
      (visible B c repoId ref).elim (.error .notFound) (.ok ∘ .value) := by
  rw [visible]
  cases hbuiltIn : builtIn J B (.within repoId ref) with
  | some v => rw [cloud_read_builtIn hbuiltIn, Option.some_or, Option.elim_some]; rfl
  | none => rw [cloud_read_registered hbuiltIn hreg, Option.none_or]

theorem tells_visible (hkeeps : KeepsValues B) (hrepresents : Represents s c)
    (hreg : c.registered repoId) {read : Call J}
    (hread : read.command = .read (.within repoId ref)) :
    Tells (clients J P B s read).1
      ((visible B c repoId ref).elim (.error .notFound) (.ok ∘ .value)) := by
  have hmatches := clients_matches_cloud (P := P) hkeeps hrepresents read
  rw [hread] at hmatches
  rw [← cloud_read_visible (P := P) hreg]
  exact hmatches.1

theorem ReadRefers.refers (hkeeps : KeepsValues B) (hrepresents : Represents s c)
    (hreg : c.registered repoId) {ref' : Reference}
    (h : ReadRefers J P B s repoId ref ref') :
    Refers (visible B c repoId) Value.references ref ref' := by
  obtain ⟨v, ⟨read, hread, hanswer⟩, href⟩ := h
  obtain ⟨told, htold, hsame⟩ := tells_visible (P := P) hkeeps hrepresents hreg hread
  obtain rfl := Option.some.inj (hanswer.symm.trans htold)
  cases hvisible : visible B c repoId ref with
  | none =>
      rw [hvisible] at hsame
      cases hsame
  | some v' =>
      rw [hvisible] at hsame
      exact ⟨v', hvisible, hsame.equiv.mem_references.mp href⟩

theorem checkedOut_of_visible (hkeeps : KeepsValues B) (hrepresents : Represents s c)
    (hreg : c.registered repoId) (hrefs : References B c repoId)
    (hvisible : (visible B c repoId ref).isSome) :
    CheckedOut J P B s repoId ref := by
  intro ref' hreached read hread
  have hreached' := Relation.ReflTransGen.mono
    (fun _ _ h => h.refers hkeeps hrepresents hreg) _ _ hreached
  obtain ⟨v, hv⟩ := Option.isSome_iff_exists.mp
    (hrefs.closed.isSome_of_reached hvisible hreached')
  have htells := tells_visible (P := P) hkeeps hrepresents hreg hread
  rw [hv] at htells
  obtain ⟨value, hanswer, -⟩ := htells.exists_value
  exact ⟨value, hanswer⟩

end Reads

/--
From the heads that a client is told, and from every id that a client knows or
was told, whatever is reached can be read.
-/
structure CheckoutComplete (J : JjLib) (P : Platform) (B : JjBackend)
    (calls : List (Call J)) (repoId : RepoId) : Prop where
  heads : ∃ heads, (clients J P B ((clients J P B).finalState MemoryStore.new calls)
      (.getOpHeads repoId)).1.answer = some (.ok (.heads heads)) ∧
    ∀ id ∈ heads, CheckedOut J P B ((clients J P B).finalState MemoryStore.new calls)
      repoId (.operation, id)
  known : ∀ ref, Known B ((clients J P B).trace MemoryStore.new calls)
      (.within repoId ref) →
    CheckedOut J P B ((clients J P B).finalState MemoryStore.new calls) repoId ref

theorem checkoutComplete (hkeeps : KeepsValues B) (hroot : B.RootIsBare)
    {calls : List (Call J)} {repoId : RepoId}
    (hrun : ∀ before call, before ++ [call] <+: calls →
      call.command.NamesKnown B ((clients J P B).trace MemoryStore.new before))
    (hcreated : .create repoId ∈ calls.map Call.command) :
    CheckoutComplete J P B calls repoId := by
  have hrepresents := represents_finalState (J := J) (P := P) hkeeps calls
  have hreg := (registered_cloud_iff (P := P) (B := B) _ repoId).mpr hcreated
  have hrefs := references_of_known hkeeps hroot hrun repoId
  constructor
  · have hmatches := clients_matches_cloud (P := P) hkeeps hrepresents (.getOpHeads repoId)
    simp only [Call.command, cloud, hreg, if_true] at hmatches
    exact ⟨_, hmatches.1.answer_eq (by simp), fun id hid =>
      checkedOut_of_visible hkeeps hrepresents hreg hrefs (hrefs.heads id hid)⟩
  · exact fun ref hknown => checkedOut_of_visible hkeeps hrepresents hreg hrefs
      (visible_of_known hkeeps hknown)

def storedBlob : FileId := computeGitBlobHash .reference [1]

def blobTree : Jj.Tree where
  entries := [(plainName, .file storedBlob false [])]
  sorted := List.pairwise_singleton _ _

/-- A file, a tree that names it, and a commit on the root commit. -/
def smallCheckout : List (Call .reference) :=
  [.init "repo", .writeFile "repo" [1], .writeTree "repo" "" blobTree,
    .writeCommit "repo" { conflictedCommit "author" with
      parents := [rootCommitIdBytes]
      rootTree := .resolved emptyTreeIdBytes } none,
    .updateOpHeads "repo" [] rootOperationIdBytes]

theorem checkoutComplete_small :
    CheckoutComplete .reference .reference .reference smallCheckout "repo" := by
  refine checkoutComplete reference_keepsValues JjBackend.reference_rootIsBare ?_
    (by simp [smallCheckout, Call.command])
  simp only [smallCheckout, Reactive.forall_initial_cons_iff]
  refine ⟨trivial, nofun, ?_, ?_, .inr (.inl rfl), ?_⟩
  · intro ref href
    obtain rfl : ref = (.file, storedBlob) := List.mem_singleton.mp href
    exact .inr (.inr ⟨.file [1], _, List.mem_cons_of_mem _ List.mem_cons_self, rfl, rfl, rfl,
      rfl⟩)
  · intro ref href
    obtain rfl | rfl : ref = (.commit, rootCommitIdBytes) ∨ ref = (.tree, emptyTreeIdBytes) := by
      simpa [Value.readBack, Value.references, Backend.readBack, Jj.Merge.resolved] using href
    · exact .inl rfl
    · exact .inl rfl
  · intro before call hinitial
    simp at hinitial

end CommitCloud.Client
