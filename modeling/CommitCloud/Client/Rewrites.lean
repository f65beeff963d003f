import CommitCloud.Client.ReadHistory

/-!
# Rewriting what was read

A value that was read is written back under the id it was read under, and no
client can tell afterwards: what is lost of a value is lost when it is first
read, and takes no part in its id.
-/

namespace CommitCloud.Client

open Foundation CommitCloud.Server Backend OpStore

variable {J : JjLib} {P : Platform} {B : JjBackend}

/-! ## Trees without their copy ids -/

theorem treeEntryToProto_readBack {entry : Jj.RepoPathComponent × Jj.TreeValue}
    {proto : Proto.Backend.TreeEntry} (h : treeEntryToProto entry = .ok proto) :
    ∃ proto', treeEntryToProto (readBackEntry entry) = .ok proto' ∧
      gitEntry proto' = gitEntry proto := by
  obtain ⟨component, value⟩ := entry
  cases value with
  | gitSubmodule id => cases h
  | _ =>
      obtain rfl := Except.ok.inj h
      exact ⟨_, rfl, rfl⟩

/-- Git does not see what a tree loses when it is read back. -/
theorem gitEntries_readBack {entries : List (Jj.RepoPathComponent × Jj.TreeValue)}
    {protos : List Proto.Backend.TreeEntry}
    (h : entries.mapM treeEntryToProto = .ok protos) :
    ∃ protos', (entries.map readBackEntry).mapM treeEntryToProto = .ok protos' ∧
      gitEntries protos' = gitEntries protos := by
  simp only [mapM_eq_ok_iff, List.forall₂_map_left_iff] at h ⊢
  induction h with
  | nil => exact ⟨[], .nil, rfl⟩
  | cons hentry _ ih =>
      obtain ⟨proto', hto, hgit⟩ := treeEntryToProto_readBack hentry
      obtain ⟨protos', hrest, hgits⟩ := ih
      refine ⟨proto' :: protos', .cons hto hrest, ?_⟩
      rw [gitEntries, gitEntries] at hgits ⊢
      rw [List.filterMap_cons, List.filterMap_cons, hgit, hgits]

theorem copyIdFromProto_idem (copyId : Jj.CopyId) :
    copyIdFromProto (copyIdFromProto copyId) = copyIdFromProto copyId := by
  rw [copyIdFromProto_eq_self_iff, copyIdFromProto]
  split
  · assumption
  · rfl

theorem readBackValue_idem (value : Jj.TreeValue) :
    readBackValue (readBackValue value) = readBackValue value := by
  cases value with
  | file id executable copyId => simp only [readBackValue, copyIdFromProto_idem]
  | _ => rfl

theorem readBackTree_idem (tree : Jj.Tree) :
    readBackTree (readBackTree tree) = readBackTree tree := by
  apply Jj.Tree.ext
  simp [readBackTree, readBackEntry, readBackValue_idem]

theorem withoutOffsets_equiv {op op' : Jj.Operation} (h : op.Equiv op') :
    (withoutOffsets op).Equiv (withoutOffsets op') where
  viewId := h.viewId
  parents := h.parents
  metadata := {
    time := by rw [withoutOffsets, withoutOffsets, h.metadata.time]
    description := h.metadata.description
    hostname := h.metadata.hostname
    username := h.metadata.username
    isSnapshot := h.metadata.isSnapshot
    workspaceName := h.metadata.workspaceName
    attributes := h.metadata.attributes }
  commitPredecessors := h.commitPredecessors

theorem normalLabels_idem (labels : Jj.Merge String) :
    Jj.normalLabels (Jj.normalLabels labels) = Jj.normalLabels labels := by
  rw [Jj.normalLabels_eq_self_iff, Jj.normalLabels]
  split
  next hlabeled => exact .inl hlabeled
  next => exact .inr rfl

/-! ## Values that were read -/

namespace Value

variable {v w : Value J} {id : Bytes}

theorem Equiv.kind (h : v.Equiv w) : v.kind = w.kind := by
  cases h <;> rfl

theorem Equiv.isEmptyTree (h : v.Equiv w) : v.isEmptyTree = w.isEmptyTree := by
  cases h <;> rfl

theorem Equiv.id? (h : v.Equiv w) : v.id? P = w.id? P := by
  cases h with
  | view h =>
      exact congrArg some (hashView_eq_of_sameUpToOrder P (viewToProto_sameUpToOrder h))
  | operation h =>
      exact congrArg some (hashOperation_eq_of_equiv P (operationToProto_equiv h))
  | _ => rfl

theorem Equiv.readBack (h : v.Equiv w) : v.readBack.Equiv w.readBack := by
  cases h with
  | @view view view' h =>
      refine .view ?_
      obtain ⟨headIds, wc, bookmarks, tags, remotes, refs, gitHead⟩ := view
      obtain ⟨headIds', wc', bookmarks', tags', remotes', refs', gitHead'⟩ := view'
      obtain ⟨hheads, rfl, rfl, rfl, rfl, rfl, rfl⟩ := h
      exact viewFromProto_equiv hheads.perm (.refl _) (.refl _) (.refl _)
  | operation h => exact .operation (withoutOffsets_equiv h)
  | _ => exact .refl _

theorem kind_readBack (v : Value J) : v.readBack.kind = v.kind := by
  cases v <;> rfl

theorem isEmptyTree_readBack (v : Value J) : v.readBack.isEmptyTree = v.isEmptyTree := by
  cases v with
  | tree value => exact List.isEmpty_map
  | _ => rfl

theorem supported_of_id? (h : v.id? P = some id) : v.supported := by
  cases v with
  | tree value =>
      rw [supported_iff]
      cases hto : value.entries.mapM treeEntryToProto with
      | error failure =>
          rw [id?, hto] at h
          cases h
      | ok entries => exact ⟨entries, rfl⟩
  | _ => rfl

theorem id?_readBack (hlegacy : J.KeepsLegacyForm) (h : v.id? P = some id) :
    v.readBack.id? P = some id := by
  cases v with
  | tree value =>
      obtain ⟨entries, hto⟩ := supported_iff.mp (supported_of_id? h)
      obtain ⟨entries', hto', hgit⟩ := gitEntries_readBack hto
      rw [← h]
      simp only [id?, readBack, readBackTree, hto, hto', Except.toOption, Option.bind_some,
        computeGitTreeHash, treeBuffer, hgit]
  | view value =>
      rw [← h]
      exact congrArg some (hashView_writtenBack P hlegacy (.refl _))
  | _ => exact h

theorem readBack_readBack (hlegacy : J.KeepsLegacyForm) (v : Value J) :
    v.readBack.readBack.Equiv v.readBack := by
  cases v with
  | tree value =>
      simp only [readBack, readBackTree_idem]
      exact .tree _
  | commit value =>
      simp only [readBack, Backend.readBack, normalLabels_idem]
      exact .commit _
  | view value => exact .view (viewFromProto_writtenBack hlegacy (.refl _))
  | _ => exact .refl _

end Value

/-! ## States that no client tells apart -/

namespace SameAnswer

variable {a a' a'' : CloudAnswer J}

theorem symm (h : SameAnswer a a') : SameAnswer a' a := by
  cases h with
  | same => exact .same a
  | value h => exact .value h.symm

theorem trans (h : SameAnswer a a') (h' : SameAnswer a' a'') : SameAnswer a a'' := by
  cases h with
  | same => exact h'
  | value h =>
      cases h' with
      | same => exact .value h
      | value h' => exact .value (h.trans h')

end SameAnswer

/-- Under every key the same value is read back. -/
structure ReadAlike (c c' : Cloud J) : Prop where
  registered : c.registered = c'.registered
  objects : ∀ key, Option.Rel (fun v w => v.readBack.Equiv w.readBack) (c.objects key)
    (c'.objects key)
  heads : c.heads = c'.heads

namespace ReadAlike

variable {c c' : Cloud J} {v : Value J} {key : Key}

theorem refl (c : Cloud J) : ReadAlike c c where
  registered := rfl
  objects key := by
    cases c.objects key with
    | none => exact .none
    | some v => exact .some (.refl _)
  heads := rfl

theorem readable (h : ReadAlike c c') (key : Key) :
    Option.Rel Value.Equiv (c.readable key) (c'.readable key) := by
  have hobjects := h.objects key
  rw [Cloud.readable, Cloud.readable]
  generalize c.objects key = object at hobjects
  generalize c'.objects key = object' at hobjects
  cases hobjects with
  | some hequiv => exact .some hequiv
  | none =>
      cases rootValue J key with
      | none => exact .none
      | some value => exact .some (.refl value)

theorem put (h : ReadAlike c c') (key : Key) (v : Value J) :
    ReadAlike (c.put key v) (c'.put key v) where
  registered := h.registered
  objects key' := by
    by_cases hkey : key' = key
    · subst hkey
      rw [Cloud.objects_put_self, Cloud.objects_put_self]
      exact .some (.refl _)
    · rw [Cloud.objects_put_of_ne _ hkey, Cloud.objects_put_of_ne _ hkey]
      exact h.objects key'
  heads := h.heads

/-- A value may take the place of one that is read back alike. -/
theorem put_left {w : Value J} (hobject : c.objects key = some v)
    (hequiv : w.readBack.Equiv v.readBack) : ReadAlike (c.put key w) c where
  registered := rfl
  objects key' := by
    by_cases hkey : key' = key
    · subst hkey
      rw [Cloud.objects_put_self, hobject]
      exact .some hequiv
    · rw [Cloud.objects_put_of_ne _ hkey]
      exact (refl c).objects key'
  heads := rfl

end ReadAlike

theorem readAlike_read {c c' : Cloud J} (h : ReadAlike c c') (key : Key) :
    SameAnswer (cloud J P B c (.read key)).1 (cloud J P B c' (.read key)).1 := by
  cases hbuiltIn : builtIn J B key with
  | some v =>
      rw [cloud_read_builtIn hbuiltIn, cloud_read_builtIn hbuiltIn]
      exact .same _
  | none =>
      by_cases hreg : c.registered key.repoId
      · have hreg' : c'.registered key.repoId := h.registered ▸ hreg
        rw [cloud_read_registered hbuiltIn hreg, cloud_read_registered hbuiltIn hreg']
        have hreadable := h.readable key
        generalize c.readable key = value at hreadable
        generalize c'.readable key = value' at hreadable
        cases hreadable with
        | none => exact .same _
        | some hequiv => exact .value hequiv
      · have hreg' : ¬ c'.registered key.repoId := h.registered ▸ hreg
        rw [cloud_read_unregistered hbuiltIn hreg, cloud_read_unregistered hbuiltIn hreg']
        exact .same _

theorem cloud_readAlike {c c' : Cloud J} (h : ReadAlike c c') (command : Command J) :
    SameAnswer (cloud J P B c command).1 (cloud J P B c' command).1 ∧
      ReadAlike (cloud J P B c command).2 (cloud J P B c' command).2 := by
  cases command with
  | create repoId =>
      refine ⟨.same _, ?_, h.objects, h.heads⟩
      simp only [cloud, Cloud.register, h.registered]
  | read key =>
      refine ⟨readAlike_read h key, ?_⟩
      rw [cloud_read_state, cloud_read_state]
      exact h
  | write repoId v =>
      simp only [cloud, h.registered]
      split
      next => exact ⟨.same _, h⟩
      next =>
        split
        next =>
          split
          next =>
            cases v.id? P with
            | none => exact ⟨.same _, h⟩
            | some id => exact ⟨.same _, h.put _ v⟩
          next => exact ⟨.same _, h⟩
        next => exact ⟨.same _, h⟩
  | getHeads repoId =>
      simp only [cloud, h.registered, h.heads]
      split <;> exact ⟨.same _, h⟩
  | publish repoId oldIds newId =>
      simp only [cloud, h.registered]
      split
      next =>
        refine ⟨.same _, h.registered, h.objects, ?_⟩
        simp only [Cloud.publish, h.heads]
      next => exact ⟨.same _, h⟩

/-! ## Writing back -/

/-- Both clients are told the same. -/
def Alike (outcome outcome' : Outcome J) : Prop :=
  ∃ told told', outcome.answer = some told ∧ outcome'.answer = some told' ∧
    SameAnswer told told'

theorem Tells.alike {outcome outcome' : Outcome J} {answer answer' : CloudAnswer J}
    (h : Tells outcome answer) (h' : Tells outcome' answer')
    (hsame : SameAnswer answer answer') : Alike outcome outcome' := by
  obtain ⟨told, htold, htells⟩ := h
  obtain ⟨told', htold', htells'⟩ := h'
  exact ⟨told, told', htold, htold', (htells.trans hsame).trans htells'.symm⟩

/-- The stores represent clouds that are read alike. -/
def StoresAlike (J : JjLib) (s s' : MemoryStore) : Prop :=
  ∃ c c' : Cloud J, Represents s c ∧ Represents s' c' ∧ ReadAlike c c'

theorem clients_alike (hkeeps : KeepsValues B) :
    Simulates (clients J P B) (clients J P B) (StoresAlike J) Alike where
  answer s s' call h := by
    obtain ⟨c, c', hs, hs', hsame⟩ := h
    exact (clients_matches_cloud hkeeps hs call).1.alike
      (clients_matches_cloud hkeeps hs' call).1 (cloud_readAlike hsame _).1
  state s s' call h := by
    obtain ⟨c, c', hs, hs', hsame⟩ := h
    exact ⟨_, _, (clients_matches_cloud hkeeps hs call).2,
      (clients_matches_cloud hkeeps hs' call).2, (cloud_readAlike hsame _).2⟩

/-- What was read of an object is stored under the key of the object. -/
theorem cloud_write_readBack (hlegacy : J.KeepsLegacyForm) {c : Cloud J} {key : Key}
    {v w : Value J} (hhoused : Housed P c key v) (hequiv : w.Equiv v.readBack) :
    cloud J P B c (.write key.repoId w) = (.ok (.written key.id), c.put key w) := by
  obtain ⟨hreg, hkind, hsent, hid⟩ := hhoused
  have hid' : w.id? P = some key.id := by
    rw [hequiv.id?, Value.id?_readBack hlegacy hid]
  have hsent' : w.isEmptyTree = false := by
    rw [hequiv.isEmptyTree, Value.isEmptyTree_readBack, hsent]
  have hkind' : w.kind = key.kind := by
    rw [hequiv.kind, Value.kind_readBack, hkind]
  simp [cloud, hsent', Value.supported_of_id? hid', hreg, hid', hkind']

/--
Under a key that a client was told, every read gives a value, and whichever
client writes an equal value back is told the same id; no call of any later run
is told anything else than without it.
-/
def RewritesUnseen (J : JjLib) (P : Platform) (B : JjBackend) (calls : List (Call J)) :
    Prop :=
  ∀ key v, Written Wrote ((clients J P B).trace MemoryStore.new calls) key v →
    builtIn J B key = none → ∀ read : Call J, read.command = .read key →
    let s := (clients J P B).finalState MemoryStore.new calls
    ∃ value, (clients J P B s read).1.answer = some (.ok (.value value)) ∧
      ∀ (back : Call J) (value' : Value J), value'.Equiv value →
        back.command = .write key.repoId value' →
        (clients J P B s back).1.answer = some (.ok (.written key.id)) ∧
          ∀ later, List.Forall₂ (fun call call' => call.1 = call'.1 ∧ Alike call.2 call'.2)
            ((clients J P B).trace (clients J P B s back).2 later)
            ((clients J P B).trace s later)

theorem rewritesUnseen (hkeeps : KeepsValues B) (hlegacy : J.KeepsLegacyForm)
    (calls : List (Call J)) : RewritesUnseen J P B calls := by
  intro key _ hwritten hbuiltIn read hread s
  have hrepresents := represents_finalState (J := J) (P := P) hkeeps calls
  -- the object is the last one written under the key, perhaps not the one told
  obtain ⟨v, hlast⟩ := hwritten.exists_last
  have hobject := (lastWritten_iff_object hkeeps calls key v).mp hlast
  have hhoused := housed_of_object _ hobject
  have htells := tells_read (P := P) hkeeps calls hread
  rw [cloud_read_registered hbuiltIn hhoused.registered, Cloud.readable, hobject] at htells
  obtain ⟨value, hvalue, hequiv⟩ := htells.exists_value
  refine ⟨value, hvalue, fun back value' hequiv' hback => ?_⟩
  have hback' : value'.Equiv v.readBack := hequiv'.trans hequiv
  have hmatches := clients_matches_cloud (P := P) hkeeps hrepresents back
  rw [hback, cloud_write_readBack hlegacy hhoused hback'] at hmatches
  refine ⟨hmatches.1.answer_eq (by simp), fun later => (clients_alike hkeeps).trace ?_ later⟩
  exact ⟨_, _, hmatches.2, hrepresents, .put_left hobject
    (hback'.readBack.trans (v.readBack_readBack hlegacy))⟩

theorem rewritesUnseen_early :
    RewritesUnseen .reference .reference .reference earlyCommit :=
  rewritesUnseen reference_keepsValues JjLib.reference_keepsLegacyForm earlyCommit

end CommitCloud.Client
