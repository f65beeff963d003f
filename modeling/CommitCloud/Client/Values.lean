import CommitCloud.Client.CommitRoundTrip
import CommitCloud.Client.TreeRoundTrip
import CommitCloud.Client.WriteBack
import CommitCloud.Foundation.Traversal

/-!
# The values of jj

What jj keeps in the cloud, as one type of values, and each value as it is read
back.  A value that was read back is not changed by being written and read once
more.
-/

namespace CommitCloud.Client

open Foundation CommitCloud.Server Backend OpStore

inductive Kind where
  | file
  | tree
  | commit
  | view
  | operation
  deriving DecidableEq

inductive Value (J : JjLib) where
  | file (contents : Bytes)
  | tree (tree : Jj.Tree)
  | commit (commit : Jj.Commit)
  | view (view : Jj.View J.RefTarget)
  | operation (op : Jj.Operation)

variable {J : JjLib} {B : JjBackend}

/-! ## Views, in any order -/

theorem insertRemoteBookmark_comm {RefTarget : Type} {remote remote' : String}
    {bookmark bookmark' : String} (hne : (bookmark, remote) ≠ (bookmark', remote'))
    (remoteViews : BTreeMap String (Jj.RemoteView RefTarget))
    (remoteRef remoteRef' : Jj.RemoteRef RefTarget) :
    insertRemoteBookmark (insertRemoteBookmark remoteViews remote bookmark remoteRef)
        remote' bookmark' remoteRef' =
      insertRemoteBookmark (insertRemoteBookmark remoteViews remote' bookmark' remoteRef')
        remote bookmark remoteRef := by
  by_cases hremote : remote = remote'
  · subst hremote
    have hbookmark : bookmark ≠ bookmark' := fun h => hne (by rw [h])
    simp only [insertRemoteBookmark, BTreeMap.get_insert, if_true, Option.getD_some,
      BTreeMap.insert_insert, BTreeMap.insert_comm hbookmark]
  · simp only [insertRemoteBookmark, BTreeMap.get_insert, if_neg hremote,
      if_neg (Ne.symm hremote), BTreeMap.insert_comm hremote]

theorem readRemoteBookmark_comm {entry entry' : String × Proto.OpStore.RemoteRef}
    (hne : entry.1 ≠ entry'.1)
    (remoteViews : BTreeMap String (Jj.RemoteView J.RefTarget)) :
    readRemoteBookmark J (readRemoteBookmark J remoteViews entry) entry' =
      readRemoteBookmark J (readRemoteBookmark J remoteViews entry') entry := by
  unfold readRemoteBookmark
  cases hparts : rsplitOnce '@' entry.1 with
  | none => rfl
  | some parts =>
      cases hparts' : rsplitOnce '@' entry'.1 with
      | none => rfl
      | some parts' =>
          refine insertRemoteBookmark_comm (fun heq => hne ?_) ..
          -- the parts determine the key
          obtain ⟨hkey, -⟩ := rsplitOnce_eq_iff_key.mp hparts
          obtain ⟨hkey', -⟩ := rsplitOnce_eq_iff_key.mp hparts'
          obtain ⟨hbookmark, hremote⟩ := Prod.mk.inj heq
          rw [hkey, hkey', hbookmark, hremote]

theorem remoteViewsFromProto_eq_of_equiv
    {map map' : HashMap String Proto.OpStore.RemoteRef} (h : map.Equiv map') :
    remoteViewsFromProto J map = remoteViewsFromProto J map' := by
  refine List.Perm.foldl_eq' h (fun entry hmem entry' hmem' views => ?_) _
  by_cases heq : entry = entry'
  · rw [heq]
  · refine readRemoteBookmark_comm (fun hkey => heq ?_) views
    exact List.inj_on_of_nodup_map map.nodupKeys hmem hmem' hkey

/-- Messages are read alike whatever the order of their maps and heads. -/
theorem viewFromProto_equiv {message message' : Proto.OpStore.View}
    (hheads : message.headIds.Perm message'.headIds)
    (hwc : message.wcCommitIds.Equiv message'.wcCommitIds)
    (hbookmarks : message.localBookmarks.Equiv message'.localBookmarks)
    (hremotes : message.remoteBookmarks.Equiv message'.remoteBookmarks) :
    (viewFromProto J message).Equiv (viewFromProto J message') where
  headIds id := by
    rw [viewFromProto, viewFromProto, HashSet.mem_collect, HashSet.mem_collect]
    exact hheads.mem_iff
  wcCommitIds := BTreeMap.collect_eq_of_equiv hwc
  localBookmarks := by
    apply BTreeMap.ext_get
    intro name
    rw [viewFromProto, viewFromProto, BTreeMap.get_collect_hashMap,
      BTreeMap.get_collect_hashMap, HashMap.equiv_iff_get.mp hbookmarks name]
  localTags := rfl
  remoteViews := remoteViewsFromProto_eq_of_equiv hremotes
  gitRefs := rfl
  gitHead := rfl

theorem viewFromProto_delivered {message message' : Proto.OpStore.View}
    (h : message.Equiv message') :
    (viewFromProto J message).Equiv (viewFromProto J message') :=
  viewFromProto_equiv (h.headIds ▸ .rfl) h.wcCommitIds h.localBookmarks h.remoteBookmarks

/-- A view that was read is read again after it was written back. -/
theorem viewFromProto_writtenBack (hlegacy : J.KeepsLegacyForm)
    {view : Jj.View J.RefTarget} {message : Proto.OpStore.View}
    (hmessage : message.Equiv (viewToProto J view)) :
    (viewFromProto J (viewToProto J (viewFromProto J message))).Equiv
      (viewFromProto J message) := by
  refine viewFromProto_equiv ?_ ?_ (localBookmarksToProto_fromProto hlegacy message)
    (remoteBookmarksToProto_fromProto hlegacy hmessage.remoteBookmarks)
  · rw [hmessage.headIds]
    exact (headIds_roundTrip hmessage).perm
  · rw [viewToProto, wcCommitIds_roundTrip hmessage]
    exact hmessage.wcCommitIds.symm

/-! ## Trees, with any ids -/

theorem treeEntryFromProto_toProto (hnames : B.AcceptsNames)
    {entry : Jj.RepoPathComponent × Jj.TreeValue} {proto : Proto.Backend.TreeEntry}
    (h : treeEntryToProto entry = .ok proto) :
    treeEntryFromProto B proto = .ok (readBackEntry entry) := by
  obtain ⟨component, value⟩ := entry
  have hname := hnames component
  cases value with
  | gitSubmodule id => cases h
  | _ =>
      obtain rfl := Except.ok.inj h
      simp only [treeEntryFromProto, hname]
      rfl

theorem treeFromProto_toProto (hnames : B.AcceptsNames) {tree : Jj.Tree}
    {protos : List Proto.Backend.TreeEntry}
    (h : tree.entries.mapM treeEntryToProto = .ok protos) :
    treeFromProto B protos = .ok (readBackTree tree) := by
  have hdecoded : protos.mapM (treeEntryFromProto B) =
      .ok (tree.entries.map readBackEntry) := by
    rw [mapM_eq_ok_iff, List.forall₂_map_right_iff]
    exact (mapM_eq_ok_iff.mp h).flip.imp fun _ _ => treeEntryFromProto_toProto hnames
  rw [treeFromProto, hdecoded]
  exact congrArg orPanic (readBackTree tree).fromSortedEntries_entries

/-! ## Reading back -/

namespace Value

def kind : Value J → Kind
  | .file _ => .file
  | .tree _ => .tree
  | .commit _ => .commit
  | .view _ => .view
  | .operation _ => .operation

/-- Equal values; no iteration order is part of a value. -/
inductive Equiv : Value J → Value J → Prop where
  | file (contents : Bytes) : Equiv (.file contents) (.file contents)
  | tree (value : Jj.Tree) : Equiv (.tree value) (.tree value)
  | commit (value : Jj.Commit) : Equiv (.commit value) (.commit value)
  | view {view view' : Jj.View J.RefTarget} (h : view.Equiv view') :
      Equiv (.view view) (.view view')
  | operation {op op' : Jj.Operation} (h : op.Equiv op') :
      Equiv (.operation op) (.operation op')

@[refl] theorem Equiv.refl (v : Value J) : v.Equiv v := by
  cases v with
  | file contents => exact .file contents
  | tree value => exact .tree value
  | commit value => exact .commit value
  | view value => exact .view (.refl value)
  | operation op => exact .operation (.refl op)

@[symm] theorem Equiv.symm {v w : Value J} (h : v.Equiv w) : w.Equiv v := by
  cases h with
  | file contents => exact .file contents
  | tree value => exact .tree value
  | commit value => exact .commit value
  | view h => exact .view h.symm
  | operation h => exact .operation h.symm

@[trans] theorem Equiv.trans {u v w : Value J} (h : u.Equiv v) (h' : v.Equiv w) :
    u.Equiv w := by
  cases h with
  | file contents => exact h'
  | tree value => exact h'
  | commit value => exact h'
  | view h =>
      cases h' with
      | view h' => exact .view (h.trans h')
  | operation h =>
      cases h' with
      | operation h' => exact .operation (h.trans h')

/-- The value as it is read after it was written. -/
def readBack : Value J → Value J
  | .file contents => .file contents
  | .tree value => .tree (readBackTree value)
  | .commit value => .commit (Backend.readBack value)
  | .view value => .view (viewFromProto J (viewToProto J value))
  | .operation op => .operation (withoutOffsets op)

end Value

end CommitCloud.Client
