import CommitCloud.Client.OpStore

/-!
# Views through the cloud

A view that is converted to a message and back keeps its heads, its working
copies, its local bookmarks and its remote bookmarks.  It loses its tags, and
the bookmarks of a remote whose name contains the `@` that a message puts
between the names of bookmark and remote.
-/

namespace CommitCloud.Client.OpStore

open Foundation CommitCloud.Server

variable {J : JjLib}

/-! ## Keys of remote bookmarks -/

theorem rsplitOnce_eq_iff_key {key bookmark remote : String} :
    rsplitOnce '@' key = some (bookmark, remote) ↔
      key = remoteBookmarkKey remote bookmark ∧ '@' ∉ remote.toList :=
  rsplitOnce_eq_some_iff

theorem remoteBookmarkKey_inj {remote remote' bookmark bookmark' : String}
    (hremote : '@' ∉ remote.toList) (hremote' : '@' ∉ remote'.toList)
    (h : remoteBookmarkKey remote bookmark = remoteBookmarkKey remote' bookmark') :
    bookmark = bookmark' ∧ remote = remote' := by
  have hsplit := rsplitOnce_eq_iff_key.mpr ⟨h, hremote'⟩
  rw [rsplitOnce_eq_iff_key.mpr ⟨rfl, hremote⟩] at hsplit
  exact Prod.mk.inj (Option.some.inj hsplit)

/-! ## Reading remote bookmarks -/

section Reading

theorem remoteBookmark_insert {RefTarget : Type}
    (remoteViews : BTreeMap String (Jj.RemoteView RefTarget))
    (remote bookmark : String) (remoteRef : Jj.RemoteRef RefTarget)
    (remote' bookmark' : String) :
    Jj.remoteBookmark
        (insertRemoteBookmark remoteViews remote bookmark remoteRef)
        remote' bookmark' =
      if remote' = remote ∧ bookmark' = bookmark then some remoteRef
      else Jj.remoteBookmark remoteViews remote' bookmark' := by
  by_cases hremote : remote' = remote
  · subst hremote
    simp only [Jj.remoteBookmark, insertRemoteBookmark, BTreeMap.get_insert,
      if_true, Option.bind_some, true_and]
    split
    next => rfl
    next =>
      cases remoteViews.get remote' with
      | none => rfl
      | some remoteView => rfl
  · simp [Jj.remoteBookmark, insertRemoteBookmark, BTreeMap.get_insert, hremote]

variable (remoteViews : BTreeMap String (Jj.RemoteView J.RefTarget))
  (remote bookmark : String)

theorem remoteBookmark_read (entry : String × Proto.OpStore.RemoteRef) :
    Jj.remoteBookmark (readRemoteBookmark J remoteViews entry) remote bookmark =
      if remoteBookmarkKey remote bookmark = entry.1 ∧ '@' ∉ remote.toList then
        some (remoteRefFromProto J entry.2)
      else Jj.remoteBookmark remoteViews remote bookmark := by
  have hsplit : rsplitOnce '@' entry.1 = some (bookmark, remote) ↔
      remoteBookmarkKey remote bookmark = entry.1 ∧ '@' ∉ remote.toList :=
    rsplitOnce_eq_iff_key.trans (and_congr_left' eq_comm)
  unfold readRemoteBookmark
  split
  next bookmark' remote' hparts =>
    rw [remoteBookmark_insert]
    refine if_congr ?_ rfl rfl
    rw [← hsplit, hparts, Option.some.injEq, Prod.mk.injEq, and_comm,
      eq_comm, eq_comm (a := remote)]
  next hnone =>
    rw [if_neg fun h => by simp [hsplit.mpr h] at hnone]

theorem remoteBookmark_foldl_read
    (entries : List (String × Proto.OpStore.RemoteRef))
    (hremote : '@' ∉ remote.toList) :
    Jj.remoteBookmark (entries.foldl (readRemoteBookmark J) remoteViews) remote
        bookmark =
      ((entries.reverse.lookup (remoteBookmarkKey remote bookmark)).map
        (remoteRefFromProto J)).or
          (Jj.remoteBookmark remoteViews remote bookmark) := by
  induction entries generalizing remoteViews with
  | nil => rfl
  | cons entry entries ih =>
      rw [List.foldl_cons, ih, remoteBookmark_read, List.reverse_cons,
        List.lookup_append, lookup_cons_eq, List.lookup_nil, Option.map_or,
        Option.or_assoc]
      by_cases hkey : remoteBookmarkKey remote bookmark = entry.1 <;>
        simp [hkey, hremote]

theorem remoteBookmark_foldl_read_of_mem
    (entries : List (String × Proto.OpStore.RemoteRef))
    (hremote : '@' ∈ remote.toList) :
    Jj.remoteBookmark (entries.foldl (readRemoteBookmark J) remoteViews) remote
        bookmark = Jj.remoteBookmark remoteViews remote bookmark := by
  induction entries generalizing remoteViews with
  | nil => rfl
  | cons entry entries ih =>
      rw [List.foldl_cons, ih, remoteBookmark_read]
      simp [hremote]

theorem remoteBookmark_fromProto
    (map : HashMap String Proto.OpStore.RemoteRef) :
    Jj.remoteBookmark (remoteViewsFromProto J map) remote bookmark =
      if '@' ∈ remote.toList then none
      else (map.get (remoteBookmarkKey remote bookmark)).map
        (remoteRefFromProto J) := by
  have hempty : Jj.remoteBookmark
      (BTreeMap.empty : BTreeMap String (Jj.RemoteView J.RefTarget)) remote
      bookmark = none := rfl
  unfold remoteViewsFromProto
  split
  next hremote => rw [remoteBookmark_foldl_read_of_mem _ _ _ _ hremote, hempty]
  next hremote =>
    rw [remoteBookmark_foldl_read _ _ _ _ hremote, hempty, Option.or_none,
      HashMap.get, lookup_eq_of_perm map.nodupKeys
        (List.reverse_perm map.entries).symm]

end Reading

/-! ## Writing remote bookmarks -/

section Writing

variable {remoteViews : BTreeMap String (Jj.RemoteView J.RefTarget)}

def remoteBookmarkList
    (remoteViews : BTreeMap String (Jj.RemoteView J.RefTarget)) :
    List ((String × String) × Jj.RemoteRef J.RefTarget) :=
  remoteViews.entries.flatMap fun remote =>
    remote.2.bookmarks.entries.map fun bookmark =>
      ((remote.1, bookmark.1), bookmark.2)

theorem mem_remoteBookmarkList {remote bookmark : String}
    {remoteRef : Jj.RemoteRef J.RefTarget} :
    ((remote, bookmark), remoteRef) ∈ remoteBookmarkList remoteViews ↔
      Jj.remoteBookmark remoteViews remote bookmark = some remoteRef := by
  simp only [remoteBookmarkList, Jj.remoteBookmark, List.mem_flatMap,
    List.mem_map, Prod.mk.injEq, Option.bind_eq_some_iff]
  constructor
  · rintro ⟨⟨_, remoteView⟩, hremote, ⟨_, _⟩, hbookmark, ⟨rfl, rfl⟩, rfl⟩
    exact ⟨remoteView, BTreeMap.mem_entries_iff.mp hremote,
      BTreeMap.mem_entries_iff.mp hbookmark⟩
  · rintro ⟨remoteView, hremote, hbookmark⟩
    exact ⟨(remote, remoteView), BTreeMap.mem_entries_iff.mpr hremote,
      (bookmark, remoteRef), BTreeMap.mem_entries_iff.mpr hbookmark,
      ⟨rfl, rfl⟩, rfl⟩

theorem nodup_remoteBookmarkList
    (remoteViews : BTreeMap String (Jj.RemoteView J.RefTarget)) :
    ((remoteBookmarkList remoteViews).map Prod.fst).Nodup := by
  unfold remoteBookmarkList
  rw [List.map_flatMap, List.nodup_flatMap]
  constructor
  · rintro ⟨remote, remoteView⟩ -
    rw [List.map_map]
    have hnodup := remoteView.bookmarks.nodupKeys
    have hpairs := hnodup.map (Prod.mk_right_injective remote)
    rwa [List.map_map] at hpairs
  · -- bookmarks of two remotes differ in the name of the remote
    refine remoteViews.sorted.imp fun {first second} hlt => ?_
    simp only [Function.onFun, List.map_map, List.disjoint_left, List.mem_map,
      Function.comp_apply]
    rintro _ ⟨_, -, rfl⟩ ⟨_, -, heq⟩
    exact hlt.ne' (Prod.mk.inj heq).1

theorem remoteBookmarksToProto_eq
    (remoteViews : BTreeMap String (Jj.RemoteView J.RefTarget)) :
    remoteBookmarksToProto J remoteViews =
      HashMap.collect ((remoteBookmarkList remoteViews).map fun entry =>
        (remoteBookmarkKey entry.1.1 entry.1.2, remoteRefToProto J entry.2)) := by
  simp only [remoteBookmarksToProto, HashMap.collect, remoteBookmarkList,
    List.foldl_map, List.foldl_flatMap]

/-- The remotes that have bookmarks have no `@` in their names. -/
def PlainRemotes (remoteViews : BTreeMap String (Jj.RemoteView J.RefTarget)) :
    Prop :=
  ∀ remote remoteView, remoteViews.get remote = some remoteView →
    remoteView.bookmarks.entries ≠ [] → '@' ∉ remote.toList

theorem plainRemotes_iff : PlainRemotes remoteViews ↔
    ∀ {remote bookmark remoteRef},
      Jj.remoteBookmark remoteViews remote bookmark = some remoteRef →
      '@' ∉ remote.toList := by
  constructor
  · intro hplain remote bookmark remoteRef hbookmark
    obtain ⟨remoteView, hremote, hbookmark⟩ := Option.bind_eq_some_iff.mp hbookmark
    exact hplain remote remoteView hremote
      (List.ne_nil_of_mem (BTreeMap.mem_entries_iff.mpr hbookmark))
  · intro hnames remote remoteView hremote hbookmarks
    obtain ⟨⟨bookmark, remoteRef⟩, hmem⟩ :=
      List.exists_mem_of_ne_nil _ hbookmarks
    have hbookmark : Jj.remoteBookmark remoteViews remote bookmark =
        some remoteRef := by
      rw [Jj.remoteBookmark, hremote]
      exact BTreeMap.mem_entries_iff.mp hmem
    exact hnames hbookmark

/-- No bookmark of a plain remote overwrites another one in the message. -/
theorem nodup_remoteBookmarkKeys (hplain : PlainRemotes remoteViews) :
    (((remoteBookmarkList remoteViews).map fun entry =>
      (remoteBookmarkKey entry.1.1 entry.1.2,
        remoteRefToProto J entry.2)).map Prod.fst).Nodup := by
  have hkeys := (nodup_remoteBookmarkList remoteViews).map_on
    (f := fun names => remoteBookmarkKey names.1 names.2) ?_
  · simpa [List.map_map, Function.comp_def] using hkeys
  · simp only [List.mem_map]
    rintro _ ⟨⟨⟨r, b⟩, ref⟩, hmem, rfl⟩ _ ⟨⟨⟨r', b'⟩, ref'⟩, hmem', rfl⟩ heq
    obtain ⟨hbookmark, hremote⟩ := remoteBookmarkKey_inj
      (plainRemotes_iff.mp hplain (mem_remoteBookmarkList.mp hmem))
      (plainRemotes_iff.mp hplain (mem_remoteBookmarkList.mp hmem')) heq
    exact Prod.ext hremote hbookmark

theorem get_remoteBookmarksToProto (hplain : PlainRemotes remoteViews)
    {remote : String} (hremote : '@' ∉ remote.toList) (bookmark : String) :
    (remoteBookmarksToProto J remoteViews).get
        (remoteBookmarkKey remote bookmark) =
      (Jj.remoteBookmark remoteViews remote bookmark).map (remoteRefToProto J) := by
  have hnodup := nodup_remoteBookmarkKeys hplain
  rw [remoteBookmarksToProto_eq, HashMap.get_collect_of_nodup hnodup]
  apply Option.ext
  intro message
  rw [lookup_eq_some_iff_mem hnodup, Option.map_eq_some_iff, List.mem_map]
  constructor
  · rintro ⟨⟨⟨remote', bookmark'⟩, remoteRef⟩, hmem, heq⟩
    obtain ⟨hkey, hmessage⟩ := Prod.mk.inj heq
    have hmem := mem_remoteBookmarkList.mp hmem
    obtain ⟨rfl, rfl⟩ := remoteBookmarkKey_inj (plainRemotes_iff.mp hplain hmem)
      hremote hkey
    exact ⟨remoteRef, hmem, hmessage⟩
  · rintro ⟨remoteRef, hbookmark, rfl⟩
    exact ⟨((remote, bookmark), remoteRef), mem_remoteBookmarkList.mpr hbookmark,
      rfl⟩

end Writing

/-! ## Remote bookmarks survive -/

theorem refTarget_roundTrip (hlegacy : J.KeepsLegacyForm) (target : J.RefTarget) :
    J.SameIds (refTargetFromProto J (refTargetToProto J target)) target := by
  have hids (ids : List CommitId) :
      (ids.map fun id => ({ commitId := id } : Proto.OpStore.RefTargetTerm)).map
        (·.commitId) = ids := by
    rw [List.map_map]
    exact List.map_id ids
  simp only [refTargetFromProto, refTargetToProto, hids]
  exact ⟨hlegacy.removedIds _ _, hlegacy.addedIds _ _⟩

structure SameRemoteRef (J : JjLib) (a b : Jj.RemoteRef J.RefTarget) : Prop where
  target : J.SameIds a.target b.target
  state : a.state = b.state

theorem remoteRef_roundTrip (hlegacy : J.KeepsLegacyForm)
    (remoteRef : Jj.RemoteRef J.RefTarget) :
    SameRemoteRef J (remoteRefFromProto J (remoteRefToProto J remoteRef))
      remoteRef where
  target := refTarget_roundTrip hlegacy remoteRef.target
  state := by
    obtain ⟨target, state⟩ := remoteRef
    cases state <;> rfl

def SameRemoteBookmarks (J : JjLib) (view view' : Jj.View J.RefTarget) : Prop :=
  ∀ remote bookmark, Option.Rel (SameRemoteRef J)
    (Jj.remoteBookmark view.remoteViews remote bookmark)
    (Jj.remoteBookmark view'.remoteViews remote bookmark)

/--
Remote bookmarks survive the conversion, in whichever order the message is
read, exactly if no remote that has bookmarks has an `@` in its name.
-/
theorem sameRemoteBookmarks_iff (hlegacy : J.KeepsLegacyForm)
    {view : Jj.View J.RefTarget} {message : Proto.OpStore.View}
    (hmessage : message.Equiv (viewToProto J view)) :
    SameRemoteBookmarks J (viewFromProto J message) view ↔
      PlainRemotes view.remoteViews := by
  have hread (remote bookmark : String) :
      Jj.remoteBookmark (viewFromProto J message).remoteViews remote bookmark =
        if '@' ∈ remote.toList then none
        else ((remoteBookmarksToProto J view.remoteViews).get
          (remoteBookmarkKey remote bookmark)).map (remoteRefFromProto J) := by
    have hget := HashMap.equiv_iff_get.mp hmessage.remoteBookmarks
      (remoteBookmarkKey remote bookmark)
    change _ = (remoteBookmarksToProto J view.remoteViews).get _ at hget
    rw [← hget]
    exact remoteBookmark_fromProto remote bookmark message.remoteBookmarks
  constructor
  · refine fun hsame => plainRemotes_iff.mpr fun {remote bookmark _} hbookmark hat => ?_
    have hrel := hsame remote bookmark
    rw [hread, if_pos hat, hbookmark] at hrel
    cases hrel
  · intro hplain remote bookmark
    rw [hread]
    cases hbookmark : Jj.remoteBookmark view.remoteViews remote bookmark with
    | none =>
        split
        · exact .none
        · rw [get_remoteBookmarksToProto hplain ‹_›, hbookmark]
          exact .none
    | some remoteRef =>
        have hremote := plainRemotes_iff.mp hplain hbookmark
        rw [if_neg hremote, get_remoteBookmarksToProto hplain hremote, hbookmark]
        exact .some (remoteRef_roundTrip hlegacy remoteRef)

def twoRemotes (first second : String × String) (hlt : first.1 < second.1) :
    Jj.View JjLib.reference.RefTarget where
  headIds := ⟨[[1]], by decide⟩
  wcCommitIds := .empty
  localBookmarks := .empty
  localTags := .empty
  remoteViews := ⟨[(first.1, ⟨⟨[(first.2, ⟨⟨some [1], []⟩, .tracked⟩)], by simp⟩⟩),
    (second.1, ⟨⟨[(second.2, ⟨⟨some [1], []⟩, .tracked⟩)], by simp⟩⟩)],
    by simpa using hlt⟩
  gitRefs := .empty
  gitHead := ⟨none, []⟩

def plainRemotes : Jj.View JjLib.reference.RefTarget :=
  twoRemotes ("origin", "main") ("upstream", "main") (by decide)

theorem sameRemoteBookmarks_iff_plain :
    SameRemoteBookmarks .reference
        (viewFromProto .reference (viewToProto .reference plainRemotes))
        plainRemotes ↔ PlainRemotes plainRemotes.remoteViews :=
  sameRemoteBookmarks_iff JjLib.reference_keepsLegacyForm (.refl _)

/-- Both bookmarks have the key `main@fork@origin`. -/
def clashingRemotes : Jj.View JjLib.reference.RefTarget :=
  twoRemotes ("fork@origin", "main") ("origin", "main@fork") (by decide)

theorem clashingRemotes_changed :
    ¬ SameRemoteBookmarks .reference
      (viewFromProto .reference (viewToProto .reference clashingRemotes))
      clashingRemotes := by
  intro hsame
  have hrel := hsame "fork@origin" "main"
  have hread : Jj.remoteBookmark
      (viewFromProto .reference (viewToProto .reference clashingRemotes)).remoteViews
      "fork@origin" "main" = none := by
    rw [viewFromProto, remoteBookmark_fromProto, if_pos (by decide)]
  rw [hread] at hrel
  cases hrel

/-! ## Local references survive -/

structure SameLocalRefs (J : JjLib) (view view' : Jj.View J.RefTarget) :
    Prop where
  headIds : view.headIds.Equiv view'.headIds
  wcCommitIds : view.wcCommitIds = view'.wcCommitIds
  localBookmarks : ∀ name, Option.Rel J.SameIds (view.localBookmarks.get name)
    (view'.localBookmarks.get name)
  localTags : ∀ name, Option.Rel J.SameIds (view.localTags.get name)
    (view'.localTags.get name)

theorem headIds_roundTrip {view : Jj.View J.RefTarget}
    {message : Proto.OpStore.View}
    (hmessage : message.Equiv (viewToProto J view)) :
    (viewFromProto J message).headIds.Equiv view.headIds := by
  intro id
  rw [viewFromProto, HashSet.mem_collect, hmessage.headIds]
  rfl

theorem wcCommitIds_roundTrip {view : Jj.View J.RefTarget}
    {message : Proto.OpStore.View}
    (hmessage : message.Equiv (viewToProto J view)) :
    (viewFromProto J message).wcCommitIds = view.wcCommitIds := by
  apply BTreeMap.ext_get
  intro name
  have hget := HashMap.equiv_iff_get.mp hmessage.wcCommitIds name
  rw [viewFromProto, BTreeMap.get_collect_of_nodup message.wcCommitIds.nodupKeys]
  exact hget.trans (HashMap.get_collect_of_nodup view.wcCommitIds.nodupKeys name)

theorem localBookmarks_roundTrip (hlegacy : J.KeepsLegacyForm)
    {view : Jj.View J.RefTarget} {message : Proto.OpStore.View}
    (hmessage : message.Equiv (viewToProto J view)) (name : String) :
    Option.Rel J.SameIds ((viewFromProto J message).localBookmarks.get name)
      (view.localBookmarks.get name) := by
  have hget : message.localBookmarks.get name =
      (view.localBookmarks.get name).map (refTargetToProto J) :=
    (HashMap.equiv_iff_get.mp hmessage.localBookmarks name).trans
      (HashMap.get_collect_bTreeMap ..)
  rw [viewFromProto, BTreeMap.get_collect_hashMap, hget]
  cases view.localBookmarks.get name with
  | none => exact .none
  | some target => exact .some (refTarget_roundTrip hlegacy target)

theorem sameLocalRefs_fromProto_iff (hlegacy : J.KeepsLegacyForm)
    {view : Jj.View J.RefTarget} {message : Proto.OpStore.View}
    (hmessage : message.Equiv (viewToProto J view)) :
    SameLocalRefs J (viewFromProto J message) view ↔
      ∀ name, view.localTags.get name = none := by
  have hnone (name : String) :
      (viewFromProto J message).localTags.get name = none := rfl
  constructor
  · intro hsame name
    have hrel := hsame.localTags name
    rw [hnone] at hrel
    cases htag : view.localTags.get name with
    | none => rfl
    | some target =>
        rw [htag] at hrel
        cases hrel
  · intro htags
    refine ⟨headIds_roundTrip hmessage, wcCommitIds_roundTrip hmessage,
      localBookmarks_roundTrip hlegacy hmessage, fun name => ?_⟩
    rw [hnone, htags]
    exact .none

/-! ## Writing and reading back -/

variable {P : Platform} {T : Transport} {repoId : RepoId} {s : MemoryStore}

theorem readView_written (hreg : s.isRepoRegistered repoId)
    (view : Jj.View J.RefTarget) :
    ∃ id s' message, writeView J P T repoId view s = (.ok id, s') ∧
      readView J T repoId id s' = (.ok (viewFromProto J message), s') ∧
      message.Equiv (viewToProto J view) := by
  refine ⟨_, _, _, writeView_eq hreg view,
    readView_eq hreg (Nested.lookup_put_self ..), ?_⟩
  exact (T.view_equiv _).trans (T.view_equiv _)

def LocalRefsRoundTrip (J : JjLib) (P : Platform) (T : Transport)
    (repoId : RepoId) (s : MemoryStore) (view : Jj.View J.RefTarget) : Prop :=
  ∃ id s' view', writeView J P T repoId view s = (.ok id, s') ∧
    (readView J T repoId id s').1 = .ok view' ∧ SameLocalRefs J view' view

theorem LocalRefsRoundTrip.fromProto (hreg : s.isRepoRegistered repoId)
    {view : Jj.View J.RefTarget} (h : LocalRefsRoundTrip J P T repoId s view) :
    ∃ message, message.Equiv (viewToProto J view) ∧
      SameLocalRefs J (viewFromProto J message) view := by
  obtain ⟨id, s', view', hwrite, hread, hsame⟩ := h
  obtain ⟨id', s'', message, hwrite', hread', hmessage⟩ :=
    readView_written (P := P) (T := T) hreg view
  rw [hwrite] at hwrite'
  cases hwrite'
  rw [hread'] at hread
  cases hread
  exact ⟨message, hmessage, hsame⟩

/-- Local references survive the round trip exactly if there are no tags. -/
theorem localRefsRoundTrip_iff (hlegacy : J.KeepsLegacyForm)
    (hreg : s.isRepoRegistered repoId) (view : Jj.View J.RefTarget) :
    LocalRefsRoundTrip J P T repoId s view ↔
      ∀ name, view.localTags.get name = none := by
  constructor
  · intro h
    obtain ⟨message, hmessage, hsame⟩ := h.fromProto hreg
    exact (sameLocalRefs_fromProto_iff hlegacy hmessage).mp hsame
  · intro htags
    obtain ⟨id, s', message, hwrite, hread, hmessage⟩ :=
      readView_written (P := P) (T := T) hreg view
    exact ⟨id, s', _, hwrite, by rw [hread],
      (sameLocalRefs_fromProto_iff hlegacy hmessage).mpr htags⟩

theorem localRefsRoundTrip_iff_plain :
    LocalRefsRoundTrip .reference .reference .direct "repo"
        (MemoryStore.new.registerRepo "repo") plainRemotes ↔
      ∀ name, plainRemotes.localTags.get name = none :=
  localRefsRoundTrip_iff JjLib.reference_keepsLegacyForm rfl plainRemotes

def taggedView : Jj.View JjLib.reference.RefTarget :=
  { plainRemotes with
    localTags := ⟨[("v1.0", (⟨some [1], []⟩ : JjLib.Merge))], by simp⟩ }

theorem taggedView_changed :
    ¬ LocalRefsRoundTrip .reference .reference .direct "repo"
      (MemoryStore.new.registerRepo "repo") taggedView := by
  intro h
  obtain ⟨message, hmessage, hsame⟩ := h.fromProto rfl
  have hnone := (sameLocalRefs_fromProto_iff JjLib.reference_keepsLegacyForm
    hmessage).mp hsame "v1.0"
  cases hnone

end CommitCloud.Client.OpStore
