import CommitCloud.Common
import CommitCloud.Foundation.Maps
import CommitCloud.Foundation.Optionals

/-!
# The objects of jj

The operations and views of `jj-lib` as the client converts them, with the
fields it reads or writes.  A target of a reference is known only through the
functions the client calls on it; `JjLib` bundles them as parameters.
-/

namespace CommitCloud.Jj

open Foundation

/-! ## Operations -/

structure Timestamp where
  timestamp : Int64
  tzOffset : Int32
  deriving DecidableEq

structure TimestampRange where
  start : Timestamp
  end_ : Timestamp
  deriving DecidableEq

structure OperationMetadata where
  time : TimestampRange
  description : String
  hostname : String
  username : String
  isSnapshot : Bool
  workspaceName : Option String
  attributes : HashMap String String
  deriving DecidableEq

structure Operation where
  viewId : ViewId
  parents : List OpId
  metadata : OperationMetadata
  commitPredecessors : Option (BTreeMap CommitId (List CommitId))
  deriving DecidableEq

structure OperationMetadata.Equiv (a b : OperationMetadata) : Prop where
  time : a.time = b.time
  description : a.description = b.description
  hostname : a.hostname = b.hostname
  username : a.username = b.username
  isSnapshot : a.isSnapshot = b.isSnapshot
  workspaceName : a.workspaceName = b.workspaceName
  attributes : a.attributes.Equiv b.attributes

structure Operation.Equiv (a b : Operation) : Prop where
  viewId : a.viewId = b.viewId
  parents : a.parents = b.parents
  metadata : a.metadata.Equiv b.metadata
  commitPredecessors : a.commitPredecessors = b.commitPredecessors

@[refl] theorem Operation.Equiv.refl (op : Operation) : op.Equiv op :=
  ⟨rfl, rfl, ⟨rfl, rfl, rfl, rfl, rfl, rfl, .refl _⟩, rfl⟩

@[symm] theorem Operation.Equiv.symm {a b : Operation} (h : a.Equiv b) :
    b.Equiv a := by
  obtain ⟨hview, hparents, hmetadata, hpreds⟩ := h
  obtain ⟨htime, hdescription, hhost, huser, hsnapshot, hws, hattrs⟩ := hmetadata
  exact ⟨hview.symm, hparents.symm, ⟨htime.symm, hdescription.symm, hhost.symm,
    huser.symm, hsnapshot.symm, hws.symm, hattrs.symm⟩, hpreds.symm⟩

@[trans] theorem OperationMetadata.Equiv.trans {a b c : OperationMetadata}
    (h : a.Equiv b) (h' : b.Equiv c) : a.Equiv c where
  time := h.time.trans h'.time
  description := h.description.trans h'.description
  hostname := h.hostname.trans h'.hostname
  username := h.username.trans h'.username
  isSnapshot := h.isSnapshot.trans h'.isSnapshot
  workspaceName := h.workspaceName.trans h'.workspaceName
  attributes := h.attributes.trans h'.attributes

@[trans] theorem Operation.Equiv.trans {a b c : Operation} (h : a.Equiv b)
    (h' : b.Equiv c) : a.Equiv c where
  viewId := h.viewId.trans h'.viewId
  parents := h.parents.trans h'.parents
  metadata := h.metadata.trans h'.metadata
  commitPredecessors := h.commitPredecessors.trans h'.commitPredecessors

/-! ## Views -/

inductive RemoteRefState where
  | new
  | tracked
  deriving DecidableEq

structure RemoteRef (RefTarget : Type) where
  target : RefTarget
  state : RemoteRefState
  deriving DecidableEq

structure RemoteView (RefTarget : Type) where
  bookmarks : BTreeMap String (RemoteRef RefTarget) := .empty
  deriving DecidableEq

structure View (RefTarget : Type) where
  headIds : HashSet CommitId
  wcCommitIds : BTreeMap String CommitId
  localBookmarks : BTreeMap String RefTarget
  localTags : BTreeMap String RefTarget
  remoteViews : BTreeMap String (RemoteView RefTarget)
  gitRefs : BTreeMap String RefTarget
  gitHead : RefTarget
  deriving DecidableEq

/-- Equal views; the order of a set of heads is no part of its value. -/
structure View.Equiv {RefTarget : Type} (a b : View RefTarget) : Prop where
  headIds : a.headIds.Equiv b.headIds
  wcCommitIds : a.wcCommitIds = b.wcCommitIds
  localBookmarks : a.localBookmarks = b.localBookmarks
  localTags : a.localTags = b.localTags
  remoteViews : a.remoteViews = b.remoteViews
  gitRefs : a.gitRefs = b.gitRefs
  gitHead : a.gitHead = b.gitHead

section

variable {RefTarget : Type} {a b c : View RefTarget}

@[refl] theorem View.Equiv.refl (view : View RefTarget) : view.Equiv view :=
  ⟨fun _ => Iff.rfl, rfl, rfl, rfl, rfl, rfl, rfl⟩

@[symm] theorem View.Equiv.symm (h : a.Equiv b) : b.Equiv a where
  headIds x := (h.headIds x).symm
  wcCommitIds := h.wcCommitIds.symm
  localBookmarks := h.localBookmarks.symm
  localTags := h.localTags.symm
  remoteViews := h.remoteViews.symm
  gitRefs := h.gitRefs.symm
  gitHead := h.gitHead.symm

@[trans] theorem View.Equiv.trans (h : a.Equiv b) (h' : b.Equiv c) : a.Equiv c where
  headIds x := (h.headIds x).trans (h'.headIds x)
  wcCommitIds := h.wcCommitIds.trans h'.wcCommitIds
  localBookmarks := h.localBookmarks.trans h'.localBookmarks
  localTags := h.localTags.trans h'.localTags
  remoteViews := h.remoteViews.trans h'.remoteViews
  gitRefs := h.gitRefs.trans h'.gitRefs
  gitHead := h.gitHead.trans h'.gitHead

end

def remoteBookmark {RefTarget : Type}
    (remoteViews : BTreeMap String (RemoteView RefTarget))
    (remote bookmark : String) : Option (RemoteRef RefTarget) :=
  (remoteViews.get remote).bind fun remoteView =>
    remoteView.bookmarks.get bookmark

end Jj

/-! ## Targets -/

open Foundation

/--
The functions of `jj-lib` on reference targets: the removed and the added
commit ids of a target, the target made of given ids, and the absent target.
-/
structure JjLib where
  RefTarget : Type
  removedIds : RefTarget → List CommitId
  addedIds : RefTarget → List CommitId
  fromLegacyForm : List CommitId → List CommitId → RefTarget
  absent : RefTarget

namespace JjLib

/-- A target made of given ids names these ids in their order. -/
structure KeepsLegacyForm (J : JjLib) : Prop where
  removedIds : ∀ removes adds,
    J.removedIds (J.fromLegacyForm removes adds) = removes
  addedIds : ∀ removes adds, J.addedIds (J.fromLegacyForm removes adds) = adds

structure SameIds (J : JjLib) (a b : J.RefTarget) : Prop where
  removedIds : J.removedIds a = J.removedIds b
  addedIds : J.addedIds a = J.addedIds b

/--
A conflicted optional id: an added term, then pairs of a removed and an added
term.  Absent terms are `none`.
-/
structure Merge where
  first : Option CommitId
  diffs : List (Option CommitId × Option CommitId)
  deriving DecidableEq

/-- Pair up terms, and pad the shorter list with absent terms. -/
def zipLongest : List CommitId → List CommitId →
    List (Option CommitId × Option CommitId)
  | [], adds => adds.map fun add => (none, some add)
  | remove :: removes, adds =>
      (some remove, adds.head?) :: zipLongest removes adds.tail

def Merge.removes (target : Merge) : List (Option CommitId) :=
  target.diffs.map Prod.fst

def Merge.adds (target : Merge) : List (Option CommitId) :=
  target.first :: target.diffs.map Prod.snd

/-- `Merge::from_legacy_form`: the shorter side is padded with absent terms. -/
def Merge.fromLegacyForm (removes adds : List CommitId) : Merge :=
  ⟨adds.head?, zipLongest removes adds.tail⟩

/-- Targets as lists of alternating terms. -/
def reference : JjLib where
  RefTarget := Merge
  removedIds target := target.removes.reduceOption
  addedIds target := target.adds.reduceOption
  fromLegacyForm := Merge.fromLegacyForm
  absent := ⟨none, []⟩

theorem zipLongest_removes (removes adds : List CommitId) :
    (zipLongest removes adds).map Prod.fst =
      removes.map some ++ List.replicate (adds.length - removes.length) none := by
  induction removes generalizing adds with
  | nil => simp [zipLongest, Function.comp_def]
  | cons remove removes ih =>
      cases adds with
      | nil => simp [zipLongest, ih]
      | cons add adds => simp [zipLongest, ih]

theorem zipLongest_adds (removes adds : List CommitId) :
    (zipLongest removes adds).map Prod.snd =
      adds.map some ++ List.replicate (removes.length - adds.length) none := by
  induction removes generalizing adds with
  | nil => simp [zipLongest, Function.comp_def]
  | cons remove removes ih =>
      cases adds with
      | nil => simp [zipLongest, ih, List.replicate_succ]
      | cons add adds => simp [zipLongest, ih]

theorem zipLongest_fst (removes adds : List CommitId) :
    ((zipLongest removes adds).map Prod.fst).reduceOption = removes := by
  rw [zipLongest_removes, reduceOption_padded]

theorem zipLongest_snd (removes adds : List CommitId) :
    ((zipLongest removes adds).map Prod.snd).reduceOption = adds := by
  rw [zipLongest_adds, reduceOption_padded]

/-! ## Terms -/

theorem Merge.fromLegacyForm_removes (removes adds : List CommitId) :
    (Merge.fromLegacyForm removes adds).removes =
      removes.map some ++ List.replicate (adds.length - 1 - removes.length) none := by
  rw [Merge.removes, Merge.fromLegacyForm, zipLongest_removes, List.length_tail]

theorem Merge.fromLegacyForm_adds (removes adds : List CommitId) :
    (Merge.fromLegacyForm removes adds).adds =
      adds.map some ++ List.replicate (removes.length + 1 - adds.length) none := by
  cases adds with
  | nil => simp [Merge.adds, Merge.fromLegacyForm, zipLongest_adds, List.replicate_succ]
  | cons add adds => simp [Merge.adds, Merge.fromLegacyForm, zipLongest_adds]

theorem Merge.ext_terms {target target' : Merge} (hremoves : target.removes = target'.removes)
    (hadds : target.adds = target'.adds) : target = target' := by
  obtain ⟨hfirst, hsnd⟩ := List.cons.inj hadds
  have hdiffs : target.diffs = target'.diffs :=
    (List.zip_of_prod hremoves hsnd).trans (List.zip_of_prod rfl rfl).symm
  cases target
  cases target'
  exact congrArg₂ Merge.mk hfirst hdiffs

theorem Merge.length_adds (target : Merge) : target.adds.length = target.removes.length + 1 := by
  simp [Merge.adds, Merge.removes]

/-- A target is given by its terms, and names the ones that are present. -/
structure Alternates (J : JjLib) (terms : J.RefTarget → Merge) : Prop where
  injective : Function.Injective terms
  removedIds : ∀ target, J.removedIds target = (terms target).removes.reduceOption
  addedIds : ∀ target, J.addedIds target = (terms target).adds.reduceOption
  fromLegacyForm : ∀ removes adds,
    terms (J.fromLegacyForm removes adds) = Merge.fromLegacyForm removes adds

theorem reference_alternates : reference.Alternates id where
  injective := Function.injective_id
  removedIds _ := rfl
  addedIds _ := rfl
  fromLegacyForm _ _ := rfl

theorem reference_keepsLegacyForm : reference.KeepsLegacyForm where
  removedIds removes adds := zipLongest_fst removes adds.tail
  addedIds removes adds := by
    cases adds with
    | nil => simp [reference, Merge.adds, Merge.fromLegacyForm, zipLongest_snd]
    | cons add adds => simp [reference, Merge.adds, Merge.fromLegacyForm, zipLongest_snd]

theorem Alternates.keepsLegacyForm {J : JjLib} {terms : J.RefTarget → Merge}
    (h : J.Alternates terms) : J.KeepsLegacyForm where
  removedIds removes adds := by
    rw [h.removedIds, h.fromLegacyForm]
    exact reference_keepsLegacyForm.removedIds removes adds
  addedIds removes adds := by
    rw [h.addedIds, h.fromLegacyForm]
    exact reference_keepsLegacyForm.addedIds removes adds

end JjLib

/-! ## Prefixes of ids -/

/-- jj's answer to the question which id a prefix stands for. -/
inductive Jj.PrefixResolution (α : Type) where
  | noMatch
  | singleMatch (id : α)
  | ambiguousMatch
  deriving DecidableEq

/-- jj's prefixes of ids, by their hexadecimal digits, and how they are compared. -/
structure JjPrefix where
  HexPrefix : Type
  digits : HexPrefix → Bytes
  matchesId : HexPrefix → Bytes → Bool

namespace JjPrefix

def MatchesDigits (X : JjPrefix) : Prop :=
  ∀ hexPrefix id, X.matchesId hexPrefix id ↔ X.digits hexPrefix <+: hex id

/-- A prefix is a list of digits. -/
def reference : JjPrefix where
  HexPrefix := List (Fin 16)
  digits hexPrefix := hexPrefix.map fun digit => hexDigit digit
  matchesId hexPrefix id :=
    (hexPrefix.map fun digit => hexDigit digit).isPrefixOf (hex id)

theorem reference_matchesDigits : reference.MatchesDigits :=
  fun _ _ => List.isPrefixOf_iff_prefix

end JjPrefix

end CommitCloud
