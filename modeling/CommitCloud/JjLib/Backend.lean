import CommitCloud.JjLib

/-!
# The commits and trees of jj

The objects of `jj_lib::backend` that the client converts.  What `jj-lib` makes
of the lists the client gives it is known only through the functions that
`JjBackend` bundles as parameters.
-/

namespace CommitCloud.Jj

open Foundation

abbrev ChangeId := Bytes
abbrev SymlinkId := Bytes
abbrev CopyId := Bytes

/-! ## Commits -/

structure Signature where
  name : String
  email : String
  timestamp : Timestamp
  deriving DecidableEq

structure SecureSig where
  data : Bytes
  sig : Bytes
  deriving DecidableEq

/-- Terms of alternating sign, of which the first and the last are added. -/
@[ext] structure Merge (α : Type) where
  values : List α
  odd : values.length % 2 = 1
  deriving DecidableEq

def Merge.resolved {α : Type} (value : α) : Merge α := ⟨[value], rfl⟩

structure Commit where
  parents : List CommitId
  predecessors : List CommitId
  rootTree : Merge TreeId
  conflictLabels : Merge String
  changeId : ChangeId
  description : String
  author : Signature
  committer : Signature
  secureSig : Option SecureSig
  deriving DecidableEq

/-- A conflict has labels if it has more than one term and a label is not empty. -/
def Labeled (labels : Merge String) : Prop :=
  labels.values.length ≠ 1 ∧ ∃ label ∈ labels.values, label ≠ ""

instance (labels : Merge String) : Decidable (Labeled labels) :=
  inferInstanceAs (Decidable (_ ∧ _))

/-- The labels as `ConflictLabels::from_merge` keeps them. -/
def normalLabels (labels : Merge String) : Merge String :=
  if Labeled labels then labels else .resolved ""

theorem normalLabels_eq_self_iff {labels : Merge String} :
    normalLabels labels = labels ↔ Labeled labels ∨ labels = .resolved "" := by
  unfold normalLabels
  split
  next h => simp [h]
  next h => simp [h, eq_comm]

/-! ## Trees -/

/-- The name of a tree entry: not empty, and without a slash. -/
structure RepoPathComponent where
  value : String
  nonempty : value ≠ ""
  noSlash : '/' ∉ value.toList
  deriving DecidableEq

inductive TreeValue where
  | file (id : FileId) (executable : Bool) (copyId : CopyId)
  | symlink (id : SymlinkId)
  | tree (id : TreeId)
  | gitSubmodule (id : CommitId)
  deriving DecidableEq

/-- Entries by strictly ascending names. -/
@[ext] structure Tree where
  entries : List (RepoPathComponent × TreeValue)
  sorted : entries.Pairwise fun a b => a.1.value < b.1.value
  deriving DecidableEq

/-- `Tree::from_sorted_entries`; `none` if its precondition is not met. -/
def Tree.fromSortedEntries (entries : List (RepoPathComponent × TreeValue)) :
    Option Tree :=
  if h : entries.Pairwise fun a b => a.1.value < b.1.value then some ⟨entries, h⟩
  else none

theorem Tree.fromSortedEntries_entries (tree : Tree) :
    fromSortedEntries tree.entries = some tree := by
  rw [fromSortedEntries, dif_pos tree.sorted]

end Jj

/-! ## The functions of jj -/

/--
What the client's backend calls: the checked constructor of names, the merge
built from a list of terms, the labels made of a list by
`ConflictLabels::from_vec`, and the root commit.  A name is rejected with a
message; the result is `none` where `jj-lib` panics.
-/
structure JjBackend where
  newComponent : String → Except String Jj.RepoPathComponent
  buildMerge : List TreeId → Option (Jj.Merge TreeId)
  labelsFromVec : List String → Option (Jj.Merge String)
  makeRootCommit : Jj.ChangeId → TreeId → Jj.Commit

namespace JjBackend

def AcceptsNames (B : JjBackend) : Prop :=
  ∀ name : Jj.RepoPathComponent, B.newComponent name.value = .ok name

/-- An odd number of terms is kept in order. -/
def KeepsTerms (B : JjBackend) : Prop :=
  ∀ terms : Jj.Merge TreeId, B.buildMerge terms.values = some terms

def NormalizesLabels (B : JjBackend) : Prop :=
  ∀ labels : Jj.Merge String,
    B.labelsFromVec labels.values = some (Jj.normalLabels labels)

/-- A name is accepted as it is, or not at all. -/
def KeepsNames (B : JjBackend) : Prop :=
  ∀ value name, B.newComponent value = .ok name → name.value = value

/-- Only an odd number of terms is built; with any other number jj panics. -/
def BuildsOdd (B : JjBackend) : Prop :=
  ∀ terms, (B.buildMerge terms).isSome ↔ terms.length % 2 = 1

def LabelsOdd (B : JjBackend) : Prop :=
  ∀ labels, (B.labelsFromVec labels).isSome ↔ labels = [] ∨ labels.length % 2 = 1

def RootIsUnsigned (B : JjBackend) : Prop :=
  ∀ changeId treeId, (B.makeRootCommit changeId treeId).secureSig = none

/-- The root commit has no parents and the given tree. -/
def RootIsBare (B : JjBackend) : Prop :=
  ∀ changeId treeId, (B.makeRootCommit changeId treeId).parents = [] ∧
    (B.makeRootCommit changeId treeId).rootTree = .resolved treeId

def oddTerms {α : Type} (values : List α) : Option (Jj.Merge α) :=
  if h : values.length % 2 = 1 then some ⟨values, h⟩ else none

/-- The functions as documented. -/
def reference : JjBackend where
  newComponent value :=
    if h : value ≠ "" ∧ '/' ∉ value.toList then .ok ⟨value, h.1, h.2⟩
    else .error "invalid repo path component"
  buildMerge := oddTerms
  labelsFromVec labels :=
    if labels.isEmpty then some (.resolved "")
    else (oddTerms labels).map Jj.normalLabels
  makeRootCommit changeId treeId := {
    parents := []
    predecessors := []
    rootTree := .resolved treeId
    conflictLabels := .resolved ""
    changeId := changeId
    description := ""
    author := ⟨"", "", ⟨0, 0⟩⟩
    committer := ⟨"", "", ⟨0, 0⟩⟩
    secureSig := none }

theorem oddTerms_values {α : Type} (terms : Jj.Merge α) :
    oddTerms terms.values = some terms := by
  rw [oddTerms, dif_pos terms.odd]

theorem reference_acceptsNames : reference.AcceptsNames := by
  intro name
  simp only [reference]
  rw [dif_pos ⟨name.nonempty, name.noSlash⟩]

theorem reference_keepsTerms : reference.KeepsTerms := oddTerms_values

theorem reference_normalizesLabels : reference.NormalizesLabels := by
  intro labels
  have hne : labels.values.isEmpty = false := by
    cases hvalues : labels.values with
    | nil => simpa [hvalues] using labels.odd
    | cons label rest => rfl
  simp only [reference, hne, Bool.false_eq_true, if_false, oddTerms_values,
    Option.map_some]

theorem oddTerms_isSome {α : Type} (values : List α) :
    (oddTerms values).isSome ↔ values.length % 2 = 1 := by
  unfold oddTerms
  split
  next h => exact iff_of_true rfl h
  next h => exact iff_of_false nofun h

theorem reference_keepsNames : reference.KeepsNames := by
  intro value name h
  simp only [reference] at h
  split at h
  next => exact Except.ok.inj h ▸ rfl
  next => cases h

theorem reference_buildsOdd : reference.BuildsOdd := oddTerms_isSome

theorem reference_labelsOdd : reference.LabelsOdd := by
  intro labels
  cases labels with
  | nil => exact iff_of_true rfl (.inl rfl)
  | cons label labels =>
      simp [reference, oddTerms_isSome]

theorem reference_rootIsUnsigned : reference.RootIsUnsigned := fun _ _ => rfl

theorem reference_rootIsBare : reference.RootIsBare := fun _ _ => ⟨rfl, rfl⟩

end JjBackend

end CommitCloud
