import CommitCloud.Common
import CommitCloud.Foundation.Sha1
import CommitCloud.Foundation.Sorting
import Mathlib.Data.Set.Function

/-!
# The platform under the server

Everything the hashing code takes from outside the repository: SHA-1, the
serializers and the entry order of `gix`, the standard library's unstable sort,
and whether the build checks integer overflow and debug assertions.  `Platform`
bundles them as parameters.  What is documented about each of them is a separate named
property, so that a result says which of them it rests on.
-/

namespace CommitCloud.Gix

open Foundation

/-! ## Git objects -/

@[ext] structure ObjectId where
  bytes : Bytes
  length_eq : bytes.length = 20
  deriving DecidableEq

/-- `ObjectId::try_from` accepts exactly the slices of twenty bytes. -/
def ObjectId.tryFrom (bytes : Bytes) : Option ObjectId :=
  if h : bytes.length = 20 then some ⟨bytes, h⟩ else none

def ObjectId.emptyTree : ObjectId := ⟨emptyTreeIdBytes, rfl⟩

inductive Kind where
  | blob
  | tree
  | commit
  deriving DecidableEq

structure Time where
  seconds : Int64
  offset : Int32
  deriving DecidableEq

structure Signature where
  name : Bytes
  email : Bytes
  time : Time
  deriving DecidableEq

structure Commit where
  tree : ObjectId
  parents : List ObjectId
  author : Signature
  committer : Signature
  encoding : Option Bytes
  extraHeaders : List (Bytes × Bytes)
  message : Bytes
  deriving DecidableEq

inductive EntryKind where
  | tree
  | blob
  | blobExecutable
  | link
  deriving DecidableEq

structure Entry where
  mode : EntryKind
  filename : Bytes
  oid : ObjectId
  deriving DecidableEq

/-! ## The Git object format -/

def Kind.bytes : Kind → Bytes
  | .blob => utf8 "blob"
  | .tree => utf8 "tree"
  | .commit => utf8 "commit"

/-- The header of a loose object: kind, space, decimal size, NUL. -/
def looseHeader (kind : Kind) (size : Nat) : Bytes :=
  kind.bytes ++ 32 :: decimal size ++ [0]

def hashInput (kind : Kind) (data : Bytes) : Bytes :=
  looseHeader kind data.length ++ data

/-- Two decimal digits, for numbers up to 99. -/
def twoDigits (n : Nat) : Bytes :=
  [UInt8.ofNat (48 + n / 10), UInt8.ofNat (48 + n % 10)]

def Time.offsetHours (time : Time) : Nat := time.offset.toInt.natAbs / 3600

def Time.offsetMinutes (time : Time) : Nat :=
  time.offset.toInt.natAbs % 3600 / 60

def Time.offsetText (time : Time) : Bytes :=
  (if time.offset.toInt < 0 then 45 else 43) ::
    (twoDigits time.offsetHours ++ twoDigits time.offsetMinutes)

def Time.serialize (time : Time) : Bytes :=
  decimalInt time.seconds.toInt ++ 32 :: time.offsetText

/-- The characters `<`, `>` and newline delimit the parts of a signature. -/
def illegalInSignature (byte : UInt8) : Bool :=
  byte == 60 || byte == 62 || byte == 10

def Signature.Writable (signature : Signature) : Prop :=
  (∀ b ∈ signature.name, illegalInSignature b = false) ∧
    (∀ b ∈ signature.email, illegalInSignature b = false) ∧
    signature.time.offsetHours ≤ 99

instance (signature : Signature) : Decidable signature.Writable :=
  inferInstanceAs (Decidable (_ ∧ _ ∧ _))

/-- `name <email> seconds +hhmm` -/
def Signature.serialize (signature : Signature) : Bytes :=
  signature.name ++ 32 :: 60 :: signature.email ++ 62 :: 32 ::
    signature.time.serialize

def header (name value : Bytes) : Bytes := name ++ 32 :: value ++ [10]

def Commit.serialize (commit : Commit) : Bytes :=
  header (utf8 "tree") (hex commit.tree.bytes) ++
    commit.parents.flatMap (fun id => header (utf8 "parent") (hex id.bytes)) ++
    header (utf8 "author") commit.author.serialize ++
    header (utf8 "committer") commit.committer.serialize ++
    (commit.encoding.elim [] fun name => header (utf8 "encoding") name) ++
    commit.extraHeaders.flatMap (fun h => header h.1 h.2) ++
    10 :: commit.message

def EntryKind.bytes : EntryKind → Bytes
  | .tree => utf8 "40000"
  | .blob => utf8 "100644"
  | .blobExecutable => utf8 "100755"
  | .link => utf8 "120000"

/-- Mode, space, name, NUL, raw id. -/
def Entry.serialize (entry : Entry) : Bytes :=
  entry.mode.bytes ++ 32 :: entry.filename ++ 0 :: entry.oid.bytes

/-- The byte after a common prefix; a tree's name continues with `/`. -/
def Entry.byteAt (entry : Entry) (position : Nat) : Option UInt8 :=
  entry.filename[position]?.or (if entry.mode = .tree then some 47 else none)

def compareNext : Option UInt8 → Option UInt8 → Ordering
  | none, none => .eq
  | none, some _ => .lt
  | some _, none => .gt
  | some a, some b => cmp a b

/-- Git's order of tree entries. -/
def Entry.compare (a b : Entry) : Ordering :=
  let common := min a.filename.length b.filename.length
  (cmp (a.filename.take common) (b.filename.take common)).then
    (compareNext (a.byteAt common) (b.byteAt common))

/-- The comparison is a total order as far as these values show it. -/
structure TotalOn {α : Type} (compare : α → α → Ordering) (values : List α) :
    Prop where
  swap : ∀ a ∈ values, ∀ b ∈ values, compare b a = (compare a b).swap
  trans : ∀ a ∈ values, ∀ b ∈ values, ∀ c ∈ values, compare a b ≠ .gt →
    compare b c ≠ .gt → compare a c ≠ .gt

theorem TotalOn.totalOrderOn {α : Type} {compare : α → α → Ordering} {values : List α}
    (h : TotalOn compare values) :
    TotalOrderOn (fun a b => compare a b ≠ .gt) values where
  total a ha b hb := by
    rw [h.swap a ha b hb]
    cases compare a b <;> simp
  trans := h.trans

end Gix

/-! ## The platform -/

open Foundation

/--
The parameters of the server's hashing code.  `writeCommit` and `writeTree`
return `none` where `gix` returns an error or an assertion of it fails, and
`sortUnstable` where the sort panics.  `entriesSorted` is what `gix` asserts of
the entries of a tree.
-/
structure Platform where
  overflowChecks : Bool
  debugAssertions : Bool
  sha1 : Bytes → Gix.ObjectId
  writeCommit : Gix.Commit → Option Bytes
  writeTree : List Gix.Entry → Option Bytes
  entriesSorted : List Gix.Entry → Bool
  compareEntries : Gix.Entry → Gix.Entry → Ordering
  sortUnstable : (Gix.Entry → Gix.Entry → Ordering) → List Gix.Entry →
    Option (List Gix.Entry)

namespace Platform

variable (P : Platform)

/-- `gix::objs::compute_hash` -/
def computeHash (kind : Gix.Kind) (data : Bytes) : Gix.ObjectId :=
  P.sha1 (Gix.hashInput kind data)

/-- An overflowing `i32` product panics in a checked build, else it wraps. -/
def mulInt32 (x y : Int32) : Option Int32 :=
  if P.overflowChecks ∧ (x * y).toInt ≠ x.toInt * y.toInt then none
  else some (x * y)

/--
`gix` writes the standard commit layout and rejects unwritable signatures.  The
values of extra headers must be single lines.
-/
def SerializesCommits : Prop :=
  ∀ commit : Gix.Commit, (∀ h ∈ commit.extraHeaders, (10 : UInt8) ∉ h.2) →
    P.writeCommit commit =
      if commit.author.Writable ∧ commit.committer.Writable
      then some commit.serialize else none

/-- A build without debug assertions accepts any order of the entries of a tree. -/
def AcceptsOrder (entries : List Gix.Entry) : Prop :=
  P.debugAssertions = true → P.entriesSorted entries = true

instance (entries : List Gix.Entry) : Decidable (P.AcceptsOrder entries) :=
  inferInstanceAs (Decidable (_ → _))

/--
`gix` writes a tree entry by entry and rejects a NUL in a name.  The entries of
a tree must be sorted, which is only asserted.
-/
structure SerializesTrees : Prop where
  writeTree : ∀ entries, P.writeTree entries =
    if P.AcceptsOrder entries ∧ ∀ entry ∈ entries, (0 : UInt8) ∉ entry.filename
    then some (entries.flatMap Gix.Entry.serialize) else none
  entriesSorted : ∀ entries,
    entries.Pairwise (fun a b => P.compareEntries a b ≠ .gt) → P.entriesSorted entries

/-- A sort that returns has permuted its input. -/
def SortPermutes : Prop :=
  ∀ compare entries sorted,
    P.sortUnstable compare entries = some sorted → sorted.Perm entries

/-- A sort by a total order returns its input in ascending order. -/
def SortsTotalOrders : Prop :=
  ∀ compare entries, Gix.TotalOn compare entries →
    ∃ sorted, P.sortUnstable compare entries = some sorted ∧
      sorted.Pairwise fun a b => compare a b ≠ .gt

/-- `gix` orders tree entries as Git does. -/
def ComparesEntries : Prop := P.compareEntries = Gix.Entry.compare

/-- The id known as Git's empty tree is the hash of the tree without entries. -/
def HashesEmptyTree : Prop :=
  P.computeHash .tree [] = Gix.ObjectId.emptyTree

/-- SHA-1 does not collide on what it is given for objects with data in `given`. -/
def Sha1InjOn (kind : Gix.Kind) (given : Set Bytes) : Prop :=
  Set.InjOn P.sha1 (Gix.hashInput kind '' given)

/-- Nor does it when only the first `length` bytes are kept. -/
def TruncatedInjOn (kind : Gix.Kind) (length : Nat) (given : Set Bytes) : Prop :=
  Set.InjOn (fun input => (P.sha1 input).bytes.take length)
    (Gix.hashInput kind '' given)

/-- What `gix` asserts: to sort the entries changes nothing. -/
def sortKeeps (entries : List Gix.Entry) : Bool :=
  entries.insertionSort (fun a b => a.compare b ≠ .gt) = entries

/-- The parameters as documented, in a build with overflow checks and debug assertions. -/
def reference : Platform where
  overflowChecks := true
  debugAssertions := true
  sha1 input := ⟨Sha1.digest input, Sha1.length_digest input⟩
  writeCommit commit :=
    if commit.author.Writable ∧ commit.committer.Writable
    then some commit.serialize else none
  writeTree entries :=
    if sortKeeps entries ∧ ∀ entry ∈ entries, (0 : UInt8) ∉ entry.filename
    then some (entries.flatMap Gix.Entry.serialize) else none
  entriesSorted := sortKeeps
  compareEntries := Gix.Entry.compare
  sortUnstable compare entries :=
    some (entries.insertionSort fun a b => compare a b ≠ .gt)

theorem reference_serializesCommits : reference.SerializesCommits :=
  fun _ _ => rfl

theorem reference_serializesTrees : reference.SerializesTrees where
  writeTree entries := by
    have horder : reference.AcceptsOrder entries ↔ sortKeeps entries :=
      forall_prop_of_true rfl
    rw [if_congr (and_congr_left' horder) rfl rfl]
    rfl
  entriesSorted entries h := by
    have hsorted : entries.insertionSort (fun a b => a.compare b ≠ .gt) = entries :=
      h.insertionSort_eq
    exact decide_eq_true hsorted

theorem reference_sortPermutes : reference.SortPermutes := by
  intro compare entries sorted h
  obtain rfl := Option.some.inj h
  exact List.perm_insertionSort _ entries

theorem reference_sortsTotalOrders : reference.SortsTotalOrders :=
  fun _ _ htotal => ⟨_, rfl, pairwise_insertionSort htotal.totalOrderOn⟩

theorem reference_comparesEntries : reference.ComparesEntries := rfl

theorem reference_hashesEmptyTree : reference.HashesEmptyTree := by
  unfold HashesEmptyTree
  decide +kernel

end Platform

end CommitCloud
