import CommitCloud.Gix
import CommitCloud.Proto.Backend
import CommitCloud.Proto.OpStore

/-!
# Object ids

`server/src/hash_utils.rs`.  Commits, trees and files get the id Git gives
them; operations and views get the truncated hash of a buffer that is filled
field by field.  Where the source's hashing code can panic, the model returns
`none`.
-/

namespace CommitCloud.Server

open Foundation CommitCloud.Proto.Backend CommitCloud.Proto.OpStore

variable (P : Platform)

def emptyStringPlaceholder : String := "JJ_EMPTY_STRING"

def appendLengthPrefixedBytes (buf bytes : Bytes) : Bytes :=
  buf ++ leBytes 8 bytes.length ++ bytes

def appendLengthPrefixedStr (buf : Bytes) (s : String) : Bytes :=
  appendLengthPrefixedBytes buf (utf8 s)

/-! ## Git objects -/

/-- `none` is the overflow of `offset_mins * 60` in a checked build. -/
def signatureToGit (sig : Option Signature) : Option Gix.Signature := do
  let (name, email) := match sig with
    | some s =>
        (if s.name.isEmpty then emptyStringPlaceholder else s.name,
          if s.email.isEmpty then emptyStringPlaceholder else s.email)
    | none => (emptyStringPlaceholder, emptyStringPlaceholder)
  let (secs, offsetMins) := match sig.bind (·.timestamp) with
    | some t => (t.millisSinceEpoch / 1000, t.tzOffset)
    | none => (0, 0)
  let offset ← P.mulInt32 offsetMins 60
  return { name := utf8 name, email := utf8 email, time := ⟨secs, offset⟩ }

def gitTree (commit : Commit) : Gix.ObjectId :=
  (commit.rootTreeId.head?.bind Gix.ObjectId.tryFrom).getD Gix.ObjectId.emptyTree

def gitParents (commit : Commit) : List Gix.ObjectId :=
  (commit.parentCommitIds.filter (· ≠ rootCommitIdBytes)).filterMap
    Gix.ObjectId.tryFrom

/-- The change id, its bytes in reverse, as an extra header. -/
def gitExtraHeaders (commit : Commit) : List (Bytes × Bytes) :=
  if commit.changeId.isEmpty then []
  else [(utf8 "change-id", hex commit.changeId.reverse)]

def gitCommit (commit : Commit) : Option Gix.Commit := do
  let author ← signatureToGit P commit.author
  let committer ← signatureToGit P commit.committer
  return {
    tree := gitTree commit
    parents := gitParents commit
    author := author
    committer := committer
    encoding := none
    extraHeaders := gitExtraHeaders commit
    message := utf8 commit.description }

/-- The serialized commit; `none` where building or writing it panics. -/
def commitBuffer (commit : Commit) : Option Bytes :=
  (gitCommit P commit).bind P.writeCommit

def computeGitCommitHash (commit : Commit) : Option Bytes :=
  (commitBuffer P commit).map fun buf => (P.computeHash .commit buf).bytes

def computeGitBlobHash (content : Bytes) : Bytes :=
  (P.computeHash .blob content).bytes

/-- Kind and id bytes of an entry; a missing or conflict value is a blob of zeros. -/
def gitKindAndId (entry : TreeEntry) : Gix.EntryKind × Bytes :=
  match entry.value.bind (·.value) with
  | some (.file f) => (if f.executable then .blobExecutable else .blob, f.id)
  | some (.treeId id) => (.tree, id)
  | some (.symlinkId id) => (.link, id)
  | _ => (.blob, rootCommitIdBytes)

/-- The Git entry of a tree entry; an entry whose id is no object id is dropped. -/
def gitEntry (entry : TreeEntry) : Option Gix.Entry :=
  (Gix.ObjectId.tryFrom (gitKindAndId entry).2).map fun oid =>
    ⟨(gitKindAndId entry).1, utf8 entry.name, oid⟩

def gitEntries (entries : List TreeEntry) : List Gix.Entry :=
  entries.filterMap gitEntry

/-- The serialized tree; `none` where sorting, asserting the order or writing panics. -/
def treeBuffer (entries : List TreeEntry) : Option Bytes :=
  (P.sortUnstable P.compareEntries (gitEntries entries)).bind P.writeTree

def computeGitTreeHash (entries : List TreeEntry) : Option Bytes :=
  (treeBuffer P entries).map fun buf => (P.computeHash .tree buf).bytes

/-! ## Operations and views -/

def appendBool (buf : Bytes) (b : Bool) : Bytes :=
  buf ++ [if b then 1 else 0]

def appendMetadata (buf : Bytes) (metadata : OperationMetadata) : Bytes :=
  let buf := buf ++ leBytesInt64 metadata.startTimeMillis
  let buf := buf ++ leBytesInt64 metadata.endTimeMillis
  let buf := appendLengthPrefixedStr buf metadata.description
  let buf := appendLengthPrefixedStr buf metadata.hostname
  let buf := appendLengthPrefixedStr buf metadata.username
  let buf := appendBool buf metadata.isSnapshot
  let buf := match metadata.workspaceName with
    | some ws => appendLengthPrefixedStr buf ws
    | none => buf
  let sortedAttrs := BTreeMap.collect metadata.attributes.entries
  sortedAttrs.entries.foldl
    (fun buf attr =>
      appendLengthPrefixedStr (appendLengthPrefixedStr buf attr.1) attr.2) buf

def operationBuffer (op : Operation) : Bytes :=
  let buf := appendLengthPrefixedBytes [] op.viewId
  let buf := op.parents.foldl appendLengthPrefixedBytes buf
  let buf := match op.metadata with
    | some metadata => appendMetadata buf metadata
    | none => buf
  op.commitPredecessors.foldl
    (fun buf pred =>
      pred.predecessorIds.foldl appendLengthPrefixedBytes
        (appendLengthPrefixedBytes buf pred.commitId)) buf

def hashOperation (op : Operation) : Bytes :=
  (P.computeHash .blob (operationBuffer op)).bytes.take operationIdLength

def sortedCommitIds (terms : List RefTargetTerm) : List Bytes :=
  (terms.map (·.commitId)).insertionSort (· ≤ ·)

def appendRefTarget (buf : Bytes) (target : RefTarget) : Bytes :=
  let buf := (sortedCommitIds target.removes).foldl appendLengthPrefixedBytes buf
  (sortedCommitIds target.adds).foldl appendLengthPrefixedBytes buf

def appendRemoteBookmark (buf : Bytes) (remote : String × RemoteRef) : Bytes :=
  let buf := appendLengthPrefixedStr buf remote.1
  let buf := appendBool buf remote.2.isTracked
  match remote.2.target with
  | some target => appendRefTarget buf target
  | none => buf

def viewBuffer (view : View) : Bytes :=
  let headIds := view.headIds.insertionSort (· ≤ ·)
  let buf := headIds.foldl appendLengthPrefixedBytes []
  let sortedWc := BTreeMap.collect view.wcCommitIds.entries
  let buf := sortedWc.entries.foldl
    (fun buf wc =>
      appendLengthPrefixedBytes (appendLengthPrefixedStr buf wc.1) wc.2) buf
  let sortedBookmarks := BTreeMap.collect view.localBookmarks.entries
  let buf := sortedBookmarks.entries.foldl
    (fun buf bookmark =>
      appendRefTarget (appendLengthPrefixedStr buf bookmark.1) bookmark.2) buf
  let sortedRemotes := BTreeMap.collect view.remoteBookmarks.entries
  sortedRemotes.entries.foldl appendRemoteBookmark buf

def hashView (view : View) : Bytes :=
  (P.computeHash .blob (viewBuffer view)).bytes.take viewIdLength

@[simp] theorem length_hashOperation (op : Operation) :
    (hashOperation P op).length = operationIdLength := by
  simp [hashOperation, (P.computeHash .blob _).length_eq, operationIdLength]

@[simp] theorem length_hashView (view : View) :
    (hashView P view).length = viewIdLength := by
  simp [hashView, (P.computeHash .blob _).length_eq, viewIdLength]

end CommitCloud.Server
