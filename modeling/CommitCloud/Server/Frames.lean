import CommitCloud.Foundation.Framing
import CommitCloud.Server.HashUtils

/-!
# What the operation store hashes

The buffers of operations and views as framed streams.  The hashing code writes
no counts and no marks between the sections of a buffer, so a buffer says which
fields were written only up to a frame shift, and its fields say which object
they are of only as far as that can be read off the mere sequence of fields.
Only a buffer of length-prefixed fields alone says exactly which they were.
-/

namespace CommitCloud.Server

open Foundation CommitCloud.Proto.OpStore

/-! ## Fields -/

def textField (s : String) : Field := .prefixed (utf8 s)

def intField (value : Int64) : Field :=
  .fixed (leBytesInt64 value) (List.ne_nil_of_length_pos (by simp))

def boolField (b : Bool) : Field := .fixed [if b then 1 else 0] (by simp)

def metadataFields (metadata : OperationMetadata) : List Field :=
  [intField metadata.startTimeMillis, intField metadata.endTimeMillis,
    textField metadata.description, textField metadata.hostname,
    textField metadata.username, boolField metadata.isSnapshot] ++
  metadata.workspaceName.toList.map textField ++
  (BTreeMap.collect metadata.attributes.entries).entries.flatMap
    fun attr => [textField attr.1, textField attr.2]

def predecessorFields (pred : CommitPredecessors) : List Field :=
  .prefixed pred.commitId :: pred.predecessorIds.map .prefixed

def operationFields (op : Operation) : List Field :=
  .prefixed op.viewId :: op.parents.map .prefixed ++
    op.metadata.elim [] metadataFields ++
    op.commitPredecessors.flatMap predecessorFields

def refTargetFields (target : RefTarget) : List Field :=
  (sortedCommitIds target.removes).map .prefixed ++
    (sortedCommitIds target.adds).map .prefixed

def remoteRefFields (remote : RemoteRef) : List Field :=
  boolField remote.isTracked :: remote.target.elim [] refTargetFields

def viewFields (view : View) : List Field :=
  (view.headIds.insertionSort (· ≤ ·)).map .prefixed ++
    (BTreeMap.collect view.wcCommitIds.entries).entries.flatMap
      (fun wc => [textField wc.1, .prefixed wc.2]) ++
    (BTreeMap.collect view.localBookmarks.entries).entries.flatMap
      (fun bookmark => textField bookmark.1 :: refTargetFields bookmark.2) ++
    (BTreeMap.collect view.remoteBookmarks.entries).entries.flatMap
      (fun remote => textField remote.1 :: remoteRefFields remote.2)

/-! ## Buffers -/

theorem appendLengthPrefixedBytes_eq (buf bytes : Bytes) :
    appendLengthPrefixedBytes buf bytes =
      buf ++ encodeFields [.prefixed bytes] := by
  simp [appendLengthPrefixedBytes, Field.encode]

theorem appendLengthPrefixedStr_eq (buf : Bytes) (s : String) :
    appendLengthPrefixedStr buf s = buf ++ encodeFields [textField s] :=
  appendLengthPrefixedBytes_eq buf (utf8 s)

theorem foldl_appendLengthPrefixedBytes (buf : Bytes) (ids : List Bytes) :
    ids.foldl appendLengthPrefixedBytes buf =
      buf ++ encodeFields (ids.map .prefixed) := by
  rw [foldl_append_fields appendLengthPrefixedBytes_eq, List.map_eq_flatMap]

theorem appendBool_eq (buf : Bytes) (b : Bool) :
    appendBool buf b = buf ++ encodeFields [boolField b] := by
  simp [appendBool, boolField, Field.encode]

theorem appendMetadata_eq (buf : Bytes) (metadata : OperationMetadata) :
    appendMetadata buf metadata = buf ++ encodeFields (metadataFields metadata) := by
  have hint (value : Int64) :
      leBytesInt64 value = encodeFields [intField value] := by
    simp [intField, Field.encode]
  have hattrs (buf : Bytes) (attr : String × String) :
      appendLengthPrefixedStr (appendLengthPrefixedStr buf attr.1) attr.2 =
        buf ++ encodeFields [textField attr.1, textField attr.2] := by
    simp [appendLengthPrefixedStr_eq]
  simp only [appendMetadata, metadataFields, foldl_append_fields hattrs]
  cases metadata.workspaceName <;>
    simp [appendLengthPrefixedStr_eq, appendBool_eq, hint]

theorem operationBuffer_eq (op : Operation) :
    operationBuffer op = encodeFields (operationFields op) := by
  have hpred (buf : Bytes) (pred : CommitPredecessors) :
      pred.predecessorIds.foldl appendLengthPrefixedBytes
          (appendLengthPrefixedBytes buf pred.commitId) =
        buf ++ encodeFields (predecessorFields pred) := by
    simp [foldl_appendLengthPrefixedBytes, appendLengthPrefixedBytes_eq,
      predecessorFields]
  simp only [operationBuffer, operationFields, foldl_append_fields hpred]
  cases op.metadata <;>
    simp [foldl_appendLengthPrefixedBytes, appendLengthPrefixedBytes_eq,
      appendMetadata_eq]

theorem appendRefTarget_eq (buf : Bytes) (target : RefTarget) :
    appendRefTarget buf target = buf ++ encodeFields (refTargetFields target) := by
  simp [appendRefTarget, refTargetFields, foldl_appendLengthPrefixedBytes]

theorem viewBuffer_eq (view : View) :
    viewBuffer view = encodeFields (viewFields view) := by
  have hwc (buf : Bytes) (wc : String × Bytes) :
      appendLengthPrefixedBytes (appendLengthPrefixedStr buf wc.1) wc.2 =
        buf ++ encodeFields [textField wc.1, .prefixed wc.2] := by
    simp [appendLengthPrefixedStr_eq, appendLengthPrefixedBytes_eq]
  have hbookmark (buf : Bytes) (bookmark : String × RefTarget) :
      appendRefTarget (appendLengthPrefixedStr buf bookmark.1) bookmark.2 =
        buf ++ encodeFields
          (textField bookmark.1 :: refTargetFields bookmark.2) := by
    simp [appendLengthPrefixedStr_eq, appendRefTarget_eq]
  have hremote (buf : Bytes) (remote : String × RemoteRef) :
      appendRemoteBookmark buf remote =
        buf ++ encodeFields
          (textField remote.1 :: remoteRefFields remote.2) := by
    simp only [appendRemoteBookmark, remoteRefFields]
    cases remote.2.target <;>
      simp [appendLengthPrefixedStr_eq, appendBool_eq, appendRefTarget_eq]
  simp only [viewBuffer, viewFields]
  rw [foldl_append_fields hwc, foldl_append_fields hbookmark,
    foldl_append_fields hremote, foldl_appendLengthPrefixedBytes]
  simp only [encodeFields_append, List.nil_append]

/-! ## Sequences -/

section Sequences

variable {buf : Bytes}

/--
Appended one after another to the same buffer, two sequences of byte strings
give the same bytes only if they are the same: the length before each element
says where the next one begins, whatever the elements themselves look like.
-/
theorem lengthPrefixedSequence_eq_iff {elements elements' : List Bytes}
    (hsize : ∀ bytes ∈ elements, bytes.length < 2 ^ 64)
    (hsize' : ∀ bytes ∈ elements', bytes.length < 2 ^ 64) :
    elements.foldl appendLengthPrefixedBytes buf =
        elements'.foldl appendLengthPrefixedBytes buf ↔
      elements = elements' := by
  rw [foldl_appendLengthPrefixedBytes, foldl_appendLengthPrefixedBytes,
    List.append_right_inj]
  exact encodeFields_prefixed_eq_iff (Field.sized_of_length_lt hsize)
    (Field.sized_of_length_lt hsize')

theorem lengthPrefixedSequence_ne_movedBoundary :
    [utf8 "foo", utf8 "bar"].foldl appendLengthPrefixedBytes [] ≠
      [utf8 "foob", utf8 "ar"].foldl appendLengthPrefixedBytes [] :=
  (lengthPrefixedSequence_eq_iff (by decide) (by decide)).not.mpr (by decide)

end Sequences

end CommitCloud.Server
