import CommitCloud.Server.Frames

/-!
# Sections of operations and views

Which objects have the same fields, and where two objects can be a frame shift
of each other.  Raw fields are what keeps the sections of an object apart; they
are also the only place for a shift, where one object has a raw field and the
other a length prefix.  There the two objects have to satisfy a condition of
their own: a start time or a flag of one is the beginning of the length of an
id or a name of the other.
-/

namespace CommitCloud.Server

open Foundation CommitCloud.Proto.OpStore

/-! ## Sections of an operation -/

def metadataTexts (metadata : OperationMetadata) : List Bytes :=
  (metadata.workspaceName.toList ++
    (BTreeMap.collect metadata.attributes.entries).entries.flatMap
      fun attr => [attr.1, attr.2]).map utf8

def predecessorIds (op : Operation) : List Bytes :=
  op.commitPredecessors.flatMap fun pred => pred.commitId :: pred.predecessorIds

/-- The ids in front of the first raw field. -/
def leadingIds (op : Operation) : List Bytes :=
  op.viewId :: op.metadata.elim (op.parents ++ predecessorIds op) fun _ => op.parents

def operationPayloads (op : Operation) : List Bytes :=
  leadingIds op ++ op.metadata.elim [] fun metadata =>
    [metadata.description, metadata.hostname, metadata.username].map utf8 ++
      metadataTexts metadata ++ predecessorIds op

/--
The sections of an operation that are told apart.  Without metadata the parents
run into the predecessors; behind metadata the workspace name, the attributes
and the predecessors run into each other.
-/
def SameOperationSections (op op' : Operation) : Prop :=
  leadingIds op = leadingIds op' ∧
    match op.metadata, op'.metadata with
    | none, none => True
    | some metadata, some metadata' =>
        { metadata with workspaceName := none, attributes := .empty } =
            { metadata' with workspaceName := none, attributes := .empty } ∧
          metadataTexts metadata ++ predecessorIds op =
            metadataTexts metadata' ++ predecessorIds op'
    | _, _ => False

theorem textField_injective : Function.Injective textField :=
  fun _ _ h => utf8_injective (Field.prefixed.inj h)

theorem intField_injective : Function.Injective intField :=
  fun _ _ h => leBytesInt64_injective (Field.fixed.inj h)

theorem boolField_injective : Function.Injective boolField := by
  intro a b
  cases a <;> cases b <;> simp [boolField]

theorem flatMap_predecessorFields (op : Operation) :
    op.commitPredecessors.flatMap predecessorFields =
      (predecessorIds op).map .prefixed := by
  simp only [predecessorIds, List.map_flatMap, List.map_cons]
  rfl

theorem leadingIds_of_none {op : Operation} (h : op.metadata = none) :
    leadingIds op = op.viewId :: (op.parents ++ predecessorIds op) := by
  rw [leadingIds, h, Option.elim_none]

theorem leadingIds_of_some {op : Operation} {metadata : OperationMetadata}
    (h : op.metadata = some metadata) : leadingIds op = op.viewId :: op.parents := by
  rw [leadingIds, h, Option.elim_some]

theorem operationFields_of_none {op : Operation} (h : op.metadata = none) :
    operationFields op = (leadingIds op).map .prefixed := by
  simp [operationFields, leadingIds_of_none h, h, flatMap_predecessorFields]

theorem operationFields_of_some {op : Operation} {metadata : OperationMetadata}
    (h : op.metadata = some metadata) :
    operationFields op = (leadingIds op).map .prefixed ++
      intField metadata.startTimeMillis :: intField metadata.endTimeMillis ::
        textField metadata.description :: textField metadata.hostname ::
        textField metadata.username :: boolField metadata.isSnapshot ::
        (metadataTexts metadata ++ predecessorIds op).map .prefixed := by
  have htexts : metadata.workspaceName.toList.map textField ++
      (BTreeMap.collect metadata.attributes.entries).entries.flatMap
        (fun attr => [textField attr.1, textField attr.2]) =
      (metadataTexts metadata).map .prefixed := by
    simp only [metadataTexts, List.map_append, List.map_flatMap, List.map_map,
      List.map_cons, List.map_nil]
    rfl
  simp [operationFields, leadingIds_of_some h, h, flatMap_predecessorFields,
    metadataFields, ← htexts]

theorem sized_operationFields {op : Operation}
    (h : ∀ bytes ∈ operationPayloads op, bytes.length < 2 ^ 64) :
    ∀ field ∈ operationFields op, field.Sized := by
  have hids : ∀ field ∈ (leadingIds op).map Field.prefixed, field.Sized :=
    Field.sized_of_length_lt fun id hmem => h id (List.mem_append_left _ hmem)
  cases hmeta : op.metadata with
  | none =>
      rw [operationFields_of_none hmeta]
      exact hids
  | some metadata =>
      rw [operationPayloads, hmeta, Option.elim_some] at h
      have htexts := Field.sized_of_length_lt
        fun text hmem => h text (List.mem_append_right _ hmem)
      simp only [List.map_cons, List.map_nil, List.cons_append, List.nil_append,
        List.forall_mem_cons] at htexts
      obtain ⟨hdescription, hhost, huser, htexts⟩ := htexts
      rw [operationFields_of_some hmeta]
      refine List.forall_mem_append.mpr ⟨hids, ?_⟩
      simp only [List.forall_mem_cons]
      exact ⟨trivial, trivial, hdescription, hhost, huser, trivial, htexts⟩

theorem operationFields_eq_iff {op op' : Operation} :
    operationFields op = operationFields op' ↔ SameOperationSections op op' := by
  unfold SameOperationSections
  cases hmeta : op.metadata with
  | none =>
      rw [operationFields_of_none hmeta]
      cases hmeta' : op'.metadata with
      | none =>
          rw [operationFields_of_none hmeta', List.map_inj_right
            fun _ _ => Field.prefixed.inj, and_true]
      | some metadata' =>
          rw [operationFields_of_some hmeta']
          exact iff_of_false prefixed_run_ne And.right
  | some metadata =>
      rw [operationFields_of_some hmeta]
      cases hmeta' : op'.metadata with
      | none =>
          rw [operationFields_of_none hmeta']
          exact iff_of_false prefixed_run_ne.symm And.right
      | some metadata' =>
          rw [operationFields_of_some hmeta']
          constructor
          · intro h
            obtain ⟨hids, hstart, hrest⟩ := prefixed_run_inj h
            simp only [List.cons.injEq] at hrest
            obtain ⟨hend, hdescription, hhost, huser, hsnapshot, htexts⟩ := hrest
            refine ⟨hids, ?_, map_prefixed_inj htexts⟩
            simp only [OperationMetadata.mk.injEq, and_true]
            exact ⟨leBytesInt64_injective hstart, intField_injective hend,
              textField_injective hdescription, boolField_injective hsnapshot,
              trivial, textField_injective hhost, textField_injective huser⟩
          · rintro ⟨hids, hmetadata, htexts⟩
            simp only [OperationMetadata.mk.injEq] at hmetadata
            simp only [hids, hmetadata, htexts]

/-! ## Sections of a view -/

def targetIds (target : RefTarget) : List Bytes :=
  sortedCommitIds target.removes ++ sortedCommitIds target.adds

def leadingPayloads (view : View) : List Bytes :=
  view.headIds.insertionSort (· ≤ ·) ++
    (BTreeMap.collect view.wcCommitIds.entries).entries.flatMap
      (fun wc => [utf8 wc.1, wc.2]) ++
    (BTreeMap.collect view.localBookmarks.entries).entries.flatMap
      fun bookmark => utf8 bookmark.1 :: targetIds bookmark.2

@[ext] structure RemoteSection where
  key : String
  isTracked : Bool
  ids : List Bytes
  deriving DecidableEq

def remoteSections (view : View) : List RemoteSection :=
  (BTreeMap.collect view.remoteBookmarks.entries).entries.map fun remote =>
    ⟨remote.1, remote.2.isTracked, remote.2.target.elim [] targetIds⟩

/--
The sections of a view that are told apart.  Heads, working copies and local
bookmarks run into each other, as do the removes and the adds of a target; a
missing remote target is no different from an empty one.
-/
def SameViewSections (view view' : View) : Prop :=
  leadingPayloads view = leadingPayloads view' ∧
    remoteSections view = remoteSections view'

def RemoteSection.fields (s : RemoteSection) : List Field :=
  textField s.key :: boolField s.isTracked :: s.ids.map .prefixed

theorem viewFields_eq_sections (view : View) :
    viewFields view = (leadingPayloads view).map .prefixed ++
      (remoteSections view).flatMap RemoteSection.fields := by
  have htarget (target : RefTarget) :
      refTargetFields target = (targetIds target).map .prefixed := by
    simp only [refTargetFields, targetIds, List.map_append]
  have hremote (remote : String × RemoteRef) :
      textField remote.1 :: remoteRefFields remote.2 = RemoteSection.fields
        ⟨remote.1, remote.2.isTracked, remote.2.target.elim [] targetIds⟩ := by
    simp only [remoteRefFields, RemoteSection.fields]
    cases remote.2.target with
    | none => rfl
    | some target => rw [Option.elim_some, Option.elim_some, htarget]
  simp only [viewFields, leadingPayloads, remoteSections, hremote, htarget,
    List.map_append, List.map_flatMap, List.map_cons, List.map_nil,
    List.flatMap_map]
  rfl

/-- A flag ends the run of payloads, the last of which is the bookmark's key. -/
theorem sections_run (payloads : List Bytes) (s : RemoteSection)
    (rest : List Field) :
    payloads.map .prefixed ++ (s.fields ++ rest) =
      (payloads ++ [utf8 s.key]).map .prefixed ++ boolField s.isTracked ::
        (s.ids.map .prefixed ++ rest) := by
  simp [RemoteSection.fields, textField]

theorem sections_inj {payloads payloads' : List Bytes}
    {remotes remotes' : List RemoteSection}
    (h : payloads.map .prefixed ++ remotes.flatMap RemoteSection.fields =
      payloads'.map .prefixed ++ remotes'.flatMap RemoteSection.fields) :
    payloads = payloads' ∧ remotes = remotes' := by
  induction remotes generalizing payloads payloads' remotes' with
  | nil =>
      cases remotes' with
      | nil => exact ⟨map_prefixed_inj (by simpa using h), rfl⟩
      | cons s' remotes' =>
          rw [List.flatMap_nil, List.append_nil, List.flatMap_cons, sections_run] at h
          exact absurd h prefixed_run_ne
  | cons s remotes ih =>
      rw [List.flatMap_cons, sections_run] at h
      cases remotes' with
      | nil =>
          rw [List.flatMap_nil, List.append_nil] at h
          exact absurd h.symm prefixed_run_ne
      | cons s' remotes' =>
          rw [List.flatMap_cons, sections_run] at h
          obtain ⟨hpayloads, hflag, hrest⟩ := prefixed_run_inj h
          obtain ⟨hpayloads, hkey⟩ := List.append_inj' hpayloads rfl
          obtain ⟨hids, hremotes⟩ := ih hrest
          have hsection : s = s' := by
            apply RemoteSection.ext
            · exact utf8_injective (List.cons.inj hkey).1
            · exact boolField_injective
                (by simpa only [boolField, Field.fixed.injEq] using hflag)
            · exact hids
          exact ⟨hpayloads, by rw [hsection, hremotes]⟩

theorem viewFields_eq_iff {view view' : View} :
    viewFields view = viewFields view' ↔ SameViewSections view view' := by
  rw [viewFields_eq_sections, viewFields_eq_sections]
  constructor
  · exact sections_inj
  · rintro ⟨hleading, hremotes⟩
    rw [hleading, hremotes]

/-! ## Shifts of operations -/

/--
Where `op` goes on with its start time, `op'` has another id whose length reads
as that start time, and the end time and the id begin with the same bytes.
-/
def StartReadsAsLength (op op' : Operation) : Prop :=
  ∃ metadata id, op.metadata = some metadata ∧
    leadingIds op ++ [id] <+: leadingIds op' ∧
    metadata.startTimeMillis = Int64.ofNat id.length ∧
    (leBytesInt64 metadata.endTimeMillis <+: id ∨
      id <+: leBytesInt64 metadata.endTimeMillis)

theorem shape_intField (value value' : Int64) :
    (intField value).shape = (intField value').shape := by
  simp [intField, Field.shape]

theorem shape_boolField (b b' : Bool) :
    (boolField b).shape = (boolField b').shape := rfl

section Start

variable {op op' : Operation} {metadata metadata' : OperationMetadata}

theorem startReadsAsLength_of_run {id : Bytes} {rest more : List Field}
    (hmeta : op.metadata = some metadata)
    (hrun : leadingIds op ++ [id] <+: leadingIds op')
    (h : FrameShift
      (intField metadata.startTimeMillis :: intField metadata.endTimeMillis :: rest)
      (.prefixed id :: more)) : StartReadsAsLength op op' := by
  have hbytes := h.fixed_prefixed
  rw [leBytes_eq_leBytesInt64] at hbytes
  obtain ⟨hstart, hbehind⟩ := List.append_inj hbytes (by simp)
  rw [encodeFields_cons] at hbehind
  refine ⟨metadata, id, hmeta, hrun, leBytesInt64_injective hstart, ?_⟩
  have hid : id <+: leBytesInt64 metadata.endTimeMillis ++ encodeFields rest :=
    hbehind ▸ List.prefix_append id _
  exact List.prefix_or_prefix_of_prefix (List.prefix_append _ _) hid

theorem startReadsAsLength_of_none (hmeta : op.metadata = none)
    (hmeta' : op'.metadata = some metadata')
    (hsized : ∀ field ∈ operationFields op, field.Sized)
    (hsized' : ∀ field ∈ operationFields op', field.Sized)
    (h : FrameShift (operationFields op) (operationFields op')) :
    StartReadsAsLength op' op := by
  rw [operationFields_of_none hmeta, ← List.append_nil (List.map _ _)] at h hsized
  rw [operationFields_of_some hmeta'] at h hsized'
  rcases h.of_runs hsized hsized' with h | ⟨_, _, -, h⟩ | ⟨id, more, hrun, h⟩
  · exact absurd h not_frameShift_nil
  · exact absurd h not_frameShift_nil
  · exact startReadsAsLength_of_run hmeta' hrun h.symm

theorem startReadsAsLength_of_some (hmeta : op.metadata = some metadata)
    (hmeta' : op'.metadata = some metadata')
    (hsized : ∀ field ∈ operationFields op, field.Sized)
    (hsized' : ∀ field ∈ operationFields op', field.Sized)
    (h : FrameShift (operationFields op) (operationFields op')) :
    StartReadsAsLength op op' ∨ StartReadsAsLength op' op := by
  rw [operationFields_of_some hmeta] at h hsized
  rw [operationFields_of_some hmeta'] at h hsized'
  rcases h.of_runs hsized hsized' with h | ⟨id, more, hrun, h⟩ | ⟨id, more, hrun, h⟩
  · -- behind the same ids both have fields of the same shapes
    simp only [List.forall_mem_append, List.forall_mem_cons] at hsized hsized'
    obtain ⟨-, -, -, hdescription, hhost, huser, -, htexts⟩ := hsized
    obtain ⟨-, -, -, hdescription', hhost', huser', -, htexts'⟩ := hsized'
    obtain ⟨-, h⟩ := h.tail (shape_intField ..)
    obtain ⟨-, h⟩ := h.tail (shape_intField ..)
    obtain ⟨-, h⟩ := h.tail (hdescription.shape_eq hdescription')
    obtain ⟨-, h⟩ := h.tail (hhost.shape_eq hhost')
    obtain ⟨-, h⟩ := h.tail (huser.shape_eq huser')
    obtain ⟨-, h⟩ := h.tail (shape_boolField ..)
    exact absurd h (not_frameShift_of_prefixed htexts htexts')
  · exact .inl (startReadsAsLength_of_run hmeta hrun h)
  · exact .inr (startReadsAsLength_of_run hmeta' hrun h.symm)

/--
Operations are frame shifts of each other only if the start time of one is read
as the length of an id of the other.
-/
theorem startReadsAsLength_of_frameShift
    (hsized : ∀ field ∈ operationFields op, field.Sized)
    (hsized' : ∀ field ∈ operationFields op', field.Sized)
    (h : FrameShift (operationFields op) (operationFields op')) :
    StartReadsAsLength op op' ∨ StartReadsAsLength op' op := by
  cases hmeta : op.metadata with
  | none =>
      cases hmeta' : op'.metadata with
      | none =>
          rw [operationFields_of_none hmeta] at h hsized
          rw [operationFields_of_none hmeta'] at h hsized'
          exact absurd h (not_frameShift_of_prefixed hsized hsized')
      | some metadata' =>
          exact .inr (startReadsAsLength_of_none hmeta hmeta' hsized hsized' h)
  | some metadata =>
      cases hmeta' : op'.metadata with
      | none =>
          exact .inl (startReadsAsLength_of_none hmeta' hmeta hsized' hsized h.symm)
      | some metadata' =>
          exact startReadsAsLength_of_some hmeta hmeta' hsized hsized' h

theorem operationBuffer_eq_of_sections (h : SameOperationSections op op') :
    operationBuffer op = operationBuffer op' := by
  rw [operationBuffer_eq, operationBuffer_eq, operationFields_eq_iff.mpr h]

theorem of_operationBuffer_eq
    (hsized : ∀ bytes ∈ operationPayloads op, bytes.length < 2 ^ 64)
    (hsized' : ∀ bytes ∈ operationPayloads op', bytes.length < 2 ^ 64)
    (h : operationBuffer op = operationBuffer op') :
    SameOperationSections op op' ∨ StartReadsAsLength op op' ∨
      StartReadsAsLength op' op := by
  rw [operationBuffer_eq, operationBuffer_eq] at h
  rcases eq_or_frameShift_of_encodeFields_eq h with hfields | hshift
  · exact .inl (operationFields_eq_iff.mp hfields)
  · exact .inr (startReadsAsLength_of_frameShift (sized_operationFields hsized)
      (sized_operationFields hsized') hshift)

end Start

/-- Operations that share a buffer but have different sections. -/
example : operationBuffer { parents := [List.replicate 33 0] } =
    operationBuffer { metadata := some { startTimeMillis := 33 } } := by
  decide

/-! ## Shifts of views -/

def viewPayloads (view : View) : List Bytes :=
  leadingPayloads view ++ (remoteSections view).flatMap fun s => utf8 s.key :: s.ids

/--
The flag of a remote bookmark and the length of the id or the name behind it
read as the length of a payload of the other view.
-/
def FlagReadsAsLength (view view' : View) : Prop :=
  ∃ before s after next payload,
    remoteSections view = before ++ s :: after ∧
    next ∈ (s.ids ++ after.map fun t => utf8 t.key).head? ∧
    payload ∈ viewPayloads view' ∧
    payload.length = (s.isTracked.toNat + 256 * next.length) % 2 ^ 64

section Flag

variable {view view' : View} {common rest rest' : List Field} {flag : Bool}

theorem prefixed_mem_viewFields {payload : Bytes} :
    .prefixed payload ∈ viewFields view ↔ payload ∈ viewPayloads view := by
  simp [viewFields_eq_sections, viewPayloads, RemoteSection.fields, textField, boolField]

theorem exists_of_mem_viewFields {field : Field} (h : field ∈ viewFields view) :
    (∃ payload, field = .prefixed payload) ∨ ∃ flag, field = boolField flag := by
  simp only [viewFields_eq_sections, RemoteSection.fields, textField, List.mem_append,
    List.mem_map, List.mem_flatMap, List.mem_cons] at h
  rcases h with ⟨payload, -, rfl⟩ | ⟨s, -, rfl | rfl | ⟨id, -, rfl⟩⟩
  · exact .inl ⟨_, rfl⟩
  · exact .inl ⟨_, rfl⟩
  · exact .inr ⟨_, rfl⟩
  · exact .inl ⟨_, rfl⟩

/-- What comes behind a flag belongs to the section of the flag. -/
theorem sections_of_flag {payloads : List Bytes} {remotes : List RemoteSection}
    (h : payloads.map .prefixed ++ remotes.flatMap RemoteSection.fields =
      common ++ boolField flag :: rest) :
    ∃ before s after, remotes = before ++ s :: after ∧ s.isTracked = flag ∧
      rest = s.ids.map .prefixed ++ after.flatMap RemoteSection.fields := by
  have hnotPayload (payloads : List Bytes) :
      boolField flag ∉ payloads.map Field.prefixed := by
    simp [boolField]
  induction remotes generalizing payloads common with
  | nil =>
      have hmem : boolField flag ∈ payloads.map Field.prefixed := by
        rw [← List.append_nil (List.map _ _), ← List.flatMap_nil, h]
        simp
      exact absurd hmem (hnotPayload payloads)
  | cons s remotes ih =>
      rw [List.flatMap_cons, sections_run] at h
      rcases List.append_eq_append_iff.mp h with ⟨mid, -, hmid⟩ | ⟨mid, hrun, hmid⟩
      · cases mid with
        | nil =>
            obtain ⟨hflag, hrest⟩ := List.cons.inj hmid
            exact ⟨[], s, remotes, rfl, boolField_injective hflag, hrest.symm⟩
        | cons _ mid =>
            obtain ⟨before, t, after, rfl, hflag, hrest⟩ := ih (List.cons.inj hmid).2
            exact ⟨s :: before, t, after, rfl, hflag, hrest⟩
      · cases mid with
        | nil =>
            obtain ⟨hflag, hrest⟩ := List.cons.inj hmid
            exact ⟨[], s, remotes, rfl, (boolField_injective hflag).symm, hrest⟩
        | cons _ mid =>
            obtain ⟨rfl, -⟩ := List.cons.inj hmid
            exact absurd (hrun ▸ by simp) (hnotPayload (payloads ++ [utf8 s.key]))

theorem head_behind_flag (s : RemoteSection) (after : List RemoteSection) :
    (s.ids.map Field.prefixed ++ after.flatMap RemoteSection.fields).head? =
      (s.ids ++ after.map fun t => utf8 t.key).head?.map .prefixed := by
  cases s.ids with
  | nil => cases after <;> rfl
  | cons id ids => rfl

/-- A flag and the length behind it, read as one length. -/
theorem length_of_flag {next payload : Bytes} (hlength : payload.length < 2 ^ 64)
    (h : encodeFields (boolField flag :: .prefixed next :: rest) =
      encodeFields (.prefixed payload :: rest')) :
    payload.length = (flag.toNat + 256 * next.length) % 2 ^ 64 := by
  have hone : (boolField flag).encode ++ leBytes 8 next.length =
      leBytes 9 (flag.toNat + 256 * next.length) := by
    rw [← cons_leBytes 8 (flag.toNat_lt.trans (by decide))]
    cases flag <;> rfl
  obtain ⟨top, htop⟩ := leBytes_prefix 8 (flag.toNat + 256 * next.length)
  rw [encodeFields_cons, encodeFields_cons, encodeFields_cons, Field.encode,
    List.append_assoc, ← List.append_assoc, hone, ← htop, Field.encode,
    List.append_assoc, List.append_assoc] at h
  have hlow := leBytes_eq_iff.mp (List.append_inj h (by simp)).1
  rw [Nat.mod_eq_of_lt (hlength.trans_eq (by decide))] at hlow
  exact hlow.symm

theorem flagReadsAsLength_of_flag {payload : Bytes}
    (hview : viewFields view = common ++ boolField flag :: rest)
    (hmem : payload ∈ viewPayloads view') (hlength : payload.length < 2 ^ 64)
    (h : encodeFields (boolField flag :: rest) =
      encodeFields (.prefixed payload :: rest')) : FlagReadsAsLength view view' := by
  rw [viewFields_eq_sections] at hview
  obtain ⟨before, s, after, hremotes, rfl, hrest⟩ := sections_of_flag hview
  have hhead := head_behind_flag s after
  rw [← hrest] at hhead
  cases rest with
  | nil =>
      -- a length is longer than the one byte of the flag
      have := congrArg List.length h
      simp [boolField, Field.encode] at this
      omega
  | cons field more =>
      obtain ⟨next, hnext, rfl⟩ := Option.map_eq_some_iff.mp hhead.symm
      exact ⟨before, s, after, next, payload, hremotes, hnext, hmem,
        length_of_flag hlength h⟩

/--
Views are frame shifts of each other only if the flag of a remote bookmark is
read as the first byte of a length.
-/
theorem flagReadsAsLength_of_frameShift
    (hsized : ∀ payload ∈ viewPayloads view, payload.length < 2 ^ 64)
    (hsized' : ∀ payload ∈ viewPayloads view', payload.length < 2 ^ 64)
    (h : FrameShift (viewFields view) (viewFields view')) :
    FlagReadsAsLength view view' ∨ FlagReadsAsLength view' view := by
  obtain ⟨common, f, rest, g, rest', hview, hview', hshape, hbytes⟩ := h
  have hf : f ∈ viewFields view := by simp [hview]
  have hg : g ∈ viewFields view' := by simp [hview']
  rcases exists_of_mem_viewFields hf with ⟨payload, rfl⟩ | ⟨flag, rfl⟩ <;>
    rcases exists_of_mem_viewFields hg with ⟨payload', rfl⟩ | ⟨flag', rfl⟩
  · have hlength := hsized payload (prefixed_mem_viewFields.mp hf)
    have hlength' := hsized' payload' (prefixed_mem_viewFields.mp hg)
    exact absurd (Field.Sized.shape_eq hlength hlength') hshape
  · have hmem := prefixed_mem_viewFields.mp hf
    exact .inr (flagReadsAsLength_of_flag hview' hmem (hsized payload hmem) hbytes.symm)
  · have hmem := prefixed_mem_viewFields.mp hg
    exact .inl (flagReadsAsLength_of_flag hview hmem (hsized' payload' hmem) hbytes)
  · exact absurd (shape_boolField flag flag') hshape

/-- Ordinary names and ids have lengths that begin with a byte that is no flag. -/
theorem not_flagReadsAsLength
    (hordinary : ∀ payload ∈ viewPayloads view',
      1 < payload.length ∧ payload.length < 256) :
    ¬ FlagReadsAsLength view view' := by
  rintro ⟨-, s, -, next, payload, -, -, hmem, hlength⟩
  have hflag := s.isTracked.toNat_lt
  have hpayload := hordinary payload hmem
  omega

theorem viewBuffer_eq_of_sections (h : SameViewSections view view') :
    viewBuffer view = viewBuffer view' := by
  rw [viewBuffer_eq, viewBuffer_eq, viewFields_eq_iff.mpr h]

theorem of_viewBuffer_eq
    (hsized : ∀ payload ∈ viewPayloads view, payload.length < 2 ^ 64)
    (hsized' : ∀ payload ∈ viewPayloads view', payload.length < 2 ^ 64)
    (h : viewBuffer view = viewBuffer view') :
    SameViewSections view view' ∨ FlagReadsAsLength view view' ∨
      FlagReadsAsLength view' view := by
  rw [viewBuffer_eq, viewBuffer_eq] at h
  rcases eq_or_frameShift_of_encodeFields_eq h with hfields | hshift
  · exact .inl (viewFields_eq_iff.mp hfields)
  · exact .inr (flagReadsAsLength_of_frameShift hsized hsized' hshift)

end Flag

/-- Views that share a buffer but have different sections. -/
example : viewBuffer { remoteBookmarks :=
      ⟨[("", { target := some { adds := [⟨[]⟩] } })], by decide⟩ } =
    viewBuffer { headIds := [[]], remoteBookmarks := ⟨[("", {})], by decide⟩ } := by
  decide

end CommitCloud.Server
