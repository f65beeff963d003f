import CommitCloud.Foundation.Bytes
import CommitCloud.Foundation.Delimited

/-!
# Framed byte streams

A framed stream is a sequence of fields written one after another.  A field is
either length-prefixed (its length as a 64-bit little-endian integer, then its
bytes) or of a fixed width and written raw.  The stream itself records neither
how many fields there are nor of which kind, so two field sequences can share
their bytes.  This happens in exactly one way, a frame shift: after a common
prefix, one sequence goes on with a field of another shape than the other.
-/

namespace Foundation

/-- A fixed-width field has at least one byte. -/
inductive Field where
  | prefixed (payload : Bytes)
  | fixed (bytes : Bytes) (nonempty : bytes ≠ [])
  deriving DecidableEq

/--
What a reader must know in advance to read the next field.  `wraps` is what the
64-bit length prefix drops of a length, zero for any payload that fits memory.
-/
inductive Shape where
  | prefixed (wraps : Nat)
  | fixed (width : Nat)
  deriving DecidableEq

namespace Field

def encode : Field → Bytes
  | .prefixed payload => leBytes 8 payload.length ++ payload
  | .fixed bytes _ => bytes

def shape : Field → Shape
  | .prefixed payload => .prefixed (payload.length / 256 ^ 8)
  | .fixed bytes _ => .fixed bytes.length

/-- The length prefix says how long the payload is. -/
def Sized : Field → Prop
  | .prefixed payload => payload.length < 256 ^ 8
  | .fixed _ _ => True

theorem Sized.shape_eq {payload payload' : Bytes} (h : (prefixed payload).Sized)
    (h' : (prefixed payload').Sized) :
    (prefixed payload).shape = (prefixed payload').shape := by
  rw [shape, shape, Nat.div_eq_of_lt h, Nat.div_eq_of_lt h']

theorem sized_of_length_lt {payloads : List Bytes}
    (h : ∀ payload ∈ payloads, payload.length < 2 ^ 64) :
    ∀ field ∈ payloads.map prefixed, field.Sized :=
  List.forall_mem_map.mpr fun payload hmem => (h payload hmem).trans_eq (by decide)

theorem encode_ne_nil (field : Field) : field.encode ≠ [] := by
  cases field with
  | prefixed payload =>
      intro h
      have := congrArg List.length h
      simp [encode] at this
  | fixed bytes nonempty => exact nonempty

theorem encode_append_inj {f g : Field} {rest rest' : Bytes}
    (hshape : f.shape = g.shape)
    (h : f.encode ++ rest = g.encode ++ rest') : f = g ∧ rest = rest' := by
  cases f with
  | prefixed payload =>
      cases g with
      | prefixed payload' =>
          simp only [shape, Shape.prefixed.injEq] at hshape
          simp only [encode, List.append_assoc] at h
          obtain ⟨hlength, htail⟩ := List.append_inj h (by simp)
          have hlen : payload.length = payload'.length :=
            leBytes_inj hshape hlength
          obtain ⟨hpayload, hrest⟩ := List.append_inj htail hlen
          exact ⟨by rw [hpayload], hrest⟩
      | fixed bytes _ => simp [shape] at hshape
  | fixed bytes nonempty =>
      cases g with
      | prefixed payload => simp [shape] at hshape
      | fixed bytes' nonempty' =>
          simp only [shape, Shape.fixed.injEq] at hshape
          obtain ⟨hbytes, hrest⟩ := List.append_inj h hshape
          refine ⟨?_, hrest⟩
          simp only [encode] at hbytes
          subst hbytes
          rfl

end Field

/-! ## Runs of length-prefixed fields -/

section Runs

variable {payloads payloads' : List Bytes} {bytes bytes' : Bytes}
  {hbytes : bytes ≠ []} {hbytes' : bytes' ≠ []} {rest rest' : List Field}

theorem map_prefixed_inj
    (h : payloads.map Field.prefixed = payloads'.map Field.prefixed) :
    payloads = payloads' :=
  List.map_injective_iff.mpr (fun _ _ => Field.prefixed.inj) h

/-- A run ends at the first raw field. -/
theorem prefixed_run_inj
    (h : payloads.map Field.prefixed ++ .fixed bytes hbytes :: rest =
      payloads'.map Field.prefixed ++ .fixed bytes' hbytes' :: rest') :
    payloads = payloads' ∧ bytes = bytes' ∧ rest = rest' := by
  have hrun (payloads : List Bytes) :
      ∀ field ∈ payloads.map Field.prefixed, ∃ payload, field = .prefixed payload := by
    simp
  obtain ⟨hpayloads, hfixed, hrest⟩ :=
    append_cons_inj (hrun payloads) (hrun payloads') (by simp) (by simp) h
  exact ⟨map_prefixed_inj hpayloads, (Field.fixed.inj hfixed), hrest⟩

theorem prefixed_run_ne :
    payloads.map Field.prefixed ≠
      payloads'.map Field.prefixed ++ .fixed bytes hbytes :: rest := by
  intro h
  have hmem : Field.fixed bytes hbytes ∈ payloads.map Field.prefixed := by
    rw [h]
    simp
  simp at hmem

end Runs

/-! ## Streams -/

def encodeFields (fields : List Field) : Bytes := fields.flatMap Field.encode

@[simp] theorem encodeFields_nil : encodeFields [] = [] := rfl

@[simp] theorem encodeFields_cons (f : Field) (fields : List Field) :
    encodeFields (f :: fields) = f.encode ++ encodeFields fields := by
  simp [encodeFields]

@[simp] theorem encodeFields_append (first second : List Field) :
    encodeFields (first ++ second) =
      encodeFields first ++ encodeFields second := by
  simp [encodeFields]

theorem foldl_append_fields {α : Type*} {fill : Bytes → α → Bytes}
    {fields : α → List Field}
    (h : ∀ buf x, fill buf x = buf ++ encodeFields (fields x)) (buf : Bytes)
    (xs : List α) :
    xs.foldl fill buf = buf ++ encodeFields (xs.flatMap fields) := by
  induction xs generalizing buf with
  | nil => simp
  | cons x xs ih => simp [ih, h]

/--
Two sequences agree up to some position, there continue with fields of
different shapes, and have the same bytes from that position on.
-/
def FrameShift (first second : List Field) : Prop :=
  ∃ common f rest g rest',
    first = common ++ f :: rest ∧
    second = common ++ g :: rest' ∧
    f.shape ≠ g.shape ∧
    encodeFields (f :: rest) = encodeFields (g :: rest')

theorem FrameShift.cons {first second : List Field} (f : Field)
    (h : FrameShift first second) : FrameShift (f :: first) (f :: second) := by
  obtain ⟨common, g, rest, g', rest', rfl, rfl, hshape, hbytes⟩ := h
  exact ⟨f :: common, g, rest, g', rest', rfl, rfl, hshape, hbytes⟩

theorem FrameShift.encodeFields_eq {first second : List Field}
    (h : FrameShift first second) :
    encodeFields first = encodeFields second := by
  obtain ⟨common, f, rest, g, rest', rfl, rfl, -, hbytes⟩ := h
  rw [encodeFields_append, encodeFields_append, hbytes]

theorem eq_or_frameShift_of_encodeFields_eq {first second : List Field}
    (h : encodeFields first = encodeFields second) :
    first = second ∨ FrameShift first second := by
  induction first generalizing second with
  | nil =>
      cases second with
      | nil => exact .inl rfl
      | cons g second =>
          rw [encodeFields_nil, encodeFields_cons, List.nil_eq,
            List.append_eq_nil_iff] at h
          exact absurd h.1 g.encode_ne_nil
  | cons f first ih =>
      cases second with
      | nil =>
          rw [encodeFields_nil, encodeFields_cons, List.append_eq_nil_iff] at h
          exact absurd h.1 f.encode_ne_nil
      | cons g second =>
          by_cases hshape : f.shape = g.shape
          · rw [encodeFields_cons, encodeFields_cons] at h
            obtain ⟨rfl, htail⟩ := Field.encode_append_inj hshape h
            rcases ih htail with rfl | hshift
            · exact .inl rfl
            · exact .inr (hshift.cons f)
          · exact .inr ⟨[], f, first, g, second, rfl, rfl, hshape, h⟩

/-- The bytes of a framed stream determine its fields up to a frame shift. -/
theorem encodeFields_eq_iff {first second : List Field} :
    encodeFields first = encodeFields second ↔
      first = second ∨ FrameShift first second := by
  constructor
  · exact eq_or_frameShift_of_encodeFields_eq
  · rintro (rfl | hshift)
    · rfl
    · exact hshift.encodeFields_eq

/-! ## Where a shift can be -/

theorem FrameShift.symm {first second : List Field} (h : FrameShift first second) :
    FrameShift second first := by
  obtain ⟨common, f, rest, g, rest', rfl, rfl, hshape, hbytes⟩ := h
  exact ⟨common, g, rest', f, rest, rfl, rfl, hshape.symm, hbytes.symm⟩

theorem not_frameShift_nil {second : List Field} : ¬ FrameShift [] second := by
  rintro ⟨common, f, rest, g, rest', hfirst, -⟩
  simp at hfirst

/-- Fields of one shape are no place for a shift. -/
theorem FrameShift.tail {f g : Field} {first second : List Field}
    (hshape : f.shape = g.shape) (h : FrameShift (f :: first) (g :: second)) :
    f = g ∧ FrameShift first second := by
  obtain ⟨common, f', rest, g', rest', hfirst, hsecond, hne, hbytes⟩ := h
  cases common with
  | nil =>
      obtain ⟨rfl, -⟩ := List.cons.inj hfirst
      obtain ⟨rfl, -⟩ := List.cons.inj hsecond
      exact absurd hshape hne
  | cons c common =>
      obtain ⟨rfl, rfl⟩ := List.cons.inj hfirst
      obtain ⟨rfl, rfl⟩ := List.cons.inj hsecond
      exact ⟨rfl, common, f', rest, g', rest', rfl, rfl, hne, hbytes⟩

variable {payloads payloads' : List Bytes} {rest rest' : List Field}

/--
A shift among two runs of payloads with what follows them: the runs are the
same and the shift comes later, or one run goes on where the other has ended.
-/
theorem FrameShift.of_runs
    (hsized : ∀ field ∈ payloads.map Field.prefixed ++ rest, field.Sized)
    (hsized' : ∀ field ∈ payloads'.map Field.prefixed ++ rest', field.Sized)
    (h : FrameShift (payloads.map Field.prefixed ++ rest)
      (payloads'.map Field.prefixed ++ rest')) :
    FrameShift rest rest' ∨
      (∃ payload more, payloads ++ [payload] <+: payloads' ∧
        FrameShift rest (.prefixed payload :: more)) ∨
      ∃ payload more, payloads' ++ [payload] <+: payloads ∧
        FrameShift (.prefixed payload :: more) rest' := by
  induction payloads generalizing payloads' with
  | nil =>
      cases payloads' with
      | nil => exact .inl h
      | cons payload' payloads' =>
          exact .inr (.inl ⟨payload', _, List.prefix_append [payload'] _, h⟩)
  | cons payload payloads ih =>
      cases payloads' with
      | nil => exact .inr (.inr ⟨payload, _, List.prefix_append [payload] _, h⟩)
      | cons payload' payloads' =>
          obtain ⟨hpayload, hpayloads⟩ := List.forall_mem_cons.mp hsized
          obtain ⟨hpayload', hpayloads'⟩ := List.forall_mem_cons.mp hsized'
          obtain ⟨heq, hrest⟩ := h.tail (hpayload.shape_eq hpayload')
          obtain rfl := Field.prefixed.inj heq
          rcases ih hpayloads hpayloads' hrest with
            hlater | ⟨p, more, hrun, hshift⟩ | ⟨p, more, hrun, hshift⟩
          · exact .inl hlater
          · exact .inr (.inl ⟨p, more, List.cons_prefix_cons.mpr ⟨rfl, hrun⟩, hshift⟩)
          · exact .inr (.inr ⟨p, more, List.cons_prefix_cons.mpr ⟨rfl, hrun⟩, hshift⟩)

/-- Payloads alone are never shifted against payloads. -/
theorem not_frameShift_of_prefixed
    (hsized : ∀ field ∈ payloads.map Field.prefixed, field.Sized)
    (hsized' : ∀ field ∈ payloads'.map Field.prefixed, field.Sized) :
    ¬ FrameShift (payloads.map Field.prefixed) (payloads'.map Field.prefixed) := by
  intro h
  rw [← List.append_nil (payloads.map _)] at h hsized
  rw [← List.append_nil (payloads'.map _)] at h hsized'
  rcases h.of_runs hsized hsized' with h | ⟨_, _, -, h⟩ | ⟨_, _, -, h⟩
  · exact not_frameShift_nil h
  · exact not_frameShift_nil h
  · exact not_frameShift_nil h.symm

/-- The bytes of a run that is not followed by anything determine its payloads. -/
theorem encodeFields_prefixed_eq_iff
    (hsized : ∀ field ∈ payloads.map Field.prefixed, field.Sized)
    (hsized' : ∀ field ∈ payloads'.map Field.prefixed, field.Sized) :
    encodeFields (payloads.map .prefixed) = encodeFields (payloads'.map .prefixed) ↔
      payloads = payloads' := by
  constructor
  · intro h
    rcases encodeFields_eq_iff.mp h with hfields | hshift
    · exact map_prefixed_inj hfields
    · exact absurd hshift (not_frameShift_of_prefixed hsized hsized')
  · rintro rfl
    rfl

/-- Where a raw field meets a payload, its bytes are read as the length. -/
theorem FrameShift.fixed_prefixed {bytes payload : Bytes} {hbytes : bytes ≠ []}
    (h : FrameShift (.fixed bytes hbytes :: rest) (.prefixed payload :: rest')) :
    bytes ++ encodeFields rest =
      leBytes 8 payload.length ++ (payload ++ encodeFields rest') := by
  simpa [Field.encode] using h.encodeFields_eq

end Foundation
