import CommitCloud.Foundation.Delimited
import CommitCloud.Gix

/-!
# Unique decoding of Git objects

The serialized form of a Git object determines it, up to what Git does not
record: of a time zone offset only whole minutes are written.
-/

namespace CommitCloud.Gix

open Foundation

/-! ## Object headers -/

theorem hashInput_injective (kind : Kind) :
    Function.Injective (hashInput kind) := by
  intro data data' h
  have hdigits (n : Nat) : (0 : UInt8) ∉ decimal n := fun hmem =>
    absurd (decimal_ge hmem) (by decide)
  simp only [hashInput, looseHeader, List.append_assoc, List.cons_append,
    List.append_cancel_left_eq, List.cons.injEq, true_and, List.nil_append]
    at h
  exact (delimited_inj (hdigits _) (hdigits _) h).2

/-! ## Times and signatures -/

theorem twoDigits_inj {m n : Nat} (hm : m ≤ 99) (hn : n ≤ 99)
    (h : twoDigits m = twoDigits n) : m = n := by
  simp only [twoDigits, List.cons.injEq, and_true] at h
  have htens := congrArg UInt8.toNat h.1
  have hones := congrArg UInt8.toNat h.2
  simp only [UInt8.toNat_ofNat'] at htens hones
  omega

theorem twoDigits_ge {n : Nat} (hn : n ≤ 99) {digit : UInt8}
    (h : digit ∈ twoDigits n) : 43 ≤ digit := by
  simp only [twoDigits, List.mem_cons, List.not_mem_nil, or_false] at h
  rw [UInt8.le_iff_toNat_le]
  rcases h with rfl | rfl <;>
    simp only [UInt8.toNat_ofNat', UInt8.toNat_ofNat] <;> omega

theorem Time.offsetMinutes_le (time : Time) : time.offsetMinutes ≤ 99 := by
  unfold offsetMinutes
  omega

theorem Time.offsetText_ge {time : Time} (hhours : time.offsetHours ≤ 99)
    {byte : UInt8} (h : byte ∈ time.offsetText) : 43 ≤ byte := by
  simp only [offsetText, List.mem_cons, List.mem_append] at h
  rcases h with rfl | h | h
  · split <;> decide
  · exact twoDigits_ge hhours h
  · exact twoDigits_ge time.offsetMinutes_le h

theorem minutes_eq_of_digits {x y m n : Int} (hx : x = m * 60) (hy : y = n * 60)
    (hsign : x < 0 ↔ y < 0) (hhours : x.natAbs / 3600 = y.natAbs / 3600)
    (hminutes : x.natAbs % 3600 / 60 = y.natAbs % 3600 / 60) : m = n := by
  have hwhole (z : Nat) : z / 60 = z / 3600 * 60 + z % 3600 / 60 := by omega
  have habs : x.natAbs / 60 = y.natAbs / 60 := by
    rw [hwhole, hwhole y.natAbs, hhours, hminutes]
  clear hhours hminutes
  omega

theorem Time.offset_eq_of_offsetText {a b : Time} {m n : Int32}
    (ha : a.offset.toInt = m.toInt * 60) (hb : b.offset.toInt = n.toInt * 60)
    (ha' : a.offsetHours ≤ 99) (hb' : b.offsetHours ≤ 99)
    (h : a.offsetText = b.offsetText) : m = n := by
  simp only [offsetText, List.cons.injEq] at h
  obtain ⟨hsign, hdigits⟩ := h
  obtain ⟨hhours, hminutes⟩ := List.append_inj hdigits (by simp [twoDigits])
  have hhours : a.offsetHours = b.offsetHours := twoDigits_inj ha' hb' hhours
  have hminutes : a.offsetMinutes = b.offsetMinutes :=
    twoDigits_inj a.offsetMinutes_le b.offsetMinutes_le hminutes
  unfold offsetHours at hhours
  unfold offsetMinutes at hminutes
  have hsign : a.offset.toInt < 0 ↔ b.offset.toInt < 0 := by
    by_cases hneg : a.offset.toInt < 0 <;>
      by_cases hneg' : b.offset.toInt < 0 <;>
      simp [hneg, hneg'] at hsign ⊢
  exact Int32.toInt_inj.mp (minutes_eq_of_digits ha hb hsign hhours hminutes)

structure Signature.SameText (a b : Signature) : Prop where
  name : a.name = b.name
  email : a.email = b.email
  seconds : a.time.seconds = b.time.seconds
  offset : a.time.offsetText = b.time.offsetText

theorem Time.serialize_inj {a b : Time} (h : a.serialize = b.serialize) :
    a.seconds = b.seconds ∧ a.offsetText = b.offsetText := by
  have hdigits (value : Int) : (32 : UInt8) ∉ decimalInt value := fun hmem =>
    absurd (decimalInt_ge hmem) (by decide)
  obtain ⟨hseconds, hoffset⟩ := delimited_inj (hdigits _) (hdigits _) h
  exact ⟨Int64.toInt_inj.mp (decimalInt_injective hseconds), hoffset⟩

theorem Signature.Writable.name_notMem {signature : Signature}
    (h : signature.Writable) (byte : UInt8) (hbyte : illegalInSignature byte) :
    byte ∉ signature.name := fun hmem => by simp [h.1 byte hmem] at hbyte

theorem Signature.Writable.email_notMem {signature : Signature}
    (h : signature.Writable) (byte : UInt8) (hbyte : illegalInSignature byte) :
    byte ∉ signature.email := fun hmem => by simp [h.2.1 byte hmem] at hbyte

theorem Signature.serialize_eq_iff {a b : Signature} (ha : a.Writable)
    (hb : b.Writable) : a.serialize = b.serialize ↔ a.SameText b := by
  constructor
  · intro h
    -- the name and the space after it end at the first `<`
    have h : (a.name ++ [32]) ++ 60 :: (a.email ++ 62 :: 32 :: a.time.serialize) =
        (b.name ++ [32]) ++ 60 :: (b.email ++ 62 :: 32 :: b.time.serialize) := by
      simpa [serialize] using h
    have hname {s : Signature} (hs : s.Writable) : (60 : UInt8) ∉ s.name ++ [32] := by
      simp [hs.name_notMem 60 rfl]
    obtain ⟨hnames, hrest⟩ := delimited_inj (hname ha) (hname hb) h
    obtain ⟨hemails, hrest⟩ := delimited_inj (ha.email_notMem 62 rfl)
      (hb.email_notMem 62 rfl) hrest
    obtain ⟨hseconds, hoffset⟩ := Time.serialize_inj (List.cons.inj hrest).2
    exact ⟨List.append_cancel_right hnames, hemails, hseconds, hoffset⟩
  · rintro ⟨hname, hemail, hseconds, hoffset⟩
    simp only [serialize, Time.serialize, hname, hemail, hseconds, hoffset]

theorem Signature.newline_notMem_serialize {signature : Signature}
    (h : signature.Writable) : (10 : UInt8) ∉ signature.serialize := by
  have hseconds : (10 : UInt8) ∉ decimalInt signature.time.seconds.toInt :=
    fun hmem => absurd (decimalInt_ge hmem) (by decide)
  have hoffset : (10 : UInt8) ∉ signature.time.offsetText :=
    fun hmem => absurd (Time.offsetText_ge h.2.2 hmem) (by decide)
  simp [serialize, Time.serialize, h.name_notMem 10 rfl,
    h.email_notMem 10 rfl, hseconds, hoffset]

/-! ## Commits -/

def Commit.lines (commit : Commit) : List (Bytes × Bytes) :=
  (utf8 "tree", hex commit.tree.bytes) ::
    (commit.parents.map (fun id => (utf8 "parent", hex id.bytes)) ++
      (utf8 "author", commit.author.serialize) ::
      (utf8 "committer", commit.committer.serialize) :: commit.extraHeaders)

def writeLines (lines : List (Bytes × Bytes)) : Bytes :=
  lines.flatMap fun line => header line.1 line.2

theorem Commit.serialize_eq_lines {commit : Commit}
    (hencoding : commit.encoding = none) :
    commit.serialize = writeLines commit.lines ++ 10 :: commit.message := by
  simp [serialize, lines, writeLines, hencoding, List.flatMap_map]

def PlainName (name : Bytes) : Prop :=
  name ≠ [] ∧ (10 : UInt8) ∉ name ∧ (32 : UInt8) ∉ name

instance (name : Bytes) : Decidable (PlainName name) :=
  inferInstanceAs (Decidable (_ ∧ _ ∧ _))

/-- The name of a header ends at the space, its value at the end of the line. -/
structure PlainLine (line : Bytes × Bytes) : Prop where
  name : PlainName line.1
  value : (10 : UInt8) ∉ line.2

theorem header_append_inj {line line' : Bytes × Bytes} {rest rest' : Bytes}
    (hline : PlainLine line) (hline' : PlainLine line')
    (h : header line.1 line.2 ++ rest = header line'.1 line'.2 ++ rest') :
    line = line' ∧ rest = rest' := by
  simp only [header, List.append_assoc, List.cons_append, List.nil_append] at h
  obtain ⟨hname, htail⟩ := delimited_inj hline.name.2.2 hline'.name.2.2 h
  obtain ⟨hvalue, hrest⟩ := delimited_inj hline.value hline'.value htail
  exact ⟨Prod.ext hname hvalue, hrest⟩

theorem newline_cons_ne_header {line : Bytes × Bytes} (hline : PlainLine line)
    (message rest : Bytes) : 10 :: message ≠ header line.1 line.2 ++ rest := by
  obtain ⟨name, value⟩ := line
  cases name with
  | nil => exact absurd rfl hline.name.1
  | cons byte name =>
      rintro h
      obtain ⟨rfl, -⟩ := List.cons.inj h
      exact hline.name.2.1 List.mem_cons_self

theorem writeLines_inj {lines lines' : List (Bytes × Bytes)}
    {message message' : Bytes} (hlines : ∀ line ∈ lines, PlainLine line)
    (hlines' : ∀ line ∈ lines', PlainLine line)
    (h : writeLines lines ++ 10 :: message = writeLines lines' ++ 10 :: message') :
    lines = lines' ∧ message = message' := by
  have hcons (line : Bytes × Bytes) (lines : List (Bytes × Bytes)) (rest : Bytes) :
      writeLines (line :: lines) ++ rest =
        header line.1 line.2 ++ (writeLines lines ++ rest) := by
    simp [writeLines]
  induction lines generalizing lines' with
  | nil =>
      cases lines' with
      | nil => exact ⟨rfl, (List.cons.inj h).2⟩
      | cons line' lines' =>
          rw [hcons] at h
          exact absurd h
            (newline_cons_ne_header (hlines' line' List.mem_cons_self) _ _)
  | cons line lines ih =>
      have hline := hlines line List.mem_cons_self
      cases lines' with
      | nil =>
          rw [hcons] at h
          exact absurd h.symm (newline_cons_ne_header hline _ _)
      | cons line' lines' =>
          rw [hcons, hcons] at h
          obtain ⟨rfl, htail⟩ := header_append_inj hline
            (hlines' line' List.mem_cons_self) h
          obtain ⟨rfl, hmessage⟩ := ih
            (fun l hl => hlines l (List.mem_cons_of_mem _ hl))
            (fun l hl => hlines' l (List.mem_cons_of_mem _ hl)) htail
          exact ⟨rfl, hmessage⟩

theorem parentLines_inj {parents parents' : List ObjectId} {value value' : Bytes}
    {rest rest' : List (Bytes × Bytes)}
    (h : parents.map (fun id => (utf8 "parent", hex id.bytes)) ++
        (utf8 "author", value) :: rest =
      parents'.map (fun id => (utf8 "parent", hex id.bytes)) ++
        (utf8 "author", value') :: rest') :
    parents = parents' ∧ value = value' ∧ rest = rest' := by
  have hname : utf8 "author" ≠ utf8 "parent" := utf8_injective.ne (by decide)
  induction parents generalizing parents' with
  | nil =>
      cases parents' with
      | nil => simpa using h
      | cons id' parents' =>
          exact absurd (Prod.ext_iff.mp (List.cons.inj h).1).1 hname
  | cons id parents ih =>
      cases parents' with
      | nil => exact absurd (Prod.ext_iff.mp (List.cons.inj h).1).1 hname.symm
      | cons id' parents' =>
          obtain ⟨hline, htail⟩ := List.cons.inj h
          have hbytes := hex_injective (Prod.ext_iff.mp hline).2
          obtain ⟨rfl, hvalue, hrest⟩ := ih htail
          exact ⟨by rw [ObjectId.ext_iff.mpr hbytes], hvalue, hrest⟩

structure Commit.SameText (a b : Commit) : Prop where
  tree : a.tree = b.tree
  parents : a.parents = b.parents
  author : a.author.SameText b.author
  committer : a.committer.SameText b.committer
  extraHeaders : a.extraHeaders = b.extraHeaders
  message : a.message = b.message

/-- What `gix` writes line by line, with no encoding. -/
structure Commit.Plain (commit : Commit) : Prop where
  encoding : commit.encoding = none
  author : commit.author.Writable
  committer : commit.committer.Writable
  extraHeaders : ∀ line ∈ commit.extraHeaders, PlainLine line

theorem Commit.Plain.lines {commit : Commit} (h : commit.Plain) :
    ∀ line ∈ commit.lines, PlainLine line := by
  have hhex (bytes : Bytes) : (10 : UInt8) ∉ hex bytes := fun hmem =>
    absurd (hex_ge hmem) (by decide)
  have hname : ∀ name ∈ ["tree", "parent", "author", "committer"],
      PlainName (utf8 name) := by decide
  intro line hline
  simp only [Commit.lines, List.mem_cons, List.mem_append, List.mem_map] at hline
  rcases hline with rfl | ⟨id, -, rfl⟩ | rfl | rfl | hline
  · exact ⟨hname "tree" (by simp), hhex _⟩
  · exact ⟨hname "parent" (by simp), hhex _⟩
  · exact ⟨hname "author" (by simp), Signature.newline_notMem_serialize h.author⟩
  · exact ⟨hname "committer" (by simp),
      Signature.newline_notMem_serialize h.committer⟩
  · exact h.extraHeaders line hline

theorem Commit.serialize_eq_iff {a b : Commit} (ha : a.Plain) (hb : b.Plain) :
    a.serialize = b.serialize ↔ a.SameText b := by
  rw [serialize_eq_lines ha.encoding, serialize_eq_lines hb.encoding]
  constructor
  · intro h
    obtain ⟨hlines, hmessage⟩ := writeLines_inj ha.lines hb.lines h
    obtain ⟨htree, htail⟩ := List.cons.inj hlines
    obtain ⟨hparents, hauthor, hrest⟩ := parentLines_inj htail
    obtain ⟨hcommitter, hextra⟩ := List.cons.inj hrest
    exact {
      tree := ObjectId.ext_iff.mpr (hex_injective (Prod.ext_iff.mp htree).2)
      parents := hparents
      author := (Signature.serialize_eq_iff ha.author hb.author).mp hauthor
      committer := (Signature.serialize_eq_iff ha.committer hb.committer).mp
        (Prod.ext_iff.mp hcommitter).2
      extraHeaders := hextra
      message := hmessage }
  · rintro ⟨htree, hparents, hauthor, hcommitter, hextra, hmessage⟩
    rw [lines, lines, htree, hparents, hextra, hmessage,
      (Signature.serialize_eq_iff ha.author hb.author).mpr hauthor,
      (Signature.serialize_eq_iff ha.committer hb.committer).mpr hcommitter]

/-! ## Trees -/

theorem EntryKind.bytes_injective : Function.Injective EntryKind.bytes := by
  intro a b h
  cases a <;> cases b <;> first | rfl | exact absurd h (by decide)

theorem Entry.serialize_append_inj {a b : Entry} {rest rest' : Bytes}
    (ha : (0 : UInt8) ∉ a.filename) (hb : (0 : UInt8) ∉ b.filename)
    (h : a.serialize ++ rest = b.serialize ++ rest') : a = b ∧ rest = rest' := by
  have hmode (kind : EntryKind) : (32 : UInt8) ∉ kind.bytes := by
    cases kind <;> decide
  simp only [serialize, List.append_assoc, List.cons_append] at h
  obtain ⟨hkind, htail⟩ := delimited_inj (hmode _) (hmode _) h
  obtain ⟨hname, htail⟩ := delimited_inj ha hb htail
  obtain ⟨hoid, hrest⟩ := List.append_inj htail
    (a.oid.length_eq.trans b.oid.length_eq.symm)
  cases a
  cases b
  obtain rfl := EntryKind.bytes_injective hkind
  obtain rfl := ObjectId.ext_iff.mpr hoid
  subst hname
  exact ⟨rfl, hrest⟩

theorem entries_eq_of_serialize {entries entries' : List Entry}
    (hentries : ∀ entry ∈ entries, (0 : UInt8) ∉ entry.filename)
    (hentries' : ∀ entry ∈ entries', (0 : UInt8) ∉ entry.filename)
    (h : entries.flatMap Entry.serialize = entries'.flatMap Entry.serialize) :
    entries = entries' := by
  have hne (entry : Entry) (rest : Bytes) : entry.serialize ++ rest ≠ [] := by
    simp [Entry.serialize]
  induction entries generalizing entries' with
  | nil =>
      cases entries' with
      | nil => rfl
      | cons entry' entries' => exact absurd h.symm (hne entry' _)
  | cons entry entries ih =>
      cases entries' with
      | nil => exact absurd h (hne entry _)
      | cons entry' entries' =>
          rw [List.flatMap_cons, List.flatMap_cons] at h
          obtain ⟨rfl, htail⟩ := Entry.serialize_append_inj
            (hentries entry List.mem_cons_self)
            (hentries' entry' List.mem_cons_self) h
          rw [ih (fun e he => hentries e (List.mem_cons_of_mem _ he))
            (fun e he => hentries' e (List.mem_cons_of_mem _ he)) htail]

end CommitCloud.Gix

namespace CommitCloud.Platform

open Foundation

variable {P : Platform} {kind : Gix.Kind} {given : Set Bytes} {data data' : Bytes}

theorem computeHash_eq_iff (hsha : P.Sha1InjOn kind given) (hdata : data ∈ given)
    (hdata' : data' ∈ given) :
    (P.computeHash kind data).bytes = (P.computeHash kind data').bytes ↔
      data = data' := by
  have hinputs := hsha.eq_iff (Set.mem_image_of_mem _ hdata)
    (Set.mem_image_of_mem _ hdata')
  rw [← Gix.ObjectId.ext_iff]
  exact hinputs.trans (Gix.hashInput_injective kind).eq_iff

theorem truncated_eq_iff {length : Nat}
    (hsha : P.TruncatedInjOn kind length given) (hdata : data ∈ given)
    (hdata' : data' ∈ given) :
    (P.computeHash kind data).bytes.take length =
        (P.computeHash kind data').bytes.take length ↔ data = data' := by
  have hinputs := hsha.eq_iff (Set.mem_image_of_mem _ hdata)
    (Set.mem_image_of_mem _ hdata')
  exact hinputs.trans (Gix.hashInput_injective kind).eq_iff

/-- A hash that tells two objects apart collides on no others, if no others are given. -/
theorem injOn_hashInput_of_pair {Hash : Type} {hash : Bytes → Hash}
    (hgiven : given ⊆ {data, data'})
    (hne : hash (Gix.hashInput kind data) ≠ hash (Gix.hashInput kind data')) :
    Set.InjOn hash (Gix.hashInput kind '' given) := by
  have hpair : Set.InjOn hash (Gix.hashInput kind '' {data, data'}) := by
    rw [Set.image_pair, Set.injOn_pair]
    exact fun h => absurd h hne
  exact hpair.mono (Set.image_mono hgiven)

end CommitCloud.Platform
