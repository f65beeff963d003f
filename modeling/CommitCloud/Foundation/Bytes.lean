import Mathlib.Data.List.Lex
import Mathlib.Data.String.Basic
import Std.Data.String.ToNat

/-!
# Byte strings

Byte strings are lists of `UInt8`, ordered lexicographically.  The encoders
below are the ones wire formats are assembled from: little-endian integers,
UTF-8 text, lower-case hexadecimal and decimal numerals.  Each comes with the
fact that makes a format decodable: its injectivity, and which delimiters it
never produces.
-/

namespace Foundation

abbrev Bytes := List UInt8

instance linearOrderByte : LinearOrder UInt8 where
  le_refl := UInt8.le_refl
  le_trans _ _ _ := UInt8.le_trans
  lt_iff_le_not_ge a b := by
    simp only [UInt8.lt_iff_toNat_lt, UInt8.le_iff_toNat_le]
    omega
  le_antisymm _ _ := UInt8.le_antisymm
  le_total := UInt8.le_total
  toDecidableLE := inferInstance
  toDecidableLT := inferInstance
  toDecidableEq := inferInstance

/-! ## Little-endian integers -/

/-- The `width` low bytes of `n`, least significant first. -/
def leBytes : Nat → Nat → Bytes
  | 0, _ => []
  | width + 1, n => UInt8.ofNat (n % 256) :: leBytes width (n / 256)

@[simp] theorem length_leBytes (width n : Nat) :
    (leBytes width n).length = width := by
  induction width generalizing n with
  | zero => rfl
  | succ width ih => simp [leBytes, ih]

/-- The bytes determine a number up to what lies above them. -/
theorem leBytes_inj {width m n : Nat} (hhigh : m / 256 ^ width = n / 256 ^ width)
    (h : leBytes width m = leBytes width n) : m = n := by
  induction width generalizing m n with
  | zero => simpa using hhigh
  | succ width ih =>
      simp only [leBytes, List.cons.injEq] at h
      obtain ⟨hfirst, hrest⟩ := h
      have hmod : m % 256 = n % 256 := by
        have := congrArg UInt8.toNat hfirst
        simpa [UInt8.toNat_ofNat'] using this
      have hdiv : m / 256 = n / 256 := by
        refine ih ?_ hrest
        rwa [Nat.div_div_eq_div_mul, Nat.div_div_eq_div_mul, ← Nat.pow_succ']
      omega

theorem leBytes_mod (width n : Nat) :
    leBytes width (n % 256 ^ width) = leBytes width n := by
  induction width generalizing n with
  | zero => rfl
  | succ width ih =>
      have hfirst : n % 256 ^ (width + 1) % 256 = n % 256 :=
        Nat.mod_mod_of_dvd n (Nat.dvd_mul_left 256 (256 ^ width))
      have hrest : n % 256 ^ (width + 1) / 256 = n / 256 % 256 ^ width := by
        rw [Nat.pow_succ', Nat.mod_mul_right_div_self]
      rw [leBytes, leBytes, hfirst, hrest, ih]

theorem leBytes_eq_iff {width m n : Nat} :
    leBytes width m = leBytes width n ↔ m % 256 ^ width = n % 256 ^ width := by
  have hhigh (n : Nat) : n % 256 ^ width / 256 ^ width = 0 :=
    Nat.div_eq_of_lt (Nat.mod_lt n (Nat.pow_pos (by decide)))
  constructor
  · intro h
    rw [← leBytes_mod, ← leBytes_mod width n] at h
    exact leBytes_inj ((hhigh m).trans (hhigh n).symm) h
  · intro h
    rw [← leBytes_mod, h, leBytes_mod]

theorem cons_leBytes (width : Nat) {b : Nat} (hb : b < 256) (n : Nat) :
    UInt8.ofNat b :: leBytes width n = leBytes (width + 1) (b + 256 * n) := by
  have hmod : (b + 256 * n) % 256 = b := by omega
  have hdiv : (b + 256 * n) / 256 = n := by omega
  rw [leBytes, hmod, hdiv]

/-- One byte more of a number goes behind the others. -/
theorem leBytes_prefix (width n : Nat) : leBytes width n <+: leBytes (width + 1) n := by
  induction width generalizing n with
  | zero => exact List.nil_prefix
  | succ width ih => exact List.cons_prefix_cons.mpr ⟨rfl, ih (n / 256)⟩

def leBytesInt64 (value : Int64) : Bytes := leBytes 8 value.toBitVec.toNat

@[simp] theorem length_leBytesInt64 (value : Int64) :
    (leBytesInt64 value).length = 8 :=
  length_leBytes _ _

theorem leBytesInt64_injective : Function.Injective leBytesInt64 := by
  intro x y h
  have hhigh (v : Int64) : v.toBitVec.toNat / 256 ^ 8 = 0 :=
    Nat.div_eq_of_lt v.toBitVec.isLt
  have hbits := BitVec.eq_of_toNat_eq
    (leBytes_inj ((hhigh x).trans (hhigh y).symm) h)
  exact Int64.toBitVec_inj.mp hbits

theorem leBytes_eq_leBytesInt64 (n : Nat) :
    leBytes 8 n = leBytesInt64 (Int64.ofNat n) := by
  rw [leBytesInt64, ← leBytes_mod]
  rfl

/-! ## Text -/

def utf8 (s : String) : Bytes := s.toByteArray.data.toList

theorem utf8_injective : Function.Injective utf8 := by
  intro s t h
  apply String.toByteArray_inj.mp
  apply ByteArray.ext
  exact Array.toList_inj.mp h

theorem utf8_eq_flatMap (s : String) :
    utf8 s = s.toList.flatMap String.utf8EncodeChar := by
  conv => lhs; rw [← String.ofList_toList (s := s)]
  exact List.toList_data_toByteArray

theorem utf8EncodeChar_of_ascii {c : Char} (h : c.toNat < 128) :
    String.utf8EncodeChar c = [c.toUInt8] := by
  have hle : c.val.toNat ≤ 127 := Nat.le_of_lt_succ h
  rw [String.utf8EncodeChar, if_pos hle]
  rfl

/-- Longer encodings use no byte below 128. -/
theorem ge_of_mem_utf8EncodeChar {c : Char} (h : 128 ≤ c.toNat) {b : UInt8}
    (hb : b ∈ String.utf8EncodeChar c) : 128 ≤ b.toNat := by
  have hnot : ¬ c.val.toNat ≤ 127 := Nat.not_le_of_lt h
  have hofNat {n : Nat} (hlow : 128 ≤ n) (hhigh : n < 256) :
      128 ≤ (UInt8.ofNat n).toNat := by
    rwa [UInt8.toNat_ofNat_of_lt' hhigh]
  rw [String.utf8EncodeChar, if_neg hnot] at hb
  split_ifs at hb <;> simp only [List.mem_cons, List.not_mem_nil, or_false] at hb
  · rcases hb with rfl | rfl <;> exact hofNat (by omega) (by omega)
  · rcases hb with rfl | rfl | rfl <;> exact hofNat (by omega) (by omega)
  · rcases hb with rfl | rfl | rfl | rfl <;> exact hofNat (by omega) (by omega)

theorem ascii_mem_utf8EncodeChar_iff {c d : Char} (hc : c.toNat < 128) :
    c.toUInt8 ∈ String.utf8EncodeChar d ↔ c = d := by
  have hbyte : c.toUInt8.toNat = c.toNat := Nat.mod_eq_of_lt (hc.trans (by decide))
  by_cases hd : d.toNat < 128
  · have hbyte' : d.toUInt8.toNat = d.toNat := Nat.mod_eq_of_lt (hd.trans (by decide))
    rw [utf8EncodeChar_of_ascii hd, List.mem_singleton, ← UInt8.toNat_inj, hbyte, hbyte',
      Char.toNat_inj]
  · constructor
    · intro hmem
      have := ge_of_mem_utf8EncodeChar (Nat.le_of_not_lt hd) hmem
      omega
    · rintro rfl
      exact absurd hc hd

/-- An ASCII character is in a text exactly if its byte is in the encoding. -/
theorem ascii_mem_utf8_iff {c : Char} (hc : c.toNat < 128) {s : String} :
    c.toUInt8 ∈ utf8 s ↔ c ∈ s.toList := by
  simp [utf8_eq_flatMap, ascii_mem_utf8EncodeChar_iff hc]

/-- The lower-case hexadecimal digit of a number below sixteen, in ASCII. -/
def hexDigit (n : Nat) : UInt8 :=
  if n < 10 then UInt8.ofNat (48 + n) else UInt8.ofNat (87 + n)

/-- Two lower-case hexadecimal digits for each byte, in ASCII. -/
def hex : Bytes → Bytes
  | [] => []
  | b :: bytes => hexDigit (b.toNat / 16) :: hexDigit (b.toNat % 16) :: hex bytes

def hexEncode (bytes : Bytes) : String :=
  String.ofList ((hex bytes).map fun digit => Char.ofNat digit.toNat)

theorem hexDigit_inj {m n : Nat} (hm : m < 16) (hn : n < 16)
    (h : hexDigit m = hexDigit n) : m = n := by
  have key : ∀ m < 16, ∀ n < 16, hexDigit m = hexDigit n → m = n := by decide
  exact key m hm n hn h

theorem hexDigit_ge {n : Nat} (hn : n < 16) : 48 ≤ hexDigit n := by
  have key : ∀ n < 16, 48 ≤ hexDigit n := by decide
  exact key n hn

theorem hex_injective : Function.Injective hex := by
  intro first second h
  induction first generalizing second with
  | nil =>
      cases second with
      | nil => rfl
      | cons b bytes => simp [hex] at h
  | cons a first ih =>
      cases second with
      | nil => simp [hex] at h
      | cons b second =>
          simp only [hex, List.cons.injEq] at h
          obtain ⟨hhigh, hlow, hrest⟩ := h
          have ha := a.toNat_lt
          have hb := b.toNat_lt
          have hdiv := hexDigit_inj (by omega) (by omega) hhigh
          have hmod := hexDigit_inj (by omega) (by omega) hlow
          have hab : a.toNat = b.toNat := by omega
          rw [UInt8.toNat_inj.mp hab, ih hrest]

theorem hex_ge {bytes : Bytes} {digit : UInt8} (h : digit ∈ hex bytes) :
    48 ≤ digit := by
  induction bytes with
  | nil => simp [hex] at h
  | cons b bytes ih =>
      have hb := b.toNat_lt
      simp only [hex, List.mem_cons] at h
      rcases h with rfl | rfl | h
      · exact hexDigit_ge (by omega)
      · exact hexDigit_ge (by omega)
      · exact ih h

/-! ## Decimal numerals -/

def decimal (n : Nat) : Bytes :=
  (Nat.toDigits 10 n).map fun digit => UInt8.ofNat digit.toNat

/-- The decimal numeral of an integer, with a leading `-` for negative ones. -/
def decimalInt : Int → Bytes
  | .ofNat n => decimal n
  | .negSucc n => 45 :: decimal (n + 1)

private theorem digit_bounds {n : Nat} {c : Char} (h : c ∈ Nat.toDigits 10 n) :
    48 ≤ c.toNat ∧ c.toNat ≤ 57 := by
  have hdigit := Nat.isDigit_of_mem_toDigits (by decide) (by decide) h
  simpa [Char.isDigit, UInt32.le_iff_toNat_le] using hdigit

theorem decimal_ge {n : Nat} {digit : UInt8} (h : digit ∈ decimal n) :
    48 ≤ digit := by
  obtain ⟨c, hc, rfl⟩ := List.mem_map.mp h
  obtain ⟨hlow, hhigh⟩ := digit_bounds hc
  have hsize : c.toNat < 256 := by omega
  rw [UInt8.le_iff_toNat_le, UInt8.toNat_ofNat_of_lt' hsize]
  exact hlow

private theorem decimal_chars (n : Nat) :
    (decimal n).map (fun digit => Char.ofNat digit.toNat) =
      Nat.toDigits 10 n := by
  rw [decimal, List.map_map]
  refine (List.map_congr_left fun c hc => ?_).trans (List.map_id _)
  have hsize : c.toNat < 256 := by
    have := digit_bounds hc
    omega
  simp only [Function.comp_apply, UInt8.toNat_ofNat_of_lt' hsize, id]
  exact Char.ofNat_toNat c

theorem decimal_injective : Function.Injective decimal := by
  intro m n h
  have hdigits : Nat.toDigits 10 m = Nat.toDigits 10 n := by
    rw [← decimal_chars m, ← decimal_chars n, h]
  have hrepr : Nat.repr m = Nat.repr n := by
    simp only [Nat.repr, hdigits]
  exact Nat.repr_injective hrepr

theorem decimalInt_injective : Function.Injective decimalInt := by
  intro x y h
  -- the minus sign is not a digit, so the sign of a numeral can be read off
  have hsign (n : Nat) (rest : Bytes) : decimal n ≠ 45 :: rest := by
    intro heq
    have hle : (48 : UInt8) ≤ 45 :=
      decimal_ge (n := n) (heq ▸ List.mem_cons_self)
    exact absurd hle (by decide)
  cases x with
  | ofNat m =>
      cases y with
      | ofNat n => rw [decimal_injective h]
      | negSucc n => exact absurd h (hsign m _)
  | negSucc m =>
      cases y with
      | ofNat n => exact absurd h.symm (hsign n _)
      | negSucc n =>
          have hmag := decimal_injective (List.cons.inj h).2
          rw [Nat.succ.inj hmag]

theorem decimalInt_ge {value : Int} {byte : UInt8} (h : byte ∈ decimalInt value) :
    45 ≤ byte := by
  have hdigit {n : Nat} (hb : byte ∈ decimal n) : 45 ≤ byte :=
    le_trans (by decide) (decimal_ge hb)
  cases value with
  | ofNat n => exact hdigit h
  | negSucc n =>
      rcases List.mem_cons.mp h with rfl | h
      · exact le_refl _
      · exact hdigit h

end Foundation
