import CommitCloud.Foundation.Bytes

/-!
# SHA-1

The Secure Hash Standard's SHA-1 on byte strings, written to be evaluated.
Nothing is proved about it but the length of its digests; collision resistance
is a hypothesis wherever it is used.
-/

namespace Foundation.Sha1

abbrev Word := BitVec 32

structure State where
  a : Word
  b : Word
  c : Word
  d : Word
  e : Word
  deriving DecidableEq

def initial : State :=
  ⟨0x67452301, 0xefcdab89, 0x98badcfe, 0x10325476, 0xc3d2e1f0⟩

/-- A word is read and written most significant byte first. -/
def wordOfBytes (b₀ b₁ b₂ b₃ : UInt8) : Word :=
  BitVec.ofNat 32
    (b₀.toNat * 2 ^ 24 + b₁.toNat * 2 ^ 16 + b₂.toNat * 2 ^ 8 + b₃.toNat)

def wordBytes (w : Word) : Bytes :=
  [UInt8.ofNat (w.toNat / 2 ^ 24), UInt8.ofNat (w.toNat / 2 ^ 16),
    UInt8.ofNat (w.toNat / 2 ^ 8), UInt8.ofNat w.toNat]

def words : Bytes → List Word
  | b₀ :: b₁ :: b₂ :: b₃ :: rest => wordOfBytes b₀ b₁ b₂ b₃ :: words rest
  | _ => []

/-- Append `count` words to a message schedule kept newest word first. -/
def extend : Nat → List Word → List Word
  | 0, schedule => schedule
  | count + 1, schedule =>
      let w := schedule.getD 2 0 ^^^ schedule.getD 7 0 ^^^
        schedule.getD 13 0 ^^^ schedule.getD 15 0
      extend count (w.rotateLeft 1 :: schedule)

def mix (t : Nat) (b c d : Word) : Word :=
  if t < 20 then (b &&& c) ||| (~~~b &&& d)
  else if t < 40 then b ^^^ c ^^^ d
  else if t < 60 then (b &&& c) ||| (b &&& d) ||| (c &&& d)
  else b ^^^ c ^^^ d

def roundConstant (t : Nat) : Word :=
  if t < 20 then 0x5a827999
  else if t < 40 then 0x6ed9eba1
  else if t < 60 then 0x8f1bbcdc
  else 0xca62c1d6

def round (t : Nat) (w : Word) (s : State) : State where
  a := s.a.rotateLeft 5 + mix t s.b s.c s.d + s.e + roundConstant t + w
  b := s.a
  c := s.b.rotateLeft 30
  d := s.c
  e := s.d

def rounds : Nat → List Word → State → State
  | _, [], s => s
  | t, w :: schedule, s => rounds (t + 1) schedule (round t w s)

def compress (s : State) (block : List Word) : State :=
  let r := rounds 0 (extend 64 block.reverse).reverse s
  ⟨s.a + r.a, s.b + r.b, s.c + r.c, s.d + r.d, s.e + r.e⟩

def compressBlocks : Nat → List Word → State → State
  | 0, _, s => s
  | count + 1, message, s =>
      compressBlocks count (message.drop 16) (compress s (message.take 16))

/-- A one bit, zeros up to the last eight bytes of a block, the bit length. -/
def pad (message : Bytes) : Bytes :=
  message ++ 0x80 :: List.replicate ((119 - message.length % 64) % 64) 0 ++
    (leBytes 8 (8 * message.length)).reverse

def digest (message : Bytes) : Bytes :=
  let padded := pad message
  let s := compressBlocks (padded.length / 64) (words padded) initial
  wordBytes s.a ++ wordBytes s.b ++ wordBytes s.c ++ wordBytes s.d ++
    wordBytes s.e

@[simp] theorem length_digest (message : Bytes) :
    (digest message).length = 20 := by
  simp [digest, wordBytes]

/-- The standard's one-block test vector, the digest of `abc`. -/
example : hexEncode (digest (utf8 "abc")) =
    "a9993e364706816aba3e25717850c26c9cd0d89d" := by
  decide +kernel

end Foundation.Sha1
