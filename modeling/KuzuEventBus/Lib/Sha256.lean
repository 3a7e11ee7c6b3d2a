import Mathlib.Algebra.Group.Nat.Defs
import Mathlib.Data.List.Basic
import Mathlib.Data.Nat.Notation

/-!
# SHA-256

The digest of a text of bytes, written in hexadecimal.

## Main definitions

* `padding`, `toWords` — a text as a whole number of blocks of sixteen words.
* `schedule`, `round`, `compress` — one block.
* `hexdigest` — `hashlib.sha256(…).hexdigest()`.

## Main results

* `length_hexdigest`, `mem_hexDigits_of_mem_hexdigest` — a digest is sixty-four hexadecimal digits.
-/

namespace Sha256

/-- The eight words that a block changes. -/
structure State where
  (a b c d e f g h : UInt32)

/-- The first 32 bits of the fractional parts of the square roots of the first eight primes. -/
def initialState : State where
  a := 0x6a09e667
  b := 0xbb67ae85
  c := 0x3c6ef372
  d := 0xa54ff53a
  e := 0x510e527f
  f := 0x9b05688c
  g := 0x1f83d9ab
  h := 0x5be0cd19

/-- The first 32 bits of the fractional parts of the cube roots of the first sixty-four primes. -/
def roundConstants : List UInt32 :=
  [0x428a2f98, 0x71374491, 0xb5c0fbcf, 0xe9b5dba5, 0x3956c25b, 0x59f111f1, 0x923f82a4, 0xab1c5ed5,
   0xd807aa98, 0x12835b01, 0x243185be, 0x550c7dc3, 0x72be5d74, 0x80deb1fe, 0x9bdc06a7, 0xc19bf174,
   0xe49b69c1, 0xefbe4786, 0x0fc19dc6, 0x240ca1cc, 0x2de92c6f, 0x4a7484aa, 0x5cb0a9dc, 0x76f988da,
   0x983e5152, 0xa831c66d, 0xb00327c8, 0xbf597fc7, 0xc6e00bf3, 0xd5a79147, 0x06ca6351, 0x14292967,
   0x27b70a85, 0x2e1b2138, 0x4d2c6dfc, 0x53380d13, 0x650a7354, 0x766a0abb, 0x81c2c92e, 0x92722c85,
   0xa2bfe8a1, 0xa81a664b, 0xc24b8b70, 0xc76c51a3, 0xd192e819, 0xd6990624, 0xf40e3585, 0x106aa070,
   0x19a4c116, 0x1e376c08, 0x2748774c, 0x34b0bcb5, 0x391c0cb3, 0x4ed8aa4a, 0x5b9cca4f, 0x682e6ff3,
   0x748f82ee, 0x78a5636f, 0x84c87814, 0x8cc70208, 0x90befffa, 0xa4506ceb, 0xbef9a3f7, 0xc67178f2]

/-- A word rotated to the right. -/
def rotr (w n : UInt32) : UInt32 := (w >>> n) ||| (w <<< (32 - n))

/-- The word that the schedule goes on with, after words of which the last one is first. -/
def nextWord (ws : List UInt32) : UInt32 :=
  let w15 := ws.getD 14 0
  let w2 := ws.getD 1 0
  let s0 := rotr w15 7 ^^^ rotr w15 18 ^^^ (w15 >>> 3)
  let s1 := rotr w2 17 ^^^ rotr w2 19 ^^^ (w2 >>> 10)
  ws.getD 15 0 + s0 + ws.getD 6 0 + s1

/-- Words, the last one first, and those that come after them. -/
def extend : ℕ → List UInt32 → List UInt32
  | 0, ws => ws
  | n + 1, ws => extend n (nextWord ws :: ws)

/-- The sixty-four words of a block. -/
def schedule (block : List UInt32) : List UInt32 := (extend 48 block.reverse).reverse

/-- One round, with its constant and its word. -/
def round (s : State) (kw : UInt32 × UInt32) : State :=
  let s1 := rotr s.e 6 ^^^ rotr s.e 11 ^^^ rotr s.e 25
  let ch := (s.e &&& s.f) ^^^ (~~~s.e &&& s.g)
  let t1 := s.h + s1 + ch + kw.1 + kw.2
  let s0 := rotr s.a 2 ^^^ rotr s.a 13 ^^^ rotr s.a 22
  let maj := (s.a &&& s.b) ^^^ (s.a &&& s.c) ^^^ (s.b &&& s.c)
  ⟨t1 + (s0 + maj), s.a, s.b, s.c, s.d + t1, s.e, s.f, s.g⟩

/-- One block. -/
def compress (s : State) (block : List UInt32) : State :=
  let s' := (roundConstants.zip (schedule block)).foldl round s
  ⟨s.a + s'.a, s.b + s'.b, s.c + s'.c, s.d + s'.d, s.e + s'.e, s.f + s'.f, s.g + s'.g, s.h + s'.h⟩

/-- A number of blocks. -/
def compressAll : ℕ → State → List UInt32 → State
  | 0, s, _ => s
  | n + 1, s, ws => compressAll n (compress s (ws.take 16)) (ws.drop 16)

/-- What is written after a text: a bit, the zeros up to a whole number of blocks, and the number
of bits of the text. -/
def padding (length : ℕ) : List UInt8 :=
  0x80 :: List.replicate ((119 - length % 64) % 64) 0 ++
    [56, 48, 40, 32, 24, 16, 8, 0].map fun k => UInt8.ofNat (length * 8 / 2 ^ k)

/-- The words of bytes. -/
def toWords : List UInt8 → List UInt32
  | b₀ :: b₁ :: b₂ :: b₃ :: bs =>
    (b₀.toUInt32 <<< 24 ||| b₁.toUInt32 <<< 16 ||| b₂.toUInt32 <<< 8 ||| b₃.toUInt32) :: toWords bs
  | _ => []

/-- The digest of a text, in words. -/
def digest (bs : List UInt8) : State :=
  let ws := toWords (bs ++ padding bs.length)
  compressAll (ws.length / 16) initialState ws

/-- The hexadecimal digits of a word. -/
def hexWord (w : UInt32) : List Char :=
  [28, 24, 20, 16, 12, 8, 4, 0].map fun k => Nat.digitChar (w.toNat / 2 ^ k % 16)

/-- The hexadecimal digits of the digest of a text. -/
def hexdigest (bs : List UInt8) : List Char :=
  let s := digest bs
  [s.a, s.b, s.c, s.d, s.e, s.f, s.g, s.h].flatMap hexWord

@[simp] theorem length_hexdigest (bs : List UInt8) : (hexdigest bs).length = 64 := rfl

/-- The digits are those of `0` to `9` and of `a` to `f`. -/
theorem mem_hexDigits_of_mem_hexdigest {bs : List UInt8} {c : Char} (hc : c ∈ hexdigest bs) :
    c ∈ "0123456789abcdef".toList := by
  have hdigit : ∀ n < 16, Nat.digitChar n ∈ "0123456789abcdef".toList := by decide
  obtain ⟨w, _, hw⟩ := List.mem_flatMap.mp hc
  obtain ⟨k, _, rfl⟩ := List.mem_map.mp hw
  exact hdigit _ (Nat.mod_lt _ (by decide))

example : hexdigest ("abc".toList.flatMap String.utf8EncodeChar) =
    "ba7816bf8f01cfea414140de5dae2223b00361a396177a9cb410ff61f20015ad".toList := by
  decide +kernel

end Sha256
