import Mathlib.Data.Nat.Digits.Lemmas
import Mathlib.Logic.Function.Iterate

/-!
# Numbers and checksums in bytes

Fixed-width little-endian numbers, and the CRC-32 of the IEEE polynomial.  The
checksum advances bit by bit through a register of 32 bits; a step can be undone,
since the polynomial sets the bit the shift has cleared, so two texts that differ
in one byte never have the same checksum.

## Main definitions

* `leBytes k n`, `ofLeBytes bs` — writing a number in `k` bytes, and reading it.
* `crcBit`, `crcByte`, `crc32` — the checksum.
* `DetectsByteChange hash` — changing one byte changes the checksum.

## Main results

* `ofLeBytes_leBytes` — the round trip, up to the width.
* `ofLeBytes_set_ne` — changing one byte changes the number.
* `crcBit_injective`, `crcByte_injective` — a step of the register can be undone.
* `crc32_detectsByteChange` — CRC-32 detects any change confined to one byte.
-/

namespace ByteCodes

/-! ### Little-endian numbers -/

/-- The low `k` bytes of `n`, the lowest first. -/
def leBytes : ℕ → ℕ → List UInt8
  | 0, _ => []
  | k + 1, n => UInt8.ofNat n :: leBytes k (n / 256)

/-- The number with these bytes, the lowest first. -/
def ofLeBytes (bs : List UInt8) : ℕ := Nat.ofDigits 256 (bs.map UInt8.toNat)

@[simp] theorem length_leBytes (k n : ℕ) : (leBytes k n).length = k := by
  induction k generalizing n with
  | zero => rfl
  | succ k ih => rw [leBytes, List.length_cons, ih]

theorem ofLeBytes_cons (b : UInt8) (bs : List UInt8) :
    ofLeBytes (b :: bs) = b.toNat + 256 * ofLeBytes bs := by
  rw [ofLeBytes, List.map_cons, Nat.ofDigits_cons, ofLeBytes]

/-- Writing in `k` bytes keeps the number modulo `256 ^ k`. -/
theorem ofLeBytes_leBytes (k n : ℕ) : ofLeBytes (leBytes k n) = n % 256 ^ k := by
  induction k generalizing n with
  | zero => simp [leBytes, ofLeBytes, Nat.mod_one]
  | succ k ih =>
    rw [leBytes, ofLeBytes_cons, ih, pow_succ, Nat.mul_comm _ 256, Nat.mod_mul]
    simp

theorem ofLeBytes_leBytes_of_lt {k n : ℕ} (h : n < 256 ^ k) : ofLeBytes (leBytes k n) = n := by
  rw [ofLeBytes_leBytes, Nat.mod_eq_of_lt h]

private theorem toNat_lt_of_mem {bs : List UInt8} : ∀ d ∈ bs.map UInt8.toNat, d < 256 := by
  intro d hd
  obtain ⟨b, -, rfl⟩ := List.mem_map.mp hd
  exact b.toNat_lt

theorem ofLeBytes_lt (bs : List UInt8) : ofLeBytes bs < 256 ^ bs.length := by
  have h : Nat.ofDigits 256 (bs.map UInt8.toNat) < 256 ^ (bs.map UInt8.toNat).length :=
    Nat.ofDigits_lt_base_pow_length (by decide) toNat_lt_of_mem
  rwa [List.length_map] at h

/-- Bytes of one width are determined by their number. -/
theorem ofLeBytes_inj {bs cs : List UInt8} (hlen : bs.length = cs.length)
    (h : ofLeBytes bs = ofLeBytes cs) : bs = cs := by
  have hmap : bs.map UInt8.toNat = cs.map UInt8.toNat :=
    Nat.ofDigits_inj_of_len_eq (by decide) (by simpa using hlen) toNat_lt_of_mem toNat_lt_of_mem h
  exact List.map_injective_iff.mpr (fun _ _ => UInt8.toNat_inj.mp) hmap

/-- Changing one byte changes the number. -/
theorem ofLeBytes_set_ne {bs : List UInt8} {i : ℕ} {b : UInt8} (hi : i < bs.length)
    (hb : b ≠ bs[i]) : ofLeBytes (bs.set i b) ≠ ofLeBytes bs := by
  intro h
  have heq := ofLeBytes_inj (List.length_set ..) h
  have hget : (bs.set i b)[i]? = bs[i]? := by rw [heq]
  rw [List.getElem?_set_self hi, List.getElem?_eq_getElem hi] at hget
  exact hb (Option.some.inj hget)

/-! ### CRC-32 -/

/-- The IEEE polynomial, lowest power in the highest bit. -/
def polynomial : BitVec 32 := 0xEDB88320#32

/-- One bit through the register. -/
def crcBit (c : BitVec 32) : BitVec 32 :=
  if c.getLsbD 0 then (c >>> 1) ^^^ polynomial else c >>> 1

/-- One byte through the register. -/
def crcByte (c : BitVec 32) (b : UInt8) : BitVec 32 :=
  crcBit^[8] (c ^^^ b.toBitVec.setWidth 32)

/-- The CRC-32 of a text. -/
def crc32 (bs : List UInt8) : UInt32 :=
  UInt32.ofBitVec (bs.foldl crcByte (BitVec.allOnes 32) ^^^ BitVec.allOnes 32)

/-- Changing one byte of a text changes its checksum. -/
def DetectsByteChange (hash : List UInt8 → UInt32) : Prop :=
  ∀ before b b' after, b ≠ b' → hash (before ++ b :: after) ≠ hash (before ++ b' :: after)

/-- The highest bit after a step is the lowest one before it. -/
theorem crcBit_getLsbD_last (c : BitVec 32) : (crcBit c).getLsbD 31 = c.getLsbD 0 := by
  unfold crcBit
  cases h : c.getLsbD 0 with
  | true => simp [polynomial]
  | false => simp

theorem shift_injective {c d : BitVec 32} (h : c >>> 1 = d >>> 1)
    (hlow : c.getLsbD 0 = d.getLsbD 0) : c = d := by
  apply BitVec.eq_of_getLsbD_eq
  intro i _
  cases i with
  | zero => exact hlow
  | succ i =>
    have hbit := congrArg (fun x : BitVec 32 => x.getLsbD i) h
    simpa [BitVec.getLsbD_ushiftRight, Nat.add_comm] using hbit

/-- **A step of the register can be undone.** -/
theorem crcBit_injective : Function.Injective crcBit := by
  intro c d h
  have hlow : c.getLsbD 0 = d.getLsbD 0 := by
    rw [← crcBit_getLsbD_last, ← crcBit_getLsbD_last, h]
  apply shift_injective _ hlow
  unfold crcBit at h
  rw [hlow] at h
  cases hd : d.getLsbD 0 with
  | true =>
    rw [hd, if_pos rfl, if_pos rfl] at h
    exact (BitVec.xor_right_inj polynomial).mp (by rwa [BitVec.xor_comm polynomial,
      BitVec.xor_comm polynomial])
  | false =>
    rw [hd] at h
    simpa using h

theorem xor_right_cancel {w : ℕ} {a b c : BitVec w} (h : a ^^^ c = b ^^^ c) : a = b := by
  apply (BitVec.xor_right_inj c).mp
  rwa [BitVec.xor_comm c, BitVec.xor_comm c]

/-- A byte leaves different registers different. -/
theorem crcByte_injective (b : UInt8) : Function.Injective fun c => crcByte c b := by
  intro c d h
  exact xor_right_cancel (crcBit_injective.iterate 8 h)

/-- Different bytes leave the register different. -/
theorem crcByte_ne {b b' : UInt8} (c : BitVec 32) (h : b ≠ b') : crcByte c b ≠ crcByte c b' := by
  intro heq
  apply h
  have hwide := (BitVec.xor_right_inj c).mp (crcBit_injective.iterate 8 heq)
  have hbits := congrArg (BitVec.setWidth 8) hwide
  simp only [BitVec.setWidth_setWidth_of_le _ (show 8 ≤ 32 by decide), BitVec.setWidth_eq]
    at hbits
  exact UInt8.toBitVec_inj.mp hbits

theorem foldl_crcByte_injective (bs : List UInt8) :
    Function.Injective fun c => bs.foldl crcByte c := by
  induction bs with
  | nil => exact Function.injective_id
  | cons b bs ih => exact ih.comp (crcByte_injective b)

/-- **CRC-32 detects any change confined to one byte.** -/
theorem crc32_detectsByteChange : DetectsByteChange crc32 := by
  intro before b b' after hne h
  unfold crc32 at h
  have hregister := xor_right_cancel (UInt32.ofBitVec.inj h)
  rw [List.foldl_append, List.foldl_append, List.foldl_cons, List.foldl_cons] at hregister
  exact crcByte_ne _ hne (foldl_crcByte_injective after hregister)

/-- The check value of CRC-32, the checksum of the digits from 1 to 9. -/
example : crc32 [49, 50, 51, 52, 53, 54, 55, 56, 57] = 0xCBF43926 := by decide +kernel

end ByteCodes
