import Mathlib.Algebra.Ring.Nat
import Mathlib.Data.Nat.Digits.Defs
import ChainedSet.LittleEndian

/-!
# Little-endian numbers, there and back

Reading undoes writing when the number fits its width (`decode_encode`), and writing undoes reading
(`encode_decode`), so a field of fixed width has exactly one form. Both go byte by byte: the first
byte is the number modulo 256, and the bytes after it are the number divided by 256.
-/

namespace ChainedSet.LittleEndian

private theorem toNat_decode_cons {b : UInt8} {bs : List UInt8} (h : bs.length < 8)
    (hlt : (decode bs).toNat < 256 ^ bs.length) :
    (decode (b :: bs)).toNat = b.toNat + 256 * (decode bs).toNat := by
  have hpow : 256 ^ bs.length ≤ 256 ^ 7 := Nat.pow_le_pow_right (by omega) (by omega)
  have hb := b.toNat_lt
  simp only [decode, UInt64.toNat_add, UInt64.toNat_mul, UInt8.toNat_toUInt64,
    UInt64.reduceToNat]
  omega

/-- Up to eight digits make a number below the matching power of 256. -/
theorem toNat_decode_lt {bs : List UInt8} (h : bs.length ≤ 8) :
    (decode bs).toNat < 256 ^ bs.length := by
  induction bs with
  | nil => decide
  | cons b bs ih =>
    have hlt := ih (by simp at h; omega)
    rw [toNat_decode_cons (by simp at h; omega) hlt, List.length_cons, Nat.pow_succ]
    have hb := b.toNat_lt
    omega

/-- The number that up to eight bytes make is the one whose digits they are. -/
theorem toNat_decode {bs : List UInt8} (h : bs.length ≤ 8) :
    (decode bs).toNat = Nat.ofDigits 256 (bs.map UInt8.toNat) := by
  induction bs with
  | nil => rfl
  | cons b bs ih =>
    have hshort : bs.length < 8 := by simp at h; omega
    rw [toNat_decode_cons hshort (toNat_decode_lt (by omega)), ih (by omega), List.map_cons,
      Nat.ofDigits_cons]

/-- A number below a power of two and a multiple of this power share no digits. -/
theorem xor_two_pow_mul {i low : Nat} (h : low < 2 ^ i) (high : Nat) :
    low ^^^ (2 ^ i * high) = low + 2 ^ i * high := by
  apply Nat.eq_of_testBit_eq
  intro j
  rw [Nat.add_comm, Nat.testBit_xor, Nat.testBit_two_pow_mul_add high h, Nat.testBit_two_pow_mul]
  by_cases hj : j < i
  · simp [hj, Nat.not_le.mpr hj]
  · have hlow : low.testBit j = false :=
      Nat.testBit_lt_two_pow (Nat.lt_of_lt_of_le h (Nat.pow_le_pow_right (by omega) (by omega)))
    simp [hj, hlow, Nat.not_lt.mp hj]

/-- A further digit can be put in front by shifting as well as by multiplying. -/
theorem decode_cons_eq_xor (b : UInt8) (bs : List UInt8) :
    decode (b :: bs) = b.toUInt64 ^^^ (decode bs <<< 8) := by
  have hb := b.toNat_lt
  have hshift : (decode bs <<< 8).toNat = 2 ^ 8 * ((decode bs).toNat % 2 ^ 56) := by
    rw [UInt64.toNat_shiftLeft, Nat.shiftLeft_eq]
    simp
    omega
  apply UInt64.toNat_inj.mp
  rw [UInt64.toNat_xor, hshift, UInt8.toNat_toUInt64, xor_two_pow_mul hb, decode,
    UInt64.toNat_add, UInt64.toNat_mul]
  simp
  omega

/-- Bytes that are shifted twice are shifted by as many places in all. -/
theorem shiftLeft_shiftLeft_places {i j : Nat} (h : i + j < 8) (w : UInt64) :
    w <<< UInt64.ofNat (8 * i) <<< UInt64.ofNat (8 * j) = w <<< UInt64.ofNat (8 * (i + j)) := by
  have hi : (UInt64.ofNat (8 * i)).toNat = 8 * i :=
    UInt64.toNat_ofNat_of_lt' (Nat.lt_trans (by omega : 8 * i < 64) (by decide))
  have hj : (UInt64.ofNat (8 * j)).toNat = 8 * j :=
    UInt64.toNat_ofNat_of_lt' (Nat.lt_trans (by omega : 8 * j < 64) (by decide))
  rw [Nat.mul_add, UInt64.ofNat_add, UInt64.shiftLeft_add_of_toNat_lt (by rw [hi, hj]; omega)]

/-- A further digit can be put at the end, shifted past those before it. -/
theorem decode_concat_eq_xor {bs : List UInt8} (h : bs.length < 8) (b : UInt8) :
    decode (bs ++ [b]) = decode bs ^^^ (b.toUInt64 <<< UInt64.ofNat (8 * bs.length)) := by
  induction bs with
  | nil => simp [decode]
  | cons first bs ih =>
    rw [List.length_cons] at h ⊢
    rw [List.cons_append, decode_cons_eq_xor, ih (by omega), UInt64.shiftLeft_xor,
      ← UInt64.xor_assoc, ← decode_cons_eq_xor, ← shiftLeft_shiftLeft_places h]
    rfl

/-- **Reading undoes writing** of a number that fits the width. -/
theorem decode_encode {width : Nat} {w : UInt64} (h : width ≤ 8) (hw : w.toNat < 256 ^ width) :
    decode (encode width w) = w := by
  apply UInt64.toNat_inj.mp
  induction width generalizing w with
  | zero => simp at hw; simp [encode, decode, hw]
  | succ width ih =>
    have hshift : (w >>> 8).toNat = w.toNat / 256 := by
      simp [UInt64.toNat_shiftRight, Nat.shiftRight_eq_div_pow]
    have hfits : (w >>> 8).toNat < 256 ^ width := by
      rw [hshift]; rw [Nat.pow_succ] at hw; omega
    have htail := ih (by omega) hfits
    have hlen : (encode width (w >>> 8)).length = width := length_encode _ _
    rw [encode, toNat_decode_cons (by omega) (by rw [htail, hlen]; exact hfits), htail, hshift]
    simp
    omega

/-- **Writing undoes reading** of at most eight bytes. -/
theorem encode_decode {bs : List UInt8} (h : bs.length ≤ 8) : encode bs.length (decode bs) = bs := by
  induction bs with
  | nil => rfl
  | cons b bs ih =>
    have hshort : bs.length < 8 := by simp at h; omega
    have hlt : (decode bs).toNat < 256 ^ bs.length := toNat_decode_lt (by omega)
    have hcons := toNat_decode_cons (b := b) hshort hlt
    have hb := b.toNat_lt
    have hhead : (decode (b :: bs)).toUInt8 = b := by
      apply UInt8.toNat_inj.mp
      rw [UInt64.toNat_toUInt8, hcons]
      omega
    have htail : decode (b :: bs) >>> 8 = decode bs := by
      apply UInt64.toNat_inj.mp
      rw [UInt64.toNat_shiftRight, hcons]
      simp [Nat.shiftRight_eq_div_pow]
      omega
    rw [List.length_cons, encode, hhead, htail, ih (by omega)]

end ChainedSet.LittleEndian
