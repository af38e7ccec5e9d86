import ChainedSet.Murmur
import ChainedSet.Proofs.LittleEndian

/-!
# Mixing steps

A key is absorbed block by block, so what is to be shown of all keys is shown of what is shorter than
a block, and of a block with more after it (`blockInduction`).

Every step of the hash can be undone: folding is its own inverse (`fold_fold`), the multiplier has
an inverse modulo 2^64, and so a block can be found for any word that it is to be scrambled to
(`scramble_unscramble`).

One bit is not mixed at all. To flip the top bit of a word is to add 2^63 to it, and since the
multiplier is odd, the product differs by 2^63 again (`mul_multiplier_xor_topBit`). A state that
differs in its top bit therefore still does so, and only there, after any number of blocks
(`absorbAll_xor_topBit`).
-/

namespace ChainedSet.Murmur

/-! ## Blocks -/

/-- Induction on the whole blocks of a key. -/
theorem blockInduction {motive : Key → Prop} (short : ∀ tail, tail.length < 8 → motive tail)
    (block : ∀ block rest, block.length = 8 → motive rest → motive (block ++ rest)) (key : Key) :
    motive key := by
  induction hlength : key.length using Nat.strongRecOn generalizing key with
  | ind n ih =>
    rcases Nat.lt_or_ge key.length 8 with hlt | hge
    · exact short key hlt
    · have hrest : (key.drop 8).length < n := by
        rw [List.length_drop]
        omega
      rw [← List.take_append_drop 8 key]
      exact block _ _ (List.length_take_of_le hge) (ih _ hrest (key.drop 8) rfl)

/-- A block is absorbed first, and then what comes after it. -/
theorem absorbAll_append {block : List UInt8} (h : block.length = 8) (state : UInt64) (rest : Key) :
    absorbAll state (block ++ rest) = absorbAll (absorb state (LittleEndian.decode block)) rest := by
  match block, h with
  | [b0, b1, b2, b3, b4, b5, b6, b7], _ => rfl

/-- What is shorter than a block is absorbed as one number, unless it is nothing. -/
theorem absorbAll_of_lt {tail : Key} (h : tail.length < 8) (state : UInt64) :
    absorbAll state tail =
      if tail = [] then state else (state ^^^ LittleEndian.decode tail) * multiplier := by
  match tail, h with
  | [], _ => rfl
  | [_], _ => rfl
  | [_, _], _ => rfl
  | [_, _, _], _ => rfl
  | [_, _, _, _], _ => rfl
  | [_, _, _, _, _], _ => rfl
  | [_, _, _, _, _, _], _ => rfl
  | [_, _, _, _, _, _, _], _ => rfl

/-! ## Undoing a step -/

/-- Half of a word folded away twice is nothing, so folding twice changes nothing. -/
theorem fold_fold (w : UInt64) : fold (fold w) = w := by
  have hshift : w >>> 47 >>> 47 = 0 := by
    apply UInt64.toNat_inj.mp
    have hw := w.toNat_lt
    simp [UInt64.toNat_shiftRight, Nat.shiftRight_eq_div_pow]
    omega
  rw [fold, fold, UInt64.shiftRight_xor, hshift, UInt64.xor_zero, UInt64.xor_assoc,
    UInt64.xor_self, UInt64.xor_zero]

/-- The word that undoes the multiplier. -/
def inverse : UInt64 := 0x5f7a0ea7e59b19bd

theorem mul_inverse_mul_multiplier (w : UInt64) : w * inverse * multiplier = w := by
  have hunit : inverse * multiplier = 1 := by decide
  rw [UInt64.mul_assoc, hunit, UInt64.mul_one]

/-- The block that is scrambled to a given word. -/
def unscramble (w : UInt64) : UInt64 := fold (w * inverse) * inverse

theorem scramble_unscramble (w : UInt64) : scramble (unscramble w) = w := by
  rw [scramble, unscramble, mul_inverse_mul_multiplier, fold_fold, mul_inverse_mul_multiplier]

/-! ## The top bit -/

/-- The bit that no multiplication spreads. -/
def topBit : UInt64 := 0x8000000000000000

theorem xor_topBit_xor_topBit (w : UInt64) : w ^^^ topBit ^^^ topBit = w := by
  rw [UInt64.xor_assoc, UInt64.xor_self, UInt64.xor_zero]

theorem xor_topBit_ne (w : UInt64) : w ^^^ topBit ≠ w := by
  intro h
  have hzero : w ^^^ (w ^^^ topBit) = w ^^^ w := by rw [h]
  rw [← UInt64.xor_assoc, UInt64.xor_self, UInt64.zero_xor] at hzero
  exact absurd hzero (by decide)

theorem xor_topBit_of_lt {w : UInt64} (h : w.toNat < 2 ^ 63) : w ^^^ topBit = w + topBit := by
  have hxor : w.toNat ^^^ (2 ^ 63 * 1) = w.toNat + 2 ^ 63 * 1 :=
    LittleEndian.xor_two_pow_mul h 1
  apply UInt64.toNat_inj.mp
  rw [UInt64.toNat_xor, UInt64.toNat_add]
  simp [topBit] at *
  omega

/-- To flip the top bit is to add it, since a carry out of it is lost. -/
theorem xor_topBit (w : UInt64) : w ^^^ topBit = w + topBit := by
  rcases Nat.lt_or_ge w.toNat (2 ^ 63) with hlow | hhigh
  · exact xor_topBit_of_lt hlow
  · -- The word is a low one, `w + topBit`, with its top bit flipped.
    have hlow : (w + topBit).toNat < 2 ^ 63 := by
      have hw := w.toNat_lt
      rw [UInt64.toNat_add]
      simp [topBit]
      omega
    have htwice : topBit + topBit = 0 := by decide
    have hflip := xor_topBit_of_lt hlow
    rw [UInt64.add_assoc, htwice, UInt64.add_zero] at hflip
    rw [← hflip, xor_topBit_xor_topBit, hflip]

/-- **The multiplier passes the top bit on** and spreads it over no other. -/
theorem mul_multiplier_xor_topBit (w : UInt64) :
    (w ^^^ topBit) * multiplier = w * multiplier ^^^ topBit := by
  have htop : topBit * multiplier = topBit := by decide
  rw [xor_topBit, xor_topBit, UInt64.add_mul, htop]

theorem xor_topBit_right_comm (v w : UInt64) : v ^^^ topBit ^^^ w = v ^^^ w ^^^ topBit := by
  rw [UInt64.xor_assoc, UInt64.xor_comm topBit, UInt64.xor_assoc]

theorem absorb_xor_topBit (state block : UInt64) :
    absorb (state ^^^ topBit) block = absorb state block ^^^ topBit := by
  rw [absorb, xor_topBit_right_comm, mul_multiplier_xor_topBit, absorb]

/-- **A difference in the top bit survives a whole key**, and no other difference comes of it. -/
theorem absorbAll_xor_topBit (state : UInt64) (key : Key) :
    absorbAll (state ^^^ topBit) key = absorbAll state key ^^^ topBit := by
  induction key using blockInduction generalizing state with
  | short tail hshort =>
    rw [absorbAll_of_lt hshort, absorbAll_of_lt hshort]
    by_cases hnil : tail = []
    · rw [if_pos hnil, if_pos hnil]
    · rw [if_neg hnil, if_neg hnil, xor_topBit_right_comm, mul_multiplier_xor_topBit]
  | block block rest hblock ih =>
    rw [absorbAll_append hblock, absorbAll_append hblock, absorb_xor_topBit, ih]

end ChainedSet.Murmur
