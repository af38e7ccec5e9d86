import Mathlib.Data.Nat.Prime.Basic
import ChainedSet.Capacity
import ChainedSet.Proofs.Binary64.Rounding

/-!
# The load factor in integers

A capacity is a power of two, so up to `2 ^ 53` elements the load factor is computed without any
rounding. The threshold is not 7/10: it is the double nearest to it, which is a little lower
(`value_loadThreshold`). No load factor falls between the two, so to be overloaded is to have more
than seven elements for every ten buckets (`overloads_iff`).
-/

namespace ChainedSet.Capacity

open Binary64

/-! ## Regular capacities -/

/-- A capacity that doubling the initial one can reach. -/
def Regular (capacity : Nat) : Prop := ∃ k, capacity = initialCapacity * 2 ^ k

/-- `isRegular` decides `Regular`. -/
theorem isRegular_iff {capacity : Nat} : isRegular capacity = true ↔ Regular capacity := by
  simp only [isRegular, Bool.and_eq_true, decide_eq_true_eq, beq_iff_eq]
  constructor
  · rintro ⟨⟨-, hmod⟩, k, hquotient⟩
    exact ⟨k, by rw [← hquotient, Nat.mul_div_cancel' (Nat.dvd_of_mod_eq_zero hmod)]⟩
  · rintro ⟨k, rfl⟩
    exact ⟨⟨Nat.le_mul_of_pos_right _ (Nat.two_pow_pos k), Nat.mul_mod_right _ _⟩, k,
      Nat.mul_div_cancel_left _ (by decide)⟩

/-- The three tests come to one: only the power whose exponent is the binary logarithm of the
quotient can do. -/
theorem isRegular_eq_shiftLeft_log2 (capacity : Nat) :
    isRegular capacity = (initialCapacity <<< (capacity / initialCapacity).log2 == capacity) := by
  rw [Bool.eq_iff_iff, isRegular_iff, beq_iff_eq, Nat.shiftLeft_eq]
  constructor
  · rintro ⟨k, rfl⟩
    rw [Nat.mul_div_cancel_left _ (by decide), Nat.log2_two_pow]
  · intro h
    exact ⟨_, h.symm⟩

theorem regular_initialCapacity : Regular initialCapacity := ⟨0, rfl⟩

theorem Regular.double {capacity : Nat} (h : Regular capacity) : Regular (2 * capacity) := by
  obtain ⟨k, rfl⟩ := h
  exact ⟨k + 1, by rw [Nat.pow_succ]; ring⟩

theorem Regular.initialCapacity_le {capacity : Nat} (h : Regular capacity) :
    initialCapacity ≤ capacity := by
  obtain ⟨k, rfl⟩ := h
  exact Nat.le_mul_of_pos_right _ (Nat.two_pow_pos k)

theorem Regular.pos {capacity : Nat} (h : Regular capacity) : 0 < capacity :=
  Nat.lt_of_lt_of_le (by decide) h.initialCapacity_le

theorem Regular.exists_two_pow {capacity : Nat} (h : Regular capacity) :
    ∃ k, 5 ≤ k ∧ capacity = 2 ^ k := by
  obtain ⟨k, rfl⟩ := h
  exact ⟨k + 5, by omega, by rw [initialCapacity, Nat.pow_add]; ring⟩

/-! ## The load factor -/

/-- The threshold is below 7/10 by two fifths of a unit in the last of its 53 digits. -/
theorem value_loadThreshold : loadThreshold.value = 6305039478318694 / 2 ^ 53 := by
  have h : loadThreshold = ⟨6305039478318694, -53⟩ := by decide
  rw [h, value, zpow_neg, div_eq_mul_inv]
  norm_num

/-- The double of a capacity is the capacity. -/
theorem value_ofNat_of_regular {capacity : Nat} (h : Regular capacity) :
    (ofNat capacity).value = capacity := by
  obtain ⟨k, -, rfl⟩ := h.exists_two_pow
  exact value_ofNat (by exact_mod_cast representable_two_pow k)

theorem mantissa_ofNat_ne_zero {capacity : Nat} (h : Regular capacity) :
    (ofNat capacity).mantissa ≠ 0 := by
  rw [← value_pos_iff, value_ofNat_of_regular h]
  exact_mod_cast h.pos

/-- The load factor of up to `2 ^ 53` elements is exact. -/
theorem value_loadFactor {size capacity : Nat} (hcap : Regular capacity) (hsize : size ≤ 2 ^ 53) :
    (loadFactor size capacity).value = size / capacity := by
  have hvsize : (ofNat size).value = size :=
    value_ofNat (by simpa using representable_div_two_pow hsize 0)
  have hvcap := value_ofNat_of_regular hcap
  rw [loadFactor, value_div (mantissa_ofNat_ne_zero hcap), hvsize, hvcap]
  rw [hvsize, hvcap]
  obtain ⟨k, -, rfl⟩ := hcap.exists_two_pow
  exact_mod_cast representable_div_two_pow hsize k

/-- More than seven elements for every ten buckets are also more than the threshold allows, which
is `(7 * 2 ^ 53 - 4) / 10` elements for every `2 ^ 53` buckets, and the other way round. -/
theorem threshold_mul_lt_iff {size k : Nat} (hsize : size ≤ 2 ^ 53) (hk : 5 ≤ k) :
    6305039478318694 * 2 ^ k < size * 2 ^ 53 ↔ 7 * 2 ^ k < 10 * size := by
  constructor
  · intro hlt
    by_contra hle
    have hfive : 2 ^ k % 5 ≠ 0 := by
      intro h
      have := Nat.Prime.dvd_of_dvd_pow Nat.prime_five (Nat.dvd_of_mod_eq_zero h)
      omega
    have heven : 2 ^ k % 2 = 0 := by
      obtain ⟨j, rfl⟩ : ∃ j, k = j + 1 := ⟨k - 1, by omega⟩
      rw [Nat.pow_succ]
      omega
    -- Both sides are even and they differ, so the threshold has two tenths to fall into.
    have hgap : 10 * size + 2 ≤ 7 * 2 ^ k := by
      have hne : 10 * size ≠ 7 * 2 ^ k := by
        intro h
        exact hfive (by omega)
      omega
    -- That is too much up to `2 ^ 52` buckets; from `2 ^ 54` on there are too few elements.
    rcases Nat.lt_trichotomy k 53 with hk' | rfl | hk'
    · have : 2 ^ k ≤ 2 ^ 52 := Nat.pow_le_pow_right (by decide) (by omega)
      omega
    · omega
    · have : 2 ^ 54 ≤ 2 ^ k := Nat.pow_le_pow_right (by decide) (by omega)
      omega
  · omega

/-- **The load test is exact.** Up to `2 ^ 53` elements, comparing doubles comes to the same as
comparing integers. -/
theorem overloads_iff {size capacity : Nat} (hcap : Regular capacity) (hsize : size ≤ 2 ^ 53) :
    overloads size capacity = true ↔ 7 * capacity < 10 * size := by
  rw [overloads, lt_iff_value_lt, value_loadFactor hcap hsize, value_loadThreshold]
  obtain ⟨k, hk, rfl⟩ := hcap.exists_two_pow
  rw [← threshold_mul_lt_iff hsize hk, div_lt_div_iff₀ (by positivity) (by positivity)]
  exact_mod_cast Iff.rfl

theorem overloads_eq_false_iff {size capacity : Nat} (hcap : Regular capacity)
    (hsize : size ≤ 2 ^ 53) : overloads size capacity = false ↔ 10 * size ≤ 7 * capacity := by
  rw [← Bool.not_eq_true, overloads_iff hcap hsize, Nat.not_lt]

end ChainedSet.Capacity
