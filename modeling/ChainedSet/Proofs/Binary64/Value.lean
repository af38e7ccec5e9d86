import Mathlib.Algebra.Order.Field.Power
import Mathlib.Data.Nat.Cast.Order.Field
import Mathlib.Data.Nat.Log
import Mathlib.Tactic.FieldSimp
import Mathlib.Tactic.Linarith
import Mathlib.Tactic.NormNum
import Mathlib.Tactic.Positivity
import Mathlib.Tactic.Ring
import ChainedSet.Binary64

/-!
# Binary64 numbers as rationals

The rational number that a double stands for. A rational is `Representable` when 53 binary digits
are enough for it. Comparing two doubles is comparing their rationals (`lt_iff_value_lt`). A quotient
is scaled until it has 53 digits before the point (`scaled_bounds`) and then rounded to an integer,
so it grows to at most twice its size (`value_ofQuotient_le`), which is enough to see that a result
is not too large for the format.
-/

namespace ChainedSet.Binary64

/-- The rational number that a double stands for. -/
def value (x : Binary64) : ℚ := x.mantissa * 2 ^ x.exponent

/-- A number of at most 53 binary digits, wherever its point is. -/
def Representable (q : ℚ) : Prop := ∃ m : Nat, m < 2 ^ 53 ∧ ∃ k : Int, q = m * 2 ^ k

theorem value_nonneg (x : Binary64) : 0 ≤ x.value := by
  rw [value]
  positivity

theorem value_pos_iff {x : Binary64} : 0 < x.value ↔ x.mantissa ≠ 0 := by
  have hpow : (0 : ℚ) < 2 ^ x.exponent := by positivity
  rw [value, mul_pos_iff_of_pos_right hpow, Nat.cast_pos, Nat.pos_iff_ne_zero]

/-! ## Numbers of 53 digits -/

theorem representable_div_two_pow {n : Nat} (h : n ≤ 2 ^ 53) (k : Nat) :
    Representable ((n : ℚ) / 2 ^ k) := by
  rcases Nat.lt_or_eq_of_le h with hlt | rfl
  · exact ⟨n, hlt, -k, by rw [zpow_neg, zpow_natCast, div_eq_mul_inv]⟩
  · refine ⟨1, by norm_num, 53 - k, ?_⟩
    rw [zpow_sub₀ two_ne_zero, zpow_natCast]
    norm_num

theorem representable_two_pow (k : Nat) : Representable ((2 : ℚ) ^ k) :=
  ⟨1, by norm_num, k, by simp⟩

theorem Representable.mul_zpow {q : ℚ} (h : Representable q) (k : Int) :
    Representable (q * 2 ^ k) := by
  obtain ⟨m, hm, j, rfl⟩ := h
  exact ⟨m, hm, j + k, by rw [zpow_add₀ two_ne_zero, mul_assoc]⟩

/-- With its last digit behind the point, a number of 53 digits is less than half of `2 ^ 53`. -/
theorem Representable.exists_nat_or_lt {r : ℚ} (h : Representable r) :
    (∃ n : Nat, r = n) ∨ r < 2 ^ 52 := by
  obtain ⟨n, hn, k, rfl⟩ := h
  by_cases hk : 0 ≤ k
  · obtain ⟨j, rfl⟩ := Int.eq_ofNat_of_zero_le hk
    exact .inl ⟨n * 2 ^ j, by push_cast; simp⟩
  · right
    have hn' : (n : ℚ) < 2 ^ 53 := by exact_mod_cast hn
    calc (n : ℚ) * 2 ^ k ≤ n * 2 ^ (-1 : Int) := by
          gcongr
          · norm_num
          · omega
      _ < 2 ^ 53 * 2 ^ (-1 : Int) := by gcongr
      _ = 2 ^ 52 := by norm_num

/-! ## Comparing -/

theorem value_eq_scaled {x : Binary64} {e : Int} (h : e ≤ x.exponent) :
    x.value = (x.mantissa * 2 ^ (x.exponent - e).toNat : Nat) * 2 ^ e := by
  have hsplit : (2 : ℚ) ^ x.exponent = 2 ^ (x.exponent - e).toNat * 2 ^ e := by
    rw [← zpow_natCast, ← zpow_add₀ two_ne_zero, Int.toNat_of_nonneg (by omega)]
    congr 1
    omega
  rw [value, hsplit]
  push_cast
  ring

theorem lt_iff_value_lt {x y : Binary64} : x.lt y = true ↔ x.value < y.value := by
  have hpow : (0 : ℚ) < 2 ^ min x.exponent y.exponent := by positivity
  rw [value_eq_scaled (min_le_left x.exponent y.exponent),
    value_eq_scaled (min_le_right x.exponent y.exponent), mul_lt_mul_iff_left₀ hpow, Nat.cast_lt]
  simp only [lt, Nat.shiftLeft_eq, decide_eq_true_iff]

/-! ## Rounding a quotient -/

/-- The two scaled numbers have the quotient of the given ones, with the point moved to `e`. -/
theorem scaledNum_div_scaledDen (num den : Nat) (e : Int) :
    (scaledNum num e : ℚ) / scaledDen den e = num / den * 2 ^ (-e) := by
  rcases e.eq_nat_or_neg with ⟨n, rfl | rfl⟩
  · simp [scaledNum, scaledDen, Nat.shiftLeft_eq, zpow_neg, div_eq_mul_inv, mul_inv_rev]
    ring
  · simp [scaledNum, scaledDen, Nat.shiftLeft_eq]
    ring

theorem scaledDen_pos {den : Nat} (h : den ≠ 0) (e : Int) : 0 < scaledDen den e := by
  rw [scaledDen, Nat.shiftLeft_eq]
  exact Nat.mul_pos (Nat.pos_of_ne_zero h) (Nat.two_pow_pos _)

theorem leadingOne_eq : leadingOne = 2 ^ 52 := rfl

/-- The binary lengths of two numbers tell their quotient up to a factor of four. -/
theorem quotient_bounds {num den : Nat} (hnum : num ≠ 0) (hden : den ≠ 0) :
    (2 : ℚ) ^ ((num.log2 : Int) - den.log2 - 1) ≤ num / den ∧
      (num : ℚ) / den < 2 ^ ((num.log2 : Int) - den.log2 + 1) := by
  have hnum₁ : (2 : ℚ) ^ (num.log2 : Int) ≤ num := by exact_mod_cast Nat.log2_self_le hnum
  have hnum₂ : (num : ℚ) < 2 ^ (num.log2 + 1 : Int) := by exact_mod_cast Nat.lt_log2_self
  have hden₁ : (2 : ℚ) ^ (den.log2 : Int) ≤ den := by exact_mod_cast Nat.log2_self_le hden
  have hden₂ : (den : ℚ) < 2 ^ (den.log2 + 1 : Int) := by exact_mod_cast Nat.lt_log2_self
  have hpos : (0 : ℚ) < den := by exact_mod_cast Nat.pos_of_ne_zero hden
  constructor
  · rw [le_div_iff₀ hpos]
    calc (2 : ℚ) ^ ((num.log2 : Int) - den.log2 - 1) * den
        ≤ 2 ^ ((num.log2 : Int) - den.log2 - 1) * 2 ^ (den.log2 + 1 : Int) := by gcongr
      _ = 2 ^ (num.log2 : Int) := by rw [← zpow_add₀ two_ne_zero]; congr 1; ring
      _ ≤ num := hnum₁
  · rw [div_lt_iff₀ hpos]
    calc (num : ℚ) < 2 ^ (num.log2 + 1 : Int) := hnum₂
      _ = 2 ^ ((num.log2 : Int) - den.log2 + 1) * 2 ^ (den.log2 : Int) := by
          rw [← zpow_add₀ two_ne_zero]; congr 1; ring
      _ ≤ 2 ^ ((num.log2 : Int) - den.log2 + 1) * den := by gcongr

/-- At its own exponent a quotient has 53 digits before the point. -/
theorem scaled_bounds {num den : Nat} (hnum : num ≠ 0) (hden : den ≠ 0) :
    (2 : ℚ) ^ 52 ≤ num / den * 2 ^ (-quotientExponent num den) ∧
      (num : ℚ) / den * 2 ^ (-quotientExponent num den) < 2 ^ 53 := by
  obtain ⟨hlo, hhi⟩ := quotient_bounds hnum hden
  have hscale : ∀ e : Int, (num : ℚ) / den * 2 ^ (-e) < 2 ^ 52 ↔
      scaledNum num e < leadingOne * scaledDen den e := by
    intro e
    have hpos : (0 : ℚ) < scaledDen den e := by exact_mod_cast scaledDen_pos hden e
    rw [← scaledNum_div_scaledDen, div_lt_iff₀ hpos, leadingOne_eq]
    exact_mod_cast Iff.rfl
  have hmul : ∀ a b : Int, (2 : ℚ) ^ a * 2 ^ b = 2 ^ (a + b) := fun a b =>
    (zpow_add₀ two_ne_zero a b).symm
  simp only [quotientExponent]
  split
  · next hlow =>
    -- The first guess was one too high.
    rw [← hscale] at hlow
    constructor
    · calc (2 : ℚ) ^ 52 = 2 ^ ((num.log2 : Int) - den.log2 - 1) *
            2 ^ (-((num.log2 : Int) - den.log2 - 52 - 1)) := by
            rw [hmul, ← zpow_natCast]; congr 1; push_cast; ring
        _ ≤ _ := by gcongr
    · have hstep : (2 : ℚ) ^ (-((num.log2 : Int) - den.log2 - 52 - 1)) =
          2 ^ (-((num.log2 : Int) - den.log2 - 52)) * 2 := by
        rw [← zpow_add_one₀ two_ne_zero]; congr 1; ring
      rw [hstep]
      linarith
  · next hhigh =>
    rw [← hscale, not_lt] at hhigh
    refine ⟨hhigh, ?_⟩
    calc (num : ℚ) / den * 2 ^ (-((num.log2 : Int) - den.log2 - 52))
        < 2 ^ ((num.log2 : Int) - den.log2 + 1) * 2 ^ (-((num.log2 : Int) - den.log2 - 52)) := by
          gcongr
      _ = 2 ^ 53 := by rw [hmul, ← zpow_natCast]; congr 1; push_cast; ring

/-! ## Moving the point -/

@[simp] theorem value_shift (x : Binary64) (k : Int) : (x.shift k).value = x.value * 2 ^ k := by
  simp only [value, shift]
  rw [zpow_add₀ two_ne_zero, mul_assoc]

/-- A quotient is that of the mantissas, with the point moved. -/
theorem value_div_value (x y : Binary64) :
    x.value / y.value = (x.mantissa : ℚ) / y.mantissa * 2 ^ (x.exponent - y.exponent) := by
  rw [value, value, zpow_sub₀ two_ne_zero]
  field_simp

/-! ## The size of a result -/

theorem roundHalfEven_le (num den : Nat) : roundHalfEven num den ≤ num / den + 1 := by
  unfold roundHalfEven
  grind

/-- Rounding at most doubles a number, as there is a digit before the point. -/
theorem value_ofQuotient_le {num den : Nat} (hden : den ≠ 0) :
    (ofQuotient num den).value ≤ 2 * (num / den) := by
  rw [ofQuotient]
  split
  · next hnum => simp [value, hnum]
  · next hnum =>
    obtain ⟨hlo, -⟩ := scaled_bounds hnum hden
    generalize quotientExponent num den = e at hlo
    have hpow : (0 : ℚ) < 2 ^ e := by positivity
    have hfloor : ((scaledNum num e / scaledDen den e : Nat) : ℚ) ≤ num / den * 2 ^ (-e) := by
      rw [← scaledNum_div_scaledDen]
      exact Nat.cast_div_le
    have hround : (roundHalfEven (scaledNum num e) (scaledDen den e) : ℚ) ≤
        (scaledNum num e / scaledDen den e : Nat) + 1 := by
      exact_mod_cast roundHalfEven_le _ _
    show (roundHalfEven (scaledNum num e) (scaledDen den e) : ℚ) * 2 ^ e ≤ 2 * (num / den)
    calc (roundHalfEven (scaledNum num e) (scaledDen den e) : ℚ) * 2 ^ e
        ≤ 2 * (num / den * 2 ^ (-e)) * 2 ^ e := by
          apply mul_le_mul_of_nonneg_right _ hpow.le
          linarith
      _ = 2 * (num / den) := by
          rw [zpow_neg]
          field_simp

theorem value_ofNat_le (n : Nat) : (ofNat n).value ≤ 2 * n := by
  have h : (ofNat n).value ≤ 2 * (n / (1 : Nat)) := value_ofQuotient_le one_ne_zero
  rwa [Nat.cast_one, div_one] at h

theorem value_mul_le (x y : Binary64) : (x.mul y).value ≤ 2 * (x.value * y.value) := by
  have hsplit : x.value * y.value =
      (x.mantissa * y.mantissa : Nat) * 2 ^ (x.exponent + y.exponent) := by
    rw [value, value, zpow_add₀ two_ne_zero]
    push_cast
    ring
  rw [mul, value_shift, hsplit, ← mul_assoc]
  apply mul_le_mul_of_nonneg_right (value_ofNat_le _)
  positivity

theorem isFinite_iff {x : Binary64} : x.isFinite = true ↔ x.value < 2 ^ 1024 := by
  rw [isFinite, lt_iff_value_lt]
  simp [value]

end ChainedSet.Binary64
