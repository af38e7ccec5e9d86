import Mathlib.Algebra.Order.Group.Abs
import Mathlib.Tactic.Linarith
import ChainedSet.Proofs.Binary64.Value

/-!
# Rounding to the nearest double

What it means that a double is the one that a rational number is rounded to, said without any
algorithm: no number of 53 binary digits is nearer to the rational, and if another one is as near,
the mantissa is even (`IsRounding`). The operations round in this sense (`isRounding_ofQuotient`,
`isRounding_ofNat`, `isRounding_div`).

A rational is rounded to one number only, and the greater of two rationals is never rounded to the
smaller number; both are `IsRounding.value_le`. Were it otherwise, the two results would be equally
far from one rational, so both would have an even mantissa; but then there is a third number between
them (`exists_representable_between`), and it is nearer than either.

A number of 53 digits is rounded to itself (`IsRounding.value_eq`), so natural numbers up to
`2 ^ 53` and quotients by powers of two are exact.
-/

namespace ChainedSet.Binary64

/-! ## Normal numbers -/

/-- Zero, or a mantissa of 53 digits, where `2 ^ 53` may stand for `2 ^ 52` at the next exponent. -/
def IsNormal (x : Binary64) : Prop := x.mantissa = 0 ∨ 2 ^ 52 ≤ x.mantissa ∧ x.mantissa ≤ 2 ^ 53

/-- The other name of a mantissa of `2 ^ 53`. -/
theorem two_pow_mul_zpow (e : Int) : (2 : ℚ) ^ 53 * 2 ^ e = 2 ^ 52 * 2 ^ (e + 1) := by
  rw [zpow_add_one₀ two_ne_zero]
  ring

/-- A normal number other than zero has a mantissa below `2 ^ 53`, which is even if the given one
is. -/
theorem IsNormal.exists_mantissa_lt {x : Binary64} (h : x.IsNormal) (hx : x.mantissa ≠ 0) :
    ∃ (m : Nat) (e : Int), x.value = m * 2 ^ e ∧ 2 ^ 52 ≤ m ∧ m < 2 ^ 53 ∧
      (Even x.mantissa → Even m) := by
  obtain ⟨hlo, hhi⟩ := h.resolve_left hx
  rcases Nat.lt_or_eq_of_le hhi with hlt | heq
  · exact ⟨x.mantissa, x.exponent, rfl, hlo, hlt, id⟩
  · refine ⟨2 ^ 52, x.exponent + 1, ?_, Nat.le_refl _, by decide, fun _ => by decide⟩
    rw [value, heq]
    push_cast
    exact two_pow_mul_zpow _

theorem IsNormal.representable {x : Binary64} (h : x.IsNormal) : Representable x.value := by
  by_cases hx : x.mantissa = 0
  · exact ⟨0, by decide, 0, by simp [value, hx]⟩
  · obtain ⟨m, e, hvalue, -, hm, -⟩ := h.exists_mantissa_lt hx
    exact ⟨m, hm, e, hvalue⟩

/-- The greater of two normal numbers has no smaller exponent, unless the smaller one is zero or its
mantissa is `2 ^ 53`. -/
theorem IsNormal.exponent_le_of_lt {m : Nat} {e : Int} (hm : 2 ^ 52 ≤ m) {y : Binary64}
    (hy : y.IsNormal) (h : (m : ℚ) * 2 ^ e < y.value) : e ≤ y.exponent := by
  by_contra hlt
  have hb : (y.mantissa : ℚ) ≤ 2 ^ 53 := by
    rcases hy with h0 | ⟨-, hle⟩
    · simp [h0]
    · exact_mod_cast hle
  have hm' : (2 : ℚ) ^ 52 ≤ m := by exact_mod_cast hm
  have hpow : (2 : ℚ) ^ (y.exponent + 1) ≤ 2 ^ e :=
    zpow_le_zpow_right₀ (by norm_num) (by omega)
  have hle : y.value ≤ m * 2 ^ e :=
    calc y.value ≤ 2 ^ 53 * 2 ^ y.exponent := by rw [value]; gcongr
      _ = 2 ^ 52 * 2 ^ (y.exponent + 1) := two_pow_mul_zpow _
      _ ≤ m * 2 ^ e := by gcongr
  exact absurd h (not_lt.mpr hle)

/-- Between two even multiples of one power of two there is an odd one. -/
theorem exists_representable_between_even {m n : Nat} (e : Int) (hm : m < 2 ^ 53) (hmeven : Even m)
    (hneven : Even n) (h : (m : ℚ) * 2 ^ e < n * 2 ^ e) :
    ∃ r, Representable r ∧ (m : ℚ) * 2 ^ e < r ∧ r < n * 2 ^ e := by
  have hpow : (0 : ℚ) < 2 ^ e := by positivity
  rw [mul_lt_mul_iff_left₀ hpow, Nat.cast_lt] at h
  obtain ⟨a, rfl⟩ := hmeven
  obtain ⟨b, rfl⟩ := hneven
  refine ⟨(a + a + 1 : Nat) * 2 ^ e, ⟨a + a + 1, by omega, e, rfl⟩, ?_, ?_⟩
  · rw [mul_lt_mul_iff_left₀ hpow, Nat.cast_lt]
    omega
  · rw [mul_lt_mul_iff_left₀ hpow, Nat.cast_lt]
    omega

/-- **Between two numbers with even mantissas there is a third.** -/
theorem exists_representable_between {x y : Binary64} (hx : x.IsNormal) (hy : y.IsNormal)
    (hxeven : Even x.mantissa) (hyeven : Even y.mantissa) (h : x.value < y.value) :
    ∃ r, Representable r ∧ x.value < r ∧ r < y.value := by
  by_cases hzero : x.mantissa = 0
  · have hx0 : x.value = 0 := by simp [value, hzero]
    rw [hx0] at h ⊢
    have hhalf := hy.representable.mul_zpow (-1)
    rw [zpow_neg_one, ← div_eq_mul_inv] at hhalf
    exact ⟨_, hhalf, half_pos h, half_lt_self h⟩
  · -- Brought to the exponent of `x`, the mantissa of `y` is still even.
    obtain ⟨m, e, hvalue, hlo, hhi, heven⟩ := hx.exists_mantissa_lt hzero
    rw [hvalue] at h ⊢
    have hexp : e ≤ y.exponent := hy.exponent_le_of_lt hlo h
    rw [value_eq_scaled hexp] at h ⊢
    exact exists_representable_between_even e hhi (heven hxeven) (hyeven.mul_right _) h

/-! ## Rounding -/

/-- `x` is the double that `q` is rounded to: no number of 53 digits is nearer to `q`, and if
another one is as near then the mantissa of `x` is even. -/
structure IsRounding (q : ℚ) (x : Binary64) : Prop where
  normal : x.IsNormal
  nearest : ∀ r, Representable r → |q - x.value| ≤ |q - r|
  even : ∀ r, Representable r → r ≠ x.value → |q - r| = |q - x.value| → Even x.mantissa

namespace IsRounding

variable {q r : ℚ} {x y : Binary64}

/-- **Rounding is monotone.** In particular, a rational is rounded to one number only. -/
theorem value_le (hx : IsRounding q x) (hy : IsRounding r y) (h : q ≤ r) : x.value ≤ y.value := by
  by_contra hlt
  rw [not_le] at hlt
  have hq := hx.nearest _ hy.normal.representable
  have hr := hy.nearest _ hx.normal.representable
  -- `q` is in the upper half between the two results and `r` is in the lower one.
  have hqmid : x.value + y.value ≤ 2 * q := by
    by_contra hlow
    grind
  have hrmid : 2 * r ≤ x.value + y.value := by
    by_contra hhigh
    grind
  obtain rfl : q = r := by linarith
  have hmid : 2 * q = x.value + y.value := by linarith
  have htie : |q - y.value| = |q - x.value| := by
    rw [abs_of_nonneg (by linarith), abs_of_nonpos (by linarith)]
    linarith
  obtain ⟨z, hz, hyz, hzx⟩ := exists_representable_between hy.normal hx.normal
    (hy.even _ hx.normal.representable hlt.ne' htie.symm)
    (hx.even _ hy.normal.representable hlt.ne htie) hlt
  have hnear := hx.nearest z hz
  grind

theorem value_unique (hx : IsRounding q x) (hy : IsRounding q y) : x.value = y.value :=
  le_antisymm (hx.value_le hy le_rfl) (hy.value_le hx le_rfl)

/-- **Rounding leaves a representable number alone.** -/
theorem value_eq (h : IsRounding q x) (hq : Representable q) : x.value = q := by
  have hzero := h.nearest q hq
  rw [sub_self, abs_zero, abs_nonpos_iff] at hzero
  exact (sub_eq_zero.mp hzero).symm

/-- Moving the point does not change what a number is rounded to. -/
theorem shift (h : IsRounding q x) (k : Int) : IsRounding (q * 2 ^ k) (x.shift k) := by
  have hpow : (0 : ℚ) < 2 ^ k := by positivity
  have hscale : ∀ a b : ℚ, |a * 2 ^ k - b * 2 ^ k| = |a - b| * 2 ^ k := fun a b => by
    rw [← sub_mul, abs_mul, abs_of_pos hpow]
  -- Every number of 53 digits is another one with the point moved.
  have hmoved : ∀ r, Representable r → ∃ r', Representable r' ∧ r = r' * 2 ^ k := fun r hr =>
    ⟨r * 2 ^ (-k), hr.mul_zpow _, by rw [mul_assoc, ← zpow_add₀ two_ne_zero]; simp⟩
  refine ⟨h.normal, ?_, ?_⟩
  · intro r hr
    obtain ⟨r, hr', rfl⟩ := hmoved r hr
    rw [value_shift, hscale, hscale, mul_le_mul_iff_left₀ hpow]
    exact h.nearest r hr'
  · intro r hr hne htie
    obtain ⟨r, hr', rfl⟩ := hmoved r hr
    rw [value_shift] at hne htie
    rw [hscale, hscale, mul_left_inj' hpow.ne'] at htie
    exact h.even r hr' (fun heq => hne (by rw [heq])) htie

end IsRounding

/-! ## Rounding a quotient -/

/-- The nearest integer is half of the denominator away at most, and it is even if it is as far. -/
theorem roundHalfEven_bounds (num : Nat) {den : Nat} (h : 0 < den) :
    2 * num ≤ (2 * roundHalfEven num den + 1) * den ∧
      2 * roundHalfEven num den * den ≤ 2 * num + den ∧
      (2 * num = (2 * roundHalfEven num den + 1) * den ∨
        2 * roundHalfEven num den * den = 2 * num + den → Even (roundHalfEven num den)) := by
  have hsplit := Nat.div_add_mod num den
  have hrest := Nat.mod_lt num h
  simp only [roundHalfEven, Nat.even_iff]
  generalize num / den = whole at hsplit
  generalize num % den = rest at hsplit hrest
  subst hsplit
  split <;>
  · simp only [Nat.add_mul, Nat.mul_add, Nat.one_mul, Nat.mul_one, Nat.mul_assoc,
      Nat.mul_comm whole den]
    generalize den * whole = part
    omega

theorem abs_sub_roundHalfEven_le (num : Nat) {den : Nat} (h : 0 < den) :
    |(num : ℚ) / den - roundHalfEven num den| ≤ 1 / 2 ∧
      (|(num : ℚ) / den - roundHalfEven num den| = 1 / 2 → Even (roundHalfEven num den)) := by
  obtain ⟨hhi, hlo, heven⟩ := roundHalfEven_bounds num h
  generalize roundHalfEven num den = m at hhi hlo heven
  have hpos : (0 : ℚ) < den := by exact_mod_cast h
  have hhi' : (2 : ℚ) * num ≤ (2 * m + 1) * den := by exact_mod_cast hhi
  have hlo' : (2 : ℚ) * m * den ≤ 2 * num + den := by exact_mod_cast hlo
  constructor
  · rw [abs_le, le_sub_iff_add_le, sub_le_iff_le_add, le_div_iff₀ hpos, div_le_iff₀ hpos]
    constructor <;> linarith
  · intro htie
    apply heven
    rcases (abs_eq (by norm_num)).mp htie with hup | hdown
    · left
      rw [sub_eq_iff_eq_add, div_eq_iff hpos.ne'] at hup
      have : (2 : ℚ) * num = (2 * m + 1) * den := by linarith
      exact_mod_cast this
    · right
      rw [sub_eq_iff_eq_add, div_eq_iff hpos.ne'] at hdown
      have : (2 : ℚ) * m * den = 2 * num + den := by linarith
      exact_mod_cast this

/-- From an integer at most one half away, any other integer is at least as far. -/
theorem abs_sub_le_of_abs_sub_le_half {s : ℚ} {m n : Nat} (h : |s - m| ≤ 1 / 2) (hne : n ≠ m) :
    1 / 2 ≤ |s - n| := by
  have hgap : (1 : ℚ) ≤ |(n : ℚ) - m| := by
    have : (1 : Int) ≤ |(n : Int) - m| := Int.one_le_abs (by omega)
    exact_mod_cast this
  have htriangle : |(n : ℚ) - m| ≤ |s - n| + |s - m| := by
    rw [abs_sub_comm s n]
    exact abs_sub_le _ _ _
  linarith

/-- No integer is nearer than one that is at most one half away. -/
theorem abs_sub_le_abs_sub_nat {s : ℚ} {m : Nat} (h : |s - m| ≤ 1 / 2) (n : Nat) :
    |s - m| ≤ |s - n| := by
  by_cases hne : n = m
  · rw [hne]
  · exact h.trans (abs_sub_le_of_abs_sub_le_half h hne)

/-- What is below `2 ^ 52` is further from a number above than `2 ^ 52` itself, which is an
integer. -/
theorem abs_sub_lt_abs_sub_of_lt {s r : ℚ} {m : Nat} (hlo : 2 ^ 52 ≤ s) (h : |s - m| ≤ 1 / 2)
    (hr : r < 2 ^ 52) : |s - m| < |s - r| := by
  have hbound : |s - m| ≤ |s - 2 ^ 52| := by exact_mod_cast abs_sub_le_abs_sub_nat h (2 ^ 52)
  rw [abs_of_nonneg (show 0 ≤ s - 2 ^ 52 by linarith)] at hbound
  rw [abs_of_nonneg (show 0 ≤ s - r by linarith)]
  linarith

/-- The nearest integer of a number with 53 digits before the point has 53 digits, or is
`2 ^ 53`. -/
theorem mantissa_bounds_of_abs_sub_le_half {s : ℚ} {m : Nat} (hlo : 2 ^ 52 ≤ s) (hhi : s < 2 ^ 53)
    (h : |s - m| ≤ 1 / 2) : 2 ^ 52 ≤ m ∧ m ≤ 2 ^ 53 := by
  obtain ⟨hup, hdown⟩ := abs_le.mp h
  have hm : (2 : ℚ) ^ 53 ≤ 2 * m + 1 := by linarith
  have hm' : (2 : ℚ) * m < 2 ^ 54 + 1 := by linarith
  have hleast : 2 ^ 53 ≤ 2 * m + 1 := by exact_mod_cast hm
  have hmost : 2 * m < 2 ^ 54 + 1 := by exact_mod_cast hm'
  omega

/-- At 53 digits before the point, rounding to an integer is rounding to a double: a number of 53
digits that is no integer is below `2 ^ 52`. -/
theorem isRounding_of_abs_sub_le_half {s : ℚ} {m : Nat} (hlo : 2 ^ 52 ≤ s) (hhi : s < 2 ^ 53)
    (hnear : |s - m| ≤ 1 / 2) (heven : |s - m| = 1 / 2 → Even m) : IsRounding s ⟨m, 0⟩ := by
  have hvalue : value ⟨m, 0⟩ = m := by simp [value]
  refine ⟨.inr (mantissa_bounds_of_abs_sub_le_half hlo hhi hnear), ?_, ?_⟩
  · intro r hr
    rw [hvalue]
    rcases hr.exists_nat_or_lt with ⟨n, rfl⟩ | hlt
    · exact abs_sub_le_abs_sub_nat hnear n
    · exact (abs_sub_lt_abs_sub_of_lt hlo hnear hlt).le
  · intro r hr hne htie
    rw [hvalue] at hne htie
    rcases hr.exists_nat_or_lt with ⟨n, rfl⟩ | hlt
    · have hfar := abs_sub_le_of_abs_sub_le_half hnear (n := n) (fun h => hne (by rw [h]))
      exact heven (by linarith)
    · exact absurd htie (abs_sub_lt_abs_sub_of_lt hlo hnear hlt).ne'

theorem isRounding_zero : IsRounding 0 ⟨0, 0⟩ where
  normal := .inl rfl
  nearest := by simp [value]
  even := fun _ _ _ _ => ⟨0, rfl⟩

/-- **A quotient is rounded** to the nearest double, ties to even. -/
theorem isRounding_ofQuotient (num : Nat) {den : Nat} (hden : den ≠ 0) :
    IsRounding (num / den) (ofQuotient num den) := by
  rw [ofQuotient]
  split
  · next hnum =>
    rw [hnum, Nat.cast_zero, zero_div]
    exact isRounding_zero
  · next hnum =>
    obtain ⟨hlo, hhi⟩ := scaled_bounds hnum hden
    generalize quotientExponent num den = e at hlo hhi
    rw [← scaledNum_div_scaledDen] at hlo hhi
    obtain ⟨hnear, heven⟩ := abs_sub_roundHalfEven_le (scaledNum num e) (scaledDen_pos hden e)
    have hround := (isRounding_of_abs_sub_le_half hlo hhi hnear heven).shift e
    rw [scaledNum_div_scaledDen, mul_assoc, ← zpow_add₀ two_ne_zero] at hround
    simpa [Binary64.shift] using hround

/-! ## Rounded operations -/

/-- **A natural number is rounded** when it is made a double. -/
theorem isRounding_ofNat (n : Nat) : IsRounding n (ofNat n) := by
  have h : IsRounding (n / (1 : Nat)) (ofNat n) := isRounding_ofQuotient n one_ne_zero
  rwa [Nat.cast_one, div_one] at h

/-- **A division is rounded** once. -/
theorem isRounding_div (x : Binary64) {y : Binary64} (hy : y.mantissa ≠ 0) :
    IsRounding (x.value / y.value) (x.div y) := by
  rw [value_div_value]
  exact (isRounding_ofQuotient x.mantissa hy).shift _

/-! ## Exact operations -/

theorem value_ofNat {n : Nat} (h : Representable n) : (ofNat n).value = n :=
  (isRounding_ofNat n).value_eq h

/-- A representable quotient is computed exactly. -/
theorem value_div {x y : Binary64} (hy : y.mantissa ≠ 0) (h : Representable (x.value / y.value)) :
    (x.div y).value = x.value / y.value :=
  (isRounding_div x hy).value_eq h

end ChainedSet.Binary64
