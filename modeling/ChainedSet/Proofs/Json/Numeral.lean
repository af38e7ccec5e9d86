import ChainedSet.Json.Numeral
import ChainedSet.Proofs.Binary64.Rounding

/-!
# Numerals are read as they are written

A numeral that keeps to the grammar (`WellFormed`) is read back from its text, unless what follows
could be part of it (`scan?_text_append`). The numeral of a natural number keeps to the grammar,
and below 2^64 it is the word of this number (`word?_ofNat`): no double has a part in that. One is
asked only whether the number is too large for it, which it is not (`fits_ofNat`).
-/

namespace ChainedSet.Json.Numeral

/-! ## The grammar -/

/-- A numeral that can be written down. -/
structure WellFormed (n : Numeral) : Prop where
  isWhole : isWhole n.digits = true
  digits : ∀ c ∈ n.digits, c.isDigit = true
  fraction : ∀ c ∈ n.fraction, c.isDigit = true
  exponent : ∀ e ∈ n.exponent, e.2 ≠ [] ∧ ∀ c ∈ e.2, c.isDigit = true

/-- The end of the digits: none follows. -/
def EndsDigits (rest : List Char) : Prop := ∀ c ∈ rest.head?, c.isDigit = false

/-- The end of a numeral: nothing follows that would prolong it. -/
def Ends (rest : List Char) : Prop :=
  ∀ c ∈ rest.head?, c.isDigit = false ∧ c ≠ '.' ∧ c ≠ 'e' ∧ c ≠ 'E'

theorem ends_nil : Ends [] := by
  intro c hc
  cases hc

/-! ## Digits -/

variable {ds rest : List Char}

theorem leading_of_endsDigits (h : EndsDigits rest) : leading rest = [] := by
  cases rest with
  | nil => rfl
  | cons c cs => simp [leading, h c rfl]

theorem afterLeading_of_endsDigits (h : EndsDigits rest) : afterLeading rest = rest := by
  cases rest with
  | nil => rfl
  | cons c cs => simp [afterLeading, h c rfl]

theorem leading_append (hds : ∀ c ∈ ds, c.isDigit = true) (hrest : EndsDigits rest) :
    leading (ds ++ rest) = ds := by
  have hnone := leading_of_endsDigits hrest
  rw [leading] at hnone ⊢
  rw [List.takeWhile_append_of_pos hds, hnone, List.append_nil]

theorem afterLeading_append (hds : ∀ c ∈ ds, c.isDigit = true) (hrest : EndsDigits rest) :
    afterLeading (ds ++ rest) = rest := by
  rw [afterLeading, List.dropWhile_append_of_pos hds]
  exact afterLeading_of_endsDigits hrest

/-! ## The parts of a numeral -/

/-- A fraction as it is written. -/
def fractionText (ds : List Char) : List Char := if ds.isEmpty then [] else '.' :: ds

/-- An exponent as it is written. -/
def exponentText : Option (Bool × List Char) → List Char
  | none => []
  | some (negative, digits) => 'e' :: (if negative then ['-'] else []) ++ digits

theorem text_append (n : Numeral) (rest : List Char) :
    n.text ++ rest = (if n.negative then ['-'] else []) ++
      (n.digits ++ (fractionText n.fraction ++ (exponentText n.exponent ++ rest))) := by
  obtain ⟨negative, digits, fraction, exponent⟩ := n
  cases exponent <;> simp [text, fractionText, exponentText]

theorem sign_append (negative : Bool) (h : ∀ c ∈ rest.head?, c ≠ '-') :
    sign ((if negative then ['-'] else []) ++ rest) = (negative, rest) := by
  cases negative with
  | true => rfl
  | false =>
    show sign rest = (false, rest)
    unfold sign
    split
    · exact absurd rfl (h _ rfl)
    · rfl

theorem fraction?_append (hds : ∀ c ∈ ds, c.isDigit = true) (hrest : EndsDigits rest)
    (hpoint : ∀ c ∈ rest.head?, c ≠ '.') :
    fraction? (fractionText ds ++ rest) = some (ds, rest) := by
  cases ds with
  | nil =>
    show fraction? rest = some ([], rest)
    unfold fraction?
    split
    · exact absurd rfl (hpoint _ rfl)
    · rfl
  | cons d ds =>
    show fraction? ('.' :: (d :: ds ++ rest)) = some (d :: ds, rest)
    rw [fraction?, leading_append hds hrest, afterLeading_append hds hrest]
    rfl

theorem exponentDigits?_append (negative : Bool) (hne : ds ≠ [])
    (hds : ∀ c ∈ ds, c.isDigit = true) (hrest : EndsDigits rest) :
    exponentDigits? negative (ds ++ rest) = some (some (negative, ds), rest) := by
  rw [exponentDigits?, leading_append hds hrest, afterLeading_append hds hrest, if_neg]
  simpa using hne

theorem exponent?_append {e : Option (Bool × List Char)}
    (he : ∀ p ∈ e, p.2 ≠ [] ∧ ∀ c ∈ p.2, c.isDigit = true) (hrest : Ends rest) :
    exponent? (exponentText e ++ rest) = some (e, rest) := by
  cases e with
  | none =>
    show exponent? rest = some (none, rest)
    cases rest with
    | nil => rfl
    | cons c cs =>
      obtain ⟨-, -, hlower, hupper⟩ := hrest c rfl
      simp [exponent?, hlower, hupper]
  | some p =>
    obtain ⟨negative, ds⟩ := p
    obtain ⟨hne, hds⟩ := he (negative, ds) rfl
    have hread := exponentDigits?_append negative hne hds fun c hc => (hrest c hc).1
    cases negative with
    | true => exact hread
    | false =>
      -- The first digit is no sign.
      cases ds with
      | nil => exact absurd rfl hne
      | cons d ds =>
        have hd : d.isDigit = true := hds d List.mem_cons_self
        show exponent? ('e' :: (d :: (ds ++ rest))) = some (some (false, d :: ds), rest)
        rw [exponent?, if_pos (Or.inl rfl)]
        · exact hread
        · rintro cs ⟨⟩
          exact absurd hd (by decide)
        · rintro cs ⟨⟩
          exact absurd hd (by decide)

/-! ### Each part ends before the next -/

theorem exponentText_append_ends (e : Option (Bool × List Char)) (hrest : Ends rest) :
    ∀ c ∈ (exponentText e ++ rest).head?, c.isDigit = false ∧ c ≠ '.' := by
  intro c hc
  cases e with
  | none => exact ⟨(hrest c hc).1, (hrest c hc).2.1⟩
  | some p =>
    obtain rfl : 'e' = c := by simpa [exponentText] using hc
    decide

theorem endsDigits_fractionText_append (ds : List Char) (hrest : EndsDigits rest) :
    EndsDigits (fractionText ds ++ rest) := by
  intro c hc
  cases ds with
  | nil => exact hrest c hc
  | cons d ds =>
    obtain rfl : '.' = c := by simpa [fractionText] using hc
    decide

theorem WellFormed.exists_digits_eq_cons {n : Numeral} (h : n.WellFormed) :
    ∃ d ds, n.digits = d :: ds ∧ d.isDigit = true := by
  have hwhole := h.isWhole
  have hdigits := h.digits
  cases hn : n.digits with
  | nil =>
    rw [hn] at hwhole
    cases hwhole
  | cons d ds =>
    rw [hn] at hdigits
    exact ⟨d, ds, rfl, hdigits d List.mem_cons_self⟩

/-- A numeral begins with a digit or with a sign. -/
theorem WellFormed.exists_text_eq_cons {n : Numeral} (h : n.WellFormed) :
    ∃ c cs, n.text = c :: cs ∧ (c.isDigit = true ∨ c = '-') := by
  obtain ⟨d, ds, hdigits, hd⟩ := h.exists_digits_eq_cons
  rw [← List.append_nil n.text, text_append, hdigits]
  cases n.negative with
  | true => exact ⟨'-', _, rfl, Or.inr rfl⟩
  | false => exact ⟨d, _, rfl, Or.inl hd⟩

/-- **A numeral is read back from its text.** -/
theorem scan?_text_append {n : Numeral} (h : n.WellFormed) (hrest : Ends rest) :
    scan? (n.text ++ rest) = some (n, rest) := by
  have hexponent := exponentText_append_ends n.exponent hrest
  have hfraction : EndsDigits (fractionText n.fraction ++ (exponentText n.exponent ++ rest)) :=
    endsDigits_fractionText_append _ fun c hc => (hexponent c hc).1
  have hsign : ∀ c ∈ (n.digits ++ (fractionText n.fraction ++
      (exponentText n.exponent ++ rest))).head?, c ≠ '-' := by
    rintro c hc rfl
    obtain ⟨d, ds, hdigits, hd⟩ := h.exists_digits_eq_cons
    rw [hdigits] at hc
    obtain rfl : d = '-' := by simpa using hc
    exact absurd hd (by decide)
  rw [text_append, scan?, sign_append n.negative hsign]
  simp only [leading_append h.digits hfraction, afterLeading_append h.digits hfraction, h.isWhole,
    fraction?_append h.fraction (fun c hc => (hexponent c hc).1) (fun c hc => (hexponent c hc).2),
    exponent?_append h.exponent hrest, if_true]

/-! ## Natural numbers -/

/-- Only the numeral of zero begins with a zero. -/
theorem head?_toDigits_ne_zero {n : Nat} (h : n ≠ 0) : (Nat.toDigits 10 n).head? ≠ some '0' := by
  induction n using Nat.strongRecOn with
  | ind n ih =>
    by_cases hlt : n < 10
    · rw [Nat.toDigits_of_lt_base hlt]
      simpa [Nat.digitChar_eq_zero] using h
    · have hten : 10 ≤ n := Nat.le_of_not_lt hlt
      have htail := ih (n / 10) (by omega) (by omega)
      rw [Nat.toDigits_of_base_le (by decide) hten, List.head?_append]
      cases hhead : (Nat.toDigits 10 (n / 10)).head? with
      | none => exact absurd (List.head?_eq_none_iff.mp hhead) Nat.toDigits_ne_nil
      | some d =>
        rw [hhead] at htail
        exact htail

theorem isWhole_toDigits (n : Nat) : isWhole (Nat.toDigits 10 n) = true := by
  by_cases hn : n = 0
  · rw [hn]
    rfl
  · have hhead := head?_toDigits_ne_zero hn
    cases hdigits : Nat.toDigits 10 n with
    | nil => exact absurd hdigits Nat.toDigits_ne_nil
    | cons d ds =>
      rw [hdigits] at hhead
      have hd : d ≠ '0' := by simpa using hhead
      unfold isWhole
      split <;> simp_all

theorem wellFormed_ofNat (n : Nat) : (ofNat n).WellFormed where
  isWhole := isWhole_toDigits n
  digits := fun _ hc => Nat.isDigit_of_mem_toDigits (by decide) (Nat.le_refl 10) hc
  fraction := fun _ hc => nomatch hc
  exponent := fun _ he => nomatch he

theorem value_toDigits (n : Nat) : value (Nat.toDigits 10 n) = n :=
  Nat.ofDigitChars_ten_toDigits

/-- **The numeral of a number below 2^64 is the word of this number.** -/
theorem word?_ofNat {n : Nat} (h : n < wordBound) : (ofNat n).word? = some (UInt64.ofNat n) := by
  have hn : value (Nat.toDigits 10 n) < wordBound := by rwa [value_toDigits]
  show (if value (Nat.toDigits 10 n) < wordBound then
    some (UInt64.ofNat (value (Nat.toDigits 10 n))) else none) = some (UInt64.ofNat n)
  rw [if_pos hn, value_toDigits]

/-! ## Natural numbers as doubles -/

/-- Digits that stay below the bound are all taken. -/
theorem gather_eq {significand : Nat} {digits : List Char}
    (h : Nat.ofDigitChars 10 digits significand < wordBound) :
    gather significand digits = (Nat.ofDigitChars 10 digits significand, 0) := by
  induction digits generalizing significand with
  | nil => rfl
  | cons d ds ih =>
    have hnext : 10 * significand + value [d] = 10 * significand + (d.toNat - '0'.toNat) := by
      rw [value, Nat.ofDigitChars_cons, Nat.mul_zero, Nat.zero_add]
      rfl
    rw [Nat.ofDigitChars_cons] at h ⊢
    have hle : 10 * significand + (d.toNat - '0'.toNat) ≤
        Nat.ofDigitChars 10 ds (10 * significand + (d.toNat - '0'.toNat)) := by
      rw [Nat.ofDigitChars_eq_ofDigitChars_zero]
      exact Nat.le_add_right_of_le (Nat.le_mul_of_pos_left _ (Nat.pow_pos (by decide)))
    rw [gather]
    simp only [hnext]
    rw [if_pos (Nat.lt_of_le_of_lt hle h), ih h]

theorem scientific_ofNat {n : Nat} (h : n < wordBound) : (ofNat n).scientific = (n, 0) := by
  have hgather : gather 0 (Nat.toDigits 10 n) = (n, 0) := by
    have hdigits : Nat.ofDigitChars 10 (Nat.toDigits 10 n) 0 = n := Nat.ofDigitChars_ten_toDigits
    rw [gather_eq (by rwa [hdigits]), hdigits]
  simp only [scientific, ofNat, hgather, gather]
  rfl

/-- **A number below 2^64 is not too large for a double.** -/
theorem fits_ofNat {n : Nat} (h : n < wordBound) : (ofNat n).fits = true := by
  have hfinite : ((Binary64.ofNat n).mul (Binary64.ofNat 1)).isFinite = true := by
    have hn : (n : ℚ) < 2 ^ 64 := by
      exact_mod_cast h
    have hone : (Binary64.ofNat 1).value = 1 := by
      rw [Binary64.value_ofNat (by simpa using Binary64.representable_two_pow 0), Nat.cast_one]
    have hmul := Binary64.value_mul_le (Binary64.ofNat n) (Binary64.ofNat 1)
    have hvalue := Binary64.value_ofNat_le n
    rw [Binary64.isFinite_iff]
    rw [hone, mul_one] at hmul
    calc ((Binary64.ofNat n).mul (Binary64.ofNat 1)).value
        ≤ 4 * n := by linarith
      _ < 4 * 2 ^ 64 := by linarith
      _ = 2 ^ 66 := by norm_num
      _ < 2 ^ 1024 := pow_lt_pow_right₀ one_lt_two (by decide)
  rw [fits, scientific_ofNat h]
  simp [maxPower, hfinite]

end ChainedSet.Json.Numeral
