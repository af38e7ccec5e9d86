import ChainedSet.Binary64

/-!
# JSON numerals

A numeral is kept as it is written: sign, digits, digits after the point, exponent. Two questions
are asked of it. Is it a word, a natural number below 2^64 written with digits alone (`word?`)?
And does a double hold it (`fits`)? A numeral that no double holds is refused wherever it stands.

`Numeral.scan?` reads the longest numeral at the start of a text. Its parts are taken by
`takeWhile` and `dropWhile`, and what is left over is always shorter (`length_scan?_lt`).
-/

namespace ChainedSet.Json

/-- A numeral as it is written. `fraction` is empty if there is no point, and `exponent` says
whether it is negative and has its digits. -/
structure Numeral where
  negative : Bool
  digits : List Char
  fraction : List Char
  exponent : Option (Bool × List Char)
deriving DecidableEq, Repr

namespace Numeral

/-- The number that decimal digits stand for. -/
def value (digits : List Char) : Nat := Nat.ofDigitChars 10 digits 0

/-- The numeral of a natural number. -/
def ofNat (n : Nat) : Numeral := ⟨false, Nat.toDigits 10 n, [], none⟩

/-- The first number that a word cannot hold, which is 2^64. -/
def wordBound : Nat := 0x10000000000000000

/-- The 64-bit word that a numeral stands for, if it is written with digits alone and small
enough. -/
def word? (n : Numeral) : Option UInt64 :=
  if n.negative || !n.fraction.isEmpty || n.exponent.isSome then none
  else if value n.digits < wordBound then some (UInt64.ofNat (value n.digits))
  else none

/-! ## Size -/

/-- Takes digits into a significand as long as it stays below 2^64; the significand, and how many
digits were left out. -/
def gather (significand : Nat) : List Char → Nat × Nat
  | [] => (significand, 0)
  | d :: ds =>
    let next := 10 * significand + value [d]
    if next < wordBound then gather next ds else (significand, ds.length + 1)

/-- The numeral as a significand times a power of ten. Digits before the point that do not fit the
significand count as zeros, and digits after it that do not fit are dropped. -/
def scientific (n : Numeral) : Nat × Int :=
  let (whole, zeros) := gather 0 n.digits
  let (significand, dropped) := gather whole n.fraction
  let shift : Int := match n.exponent with
    | none => 0
    | some (true, digits) => -(value digits)
    | some (false, digits) => value digits
  (significand, zeros - (n.fraction.length - dropped : Nat) + shift)

/-- The greatest power of ten that is a double. -/
def maxPower : Int := 308

/-- Whether the numeral is not too large for a double: the product of significand and power of ten,
each rounded and then multiplied and rounded again, is finite. -/
def fits (n : Numeral) : Bool :=
  let (significand, power) := n.scientific
  significand == 0 || power < 0 ||
    (power ≤ maxPower &&
      ((Binary64.ofNat significand).mul (.ofNat (Nat.pow 10 power.toNat))).isFinite)

/-! ## Text -/

/-- The numeral as it is written. -/
def text (n : Numeral) : List Char :=
  (if n.negative then ['-'] else []) ++ n.digits
    ++ (if n.fraction.isEmpty then [] else '.' :: n.fraction)
    ++ (match n.exponent with
      | none => []
      | some (negative, digits) => 'e' :: (if negative then ['-'] else []) ++ digits)

/-- Digits before the point: at least one, and a zero only by itself. -/
def isWhole : List Char → Bool
  | [] => false
  | ['0'] => true
  | d :: _ => d != '0'

/-- The digits at the start of a text. -/
def leading (cs : List Char) : List Char := cs.takeWhile Char.isDigit

/-- What follows the digits at the start of a text. -/
def afterLeading (cs : List Char) : List Char := cs.dropWhile Char.isDigit

/-- The sign at the start of a numeral, and what follows it. -/
def sign : List Char → Bool × List Char
  | '-' :: cs => (true, cs)
  | cs => (false, cs)

/-- A point with at least one digit, or nothing, and what follows. -/
def fraction? : List Char → Option (List Char × List Char)
  | '.' :: cs => if (leading cs).isEmpty then none else some (leading cs, afterLeading cs)
  | cs => some ([], cs)

/-- The digits of an exponent after its sign, at least one, and what follows. -/
def exponentDigits? (negative : Bool) (cs : List Char) :
    Option (Option (Bool × List Char) × List Char) :=
  if (leading cs).isEmpty then none else some (some (negative, leading cs), afterLeading cs)

/-- An exponent, or nothing, and what follows. -/
def exponent? : List Char → Option (Option (Bool × List Char) × List Char)
  | [] => some (none, [])
  | c :: cs =>
    if c = 'e' ∨ c = 'E' then
      match cs with
      | '-' :: cs => exponentDigits? true cs
      | '+' :: cs => exponentDigits? false cs
      | cs => exponentDigits? false cs
    else some (none, c :: cs)

/-- The longest numeral at the start of a text, and what follows it. -/
def scan? (cs : List Char) : Option (Numeral × List Char) :=
  let (negative, unsigned) := sign cs
  if isWhole (leading unsigned) then
    match fraction? (afterLeading unsigned) with
    | none => none
    | some (fraction, cs) =>
      match exponent? cs with
      | none => none
      | some (exponent, cs) => some (⟨negative, leading unsigned, fraction, exponent⟩, cs)
  else none

/-! ## What is left over is shorter -/

theorem length_afterLeading_le (cs : List Char) : (afterLeading cs).length ≤ cs.length :=
  (List.dropWhile_sublist _).length_le

/-- Leading digits that may stand before a point take at least one character. -/
theorem length_afterLeading_lt {cs : List Char} (h : isWhole (leading cs) = true) :
    (afterLeading cs).length < cs.length := by
  cases cs with
  | nil => simp [leading, isWhole] at h
  | cons c cs =>
    have hc : c.isDigit = true := by
      cases hd : c.isDigit with
      | true => rfl
      | false => simp [leading, hd, isWhole] at h
    rw [afterLeading, List.dropWhile_cons_of_pos hc]
    exact Nat.lt_succ_of_le (length_afterLeading_le cs)

theorem length_sign_le (cs : List Char) : (sign cs).2.length ≤ cs.length := by
  unfold sign
  split <;> simp

theorem length_fraction?_le {cs ds rest : List Char} (h : fraction? cs = some (ds, rest)) :
    rest.length ≤ cs.length := by
  unfold fraction? at h
  split at h
  · split at h
    · cases h
    · cases h
      exact Nat.le_succ_of_le (length_afterLeading_le _)
  · cases h
    exact Nat.le_refl _

theorem length_exponentDigits?_le {negative : Bool} {cs rest : List Char}
    {e : Option (Bool × List Char)} (h : exponentDigits? negative cs = some (e, rest)) :
    rest.length ≤ cs.length := by
  unfold exponentDigits? at h
  split at h
  · cases h
  · cases h
    exact length_afterLeading_le _

theorem length_exponent?_le {cs rest : List Char} {e : Option (Bool × List Char)}
    (h : exponent? cs = some (e, rest)) : rest.length ≤ cs.length := by
  unfold exponent? at h
  split at h
  · cases h
    exact Nat.le_refl _
  · split at h
    · split at h <;> have := length_exponentDigits?_le h <;> simp only [List.length_cons] at * <;>
        omega
    · cases h
      exact Nat.le_refl _

/-- **A numeral takes at least one character.** -/
theorem length_scan?_lt {cs rest : List Char} {n : Numeral} (h : scan? cs = some (n, rest)) :
    rest.length < cs.length := by
  have hsign := length_sign_le cs
  simp only [scan?] at h
  split at h
  next hwhole =>
    have hdigits := length_afterLeading_lt hwhole
    split at h
    · cases h
    next _ _ hfraction =>
      have hf := length_fraction?_le hfraction
      split at h
      · cases h
      next _ _ hexponent =>
        have he := length_exponent?_le hexponent
        cases h
        omega
  · cases h

end Numeral

end ChainedSet.Json
