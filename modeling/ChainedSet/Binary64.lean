/-!
# Binary64 numbers

The doubles that a load factor and its threshold are, computed exactly. A number is a mantissa
times a power of two; every operation takes the exact rational result and rounds it once, to the
nearest number of 53 binary digits, ties to the even mantissa.

Only non-negative numbers occur here, and only quotients and products of numbers below 2^64 or
powers of ten that JSON numerals name, so the exponent is unbounded: no result is subnormal, and
whether one is too large for the format is asked separately (`isFinite`).
-/

namespace ChainedSet

/-- The non-negative number `mantissa * 2 ^ exponent`. Zero has the mantissa zero; any other result
of an operation has a mantissa from `2 ^ 52` to `2 ^ 53`. -/
structure Binary64 where
  mantissa : Nat
  exponent : Int
deriving DecidableEq, Repr, Inhabited

namespace Binary64

/-- The leading one of a mantissa of 53 digits, which is `2 ^ 52`. -/
def leadingOne : Nat := 0x10000000000000

/-! ## Rounding a quotient -/

/-- The integer nearest to `num / den`, and the even one of two that are equally near. -/
def roundHalfEven (num den : Nat) : Nat :=
  let twice := 2 * (num % den)
  if den < twice ∨ (twice = den ∧ num / den % 2 = 1) then num / den + 1 else num / den

/-- The numerator of `num / den` divided by `2 ^ e`, over the denominator `scaledDen den e`. -/
def scaledNum (num : Nat) (e : Int) : Nat := num <<< (-e).toNat

/-- The denominator of `num / den` divided by `2 ^ e`, under the numerator `scaledNum num e`. -/
def scaledDen (den : Nat) (e : Int) : Nat := den <<< e.toNat

/-- The exponent at which `num / den` has 53 digits before the point: `num / den` divided by
`2 ^ e` is at least `2 ^ 52` and less than `2 ^ 53`. The lengths of the two numbers leave a choice
of two, which one comparison settles. -/
def quotientExponent (num den : Nat) : Int :=
  let e : Int := (num.log2 : Int) - den.log2 - 52
  if scaledNum num e < leadingOne * scaledDen den e then e - 1 else e

/-- The binary64 number nearest to `num / den`. -/
def ofQuotient (num den : Nat) : Binary64 :=
  if num = 0 then ⟨0, 0⟩
  else
    let e := quotientExponent num den
    ⟨roundHalfEven (scaledNum num e) (scaledDen den e), e⟩

/-! ## Operations -/

/-- The binary64 number nearest to `n`. -/
def ofNat (n : Nat) : Binary64 := ofQuotient n 1

/-- The same digits, `k` binary places higher. -/
def shift (x : Binary64) (k : Int) : Binary64 := ⟨x.mantissa, x.exponent + k⟩

/-- The quotient, rounded once. Moving the point is exact, so the mantissas alone are rounded. -/
def div (x y : Binary64) : Binary64 :=
  (ofQuotient x.mantissa y.mantissa).shift (x.exponent - y.exponent)

/-- The product, rounded once. -/
def mul (x y : Binary64) : Binary64 :=
  (ofNat (x.mantissa * y.mantissa)).shift (x.exponent + y.exponent)

/-- Whether `x` is the smaller number, by comparing both at the lower of their exponents. -/
def lt (x y : Binary64) : Bool :=
  let e := min x.exponent y.exponent
  decide (x.mantissa <<< (x.exponent - e).toNat < y.mantissa <<< (y.exponent - e).toNat)

/-- Whether the format holds the number: it is below `2 ^ 1024`. -/
def isFinite (x : Binary64) : Bool := x.lt ⟨1, 1024⟩

/-- The 64 bits of the number in the format: no sign, eleven bits of exponent, 52 bits of mantissa
without its leading one. A mantissa of `2 ^ 53` carries into the exponent by itself. -/
def toBits (x : Binary64) : UInt64 :=
  if x.mantissa = 0 then 0
  else UInt64.ofNat ((x.exponent + 1075).toNat * leadingOne + (x.mantissa - leadingOne))

example : (ofQuotient 1 2).toBits = 0x3fe0000000000000 := by decide
example : (ofQuotient 7 10).toBits = 0x3fe6666666666666 := by decide
example : ((ofNat 22).div (ofNat 32)).toBits = 0x3fe6000000000000 := by decide
example : (ofNat (2 ^ 64 - 1)).toBits = 0x43f0000000000000 := by decide

end Binary64

end ChainedSet
