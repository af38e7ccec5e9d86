import ChainedSet.Binary64

/-!
# Capacities and load

A table starts with `initialCapacity` buckets and only ever doubles them, so its capacity is
always the initial one times a power of two (`isRegular`). It is overloaded when its size divided
by its capacity is above seven tenths; sizes, capacities, their quotient and the threshold are all
binary64 numbers.
-/

namespace ChainedSet.Capacity

/-- The number of buckets of a new or cleared table. -/
def initialCapacity : Nat := 32

/-- The load factor that a table may reach and not pass: the double nearest to 7/10. -/
def loadThreshold : Binary64 := .ofQuotient 7 10

/-- Whether a capacity is the initial one times a power of two: it is not below the initial one, the
initial one divides it, and the quotient is a power of two. -/
def isRegular (capacity : Nat) : Bool :=
  initialCapacity ≤ capacity && capacity % initialCapacity == 0 &&
    decide (capacity / initialCapacity).isPowerOfTwo

/-- Elements per bucket. -/
def loadFactor (size capacity : Nat) : Binary64 := (Binary64.ofNat size).div (.ofNat capacity)

/-- Whether so many elements are too many for so many buckets. -/
def overloads (size capacity : Nat) : Bool := loadThreshold.lt (loadFactor size capacity)

example : overloads 22 32 = false := by decide
example : overloads 23 32 = true := by decide

end ChainedSet.Capacity
