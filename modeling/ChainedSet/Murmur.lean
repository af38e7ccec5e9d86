import ChainedSet.LittleEndian

/-!
# Seeded 64-bit hashing of keys

A key is absorbed in blocks of eight bytes, each read as a little-endian word and scrambled before
it is mixed in; up to seven bytes that are left over are mixed in as one shorter number. The seed
and the length of the key set the starting state. All arithmetic wraps at 2^64.

`slot` reduces the hash to a bucket number. The capacity is an argument, so that a table that grows
can place its keys in the new buckets while the old ones are still there.

The hash is fast and not cryptographic: whoever chooses the keys and knows the seed can make them
collide, so a seed is drawn at random where keys are not trusted.
-/

namespace ChainedSet

/-- A key is any byte string. -/
abbrev Key := List UInt8

namespace Murmur

/-- The odd constant that every mixing step multiplies by. -/
def multiplier : UInt64 := 0xc6a4a7935bd1e995

/-- The seed of a set that is not given one. -/
def defaultSeed : UInt64 := 4

/-- Folds the high bits of a word onto its low ones. -/
def fold (w : UInt64) : UInt64 := w ^^^ (w >>> 47)

/-- A block, mixed on its own before it meets the state. -/
def scramble (block : UInt64) : UInt64 := fold (block * multiplier) * multiplier

/-- The state after one whole block. -/
def absorb (state block : UInt64) : UInt64 := (state ^^^ scramble block) * multiplier

/-- The state before the first block. -/
def start (seed : UInt64) (length : Nat) : UInt64 := seed ^^^ (UInt64.ofNat length * multiplier)

/-- The state after a whole key: its blocks in order, then what is left over, if anything. -/
def absorbAll (state : UInt64) : Key → UInt64
  | b0 :: b1 :: b2 :: b3 :: b4 :: b5 :: b6 :: b7 :: rest =>
    absorbAll (absorb state (LittleEndian.decode [b0, b1, b2, b3, b4, b5, b6, b7])) rest
  | [] => state
  | tail => (state ^^^ LittleEndian.decode tail) * multiplier

/-- The last mixing of the state, so that each of its bits reaches the low ones. -/
def finish (state : UInt64) : UInt64 := fold (fold state * multiplier)

/-- The hash of a key under a seed. -/
def hash (seed : UInt64) (key : Key) : UInt64 := finish (absorbAll (start seed key.length) key)

/-- The bucket, of `capacity` many, that a key belongs in. -/
def slot (seed : UInt64) (capacity : Nat) (key : Key) : Nat := (hash seed key).toNat % capacity

/-- The bucket that a key belongs in, if there are any buckets. -/
def slot? (seed : UInt64) (capacity : Nat) (key : Key) : Option Nat :=
  if capacity = 0 then none else some (slot seed capacity key)

example : hash defaultSeed [] = 0x1a929e4d6f479371 := by decide
example : hash defaultSeed [0x61] = 0x7115e430772d6a11 := by decide
example : hash defaultSeed [0x61, 0x62, 0x63, 0x64, 0x65, 0x66, 0x67, 0x68] =
    0x6999b293c7d6c02e := by decide
example : slot defaultSeed 32 [0x68, 0x65, 0x6c, 0x6c, 0x6f] = 19 := by decide

/-- A slot is the number of a bucket. -/
theorem slot_lt {capacity : Nat} (h : 0 < capacity) (seed : UInt64) (key : Key) :
    slot seed capacity key < capacity :=
  Nat.mod_lt _ h

/-- Doubling the capacity leaves a key where it is or moves it up by the old capacity. -/
theorem slot_double_mod (seed : UInt64) (capacity : Nat) (key : Key) :
    slot seed (2 * capacity) key % capacity = slot seed capacity key :=
  Nat.mod_mod_of_dvd _ ⟨2, Nat.mul_comm 2 capacity⟩

end Murmur

end ChainedSet
