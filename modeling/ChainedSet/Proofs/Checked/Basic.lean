import ChainedSet.Murmur
import ChainedSet.Proofs.LittleEndian

/-!
# Arithmetic and access that can fail

A machine counts in 64-bit words and looks into arrays by position. An addition that does not fit,
a subtraction below zero, a division by zero, a shift by the whole width of a word, and a look
outside an array have no answer there: each is a `Fault`. This module has these operations with
their faults, and the hash computed through them. Without a fault they agree with the operations on
natural numbers, lists and words that tables are defined by.
-/

namespace ChainedSet

/-- Why a machine has no answer. -/
inductive Fault where
  | outOfBounds (position length : Nat)
  | wrongLength (expected found : Nat)
  | overflow
  | underflow
  | shiftTooFar (bits : Nat)
  | noBuckets
deriving DecidableEq, Repr

namespace Checked

theorem ok_bind {ε α β : Type} (a : α) (f : α → Except ε β) : (.ok a >>= f) = f a := rfl

/-! ## Operations -/

/-- The first number that does not fit a word. -/
def wordBound : Nat := 2 ^ 64

def add (a b : Nat) : Except Fault Nat :=
  if a + b < wordBound then .ok (a + b) else .error .overflow

def mul (a b : Nat) : Except Fault Nat :=
  if a * b < wordBound then .ok (a * b) else .error .overflow

def sub (a b : Nat) : Except Fault Nat :=
  if b ≤ a then .ok (a - b) else .error .underflow

def shiftLeft (w : UInt64) (bits : Nat) : Except Fault UInt64 :=
  if bits < 64 then .ok (w <<< UInt64.ofNat bits) else .error (.shiftTooFar bits)

/-- The entry of an array at a position. -/
def index {α : Type} (xs : List α) (position : Nat) : Except Fault α :=
  match xs[position]? with
  | some a => .ok a
  | none => .error (.outOfBounds position xs.length)

/-- The entries of an array from a position on, up to another and without it. -/
def slice {α : Type} (xs : List α) (start stop : Nat) : Except Fault (List α) :=
  if start ≤ stop ∧ stop ≤ xs.length then .ok ((xs.drop start).take (stop - start))
  else .error (.outOfBounds stop xs.length)

/-- The bytes of a field of fixed width, copied from as many bytes. -/
def copy (width : Nat) (bytes : List UInt8) : Except Fault (List UInt8) :=
  if bytes.length = width then .ok bytes else .error (.wrongLength width bytes.length)

theorem add_eq_ok {a b : Nat} (h : a + b < 2 ^ 64) : add a b = .ok (a + b) := if_pos h

theorem mul_eq_ok {a b : Nat} (h : a * b < 2 ^ 64) : mul a b = .ok (a * b) := if_pos h

theorem sub_eq_ok {a b : Nat} (h : b ≤ a) : sub a b = .ok (a - b) := if_pos h

theorem shiftLeft_eq_ok {w : UInt64} {bits : Nat} (h : bits < 64) :
    shiftLeft w bits = .ok (w <<< UInt64.ofNat bits) := if_pos h

theorem index_eq_ok {α : Type} {xs : List α} {position : Nat} {a : α}
    (h : xs[position]? = some a) : index xs position = .ok a := by
  rw [index, h]

theorem slice_eq_ok {α : Type} {xs : List α} {start n : Nat} (h : start + n ≤ xs.length) :
    slice xs start (start + n) = .ok ((xs.drop start).take n) := by
  rw [slice, if_pos ⟨Nat.le_add_right start n, h⟩, Nat.add_sub_cancel_left]

theorem copy_eq_ok {width : Nat} {bytes : List UInt8} (h : bytes.length = width) :
    copy width bytes = .ok bytes := if_pos h

/-! ## The hash -/

/-- Mixes bytes into the state, each shifted to its place. -/
def absorbTail (state : UInt64) (place : Nat) : List UInt8 → Except Fault UInt64
  | [] => .ok state
  | byte :: tail => do
    let bits ← mul 8 place
    let shifted ← shiftLeft byte.toUInt64 bits
    absorbTail (state ^^^ shifted) (place + 1) tail

/-- The state after a whole key, block by block and then what is left over. -/
def absorbAll (state : UInt64) (key : Key) : Except Fault UInt64 :=
  if 8 ≤ key.length then do
    let word ← copy 8 (key.take 8)
    absorbAll (Murmur.absorb state (LittleEndian.decode word)) (key.drop 8)
  else if key.isEmpty then .ok state
  else do
    let mixed ← absorbTail state 0 key
    return mixed * Murmur.multiplier
termination_by key.length

def hash (seed : UInt64) (key : Key) : Except Fault UInt64 := do
  let state ← absorbAll (Murmur.start seed key.length) key
  return Murmur.finish state

/-- The bucket of a key. It is a remainder, so there have to be buckets. -/
def slot (seed : UInt64) (capacity : Nat) (key : Key) : Except Fault Nat :=
  if capacity = 0 then .error .noBuckets
  else do
    let word ← hash seed key
    return word.toNat % capacity

/-- Seven bytes at most are shifted by less than the width of a word, and fill up to one number. -/
theorem absorbTail_eq_ok {state : UInt64} {place : Nat} {tail : List UInt8}
    (h : place + tail.length < 8) :
    absorbTail state place tail =
      .ok (state ^^^ (LittleEndian.decode tail <<< UInt64.ofNat (8 * place))) := by
  induction tail generalizing state place with
  | nil => simp [absorbTail, LittleEndian.decode]
  | cons byte tail ih =>
    rw [List.length_cons] at h
    have hshift : LittleEndian.decode tail <<< UInt64.ofNat (8 * (place + 1)) =
        LittleEndian.decode tail <<< 8 <<< UInt64.ofNat (8 * place) := by
      rw [Nat.add_comm, ← LittleEndian.shiftLeft_shiftLeft_places (by omega)]
      rfl
    rw [absorbTail, mul_eq_ok (by omega), ok_bind, shiftLeft_eq_ok (by omega), ok_bind,
      ih (by omega), hshift, LittleEndian.decode_cons_eq_xor, UInt64.shiftLeft_xor,
      UInt64.xor_assoc]

theorem exists_block {key : Key} (h : 8 ≤ key.length) :
    ∃ b0 b1 b2 b3 b4 b5 b6 b7 rest, key = b0 :: b1 :: b2 :: b3 :: b4 :: b5 :: b6 :: b7 :: rest := by
  match key, h with
  | b0 :: b1 :: b2 :: b3 :: b4 :: b5 :: b6 :: b7 :: rest, _ =>
    exact ⟨b0, b1, b2, b3, b4, b5, b6, b7, rest, rfl⟩

theorem absorbAll_eq_ok (state : UInt64) (key : Key) :
    absorbAll state key = .ok (Murmur.absorbAll state key) := by
  fun_induction Murmur.absorbAll state key with
  | case1 state b0 b1 b2 b3 b4 b5 b6 b7 rest ih =>
    rw [absorbAll, if_pos (by simp), copy_eq_ok (by simp), ok_bind]
    exact ih
  | case2 state => rw [absorbAll]; rfl
  | case3 state tail hblock hnil =>
    have hshort : tail.length < 8 := by
      apply Nat.lt_of_not_le
      intro hlong
      obtain ⟨b0, b1, b2, b3, b4, b5, b6, b7, rest, rfl⟩ := exists_block hlong
      exact hblock b0 b1 b2 b3 b4 b5 b6 b7 rest rfl
    rw [absorbAll, if_neg (Nat.not_le.mpr hshort), if_neg (by simpa using hnil),
      absorbTail_eq_ok (by omega)]
    simp

theorem hash_eq_ok (seed : UInt64) (key : Key) : hash seed key = .ok (Murmur.hash seed key) := by
  rw [hash, absorbAll_eq_ok]
  rfl

theorem slot_eq_ok {capacity : Nat} (h : 0 < capacity) (seed : UInt64) (key : Key) :
    slot seed capacity key = .ok (Murmur.slot seed capacity key) := by
  rw [slot, if_neg (Nat.pos_iff_ne_zero.mp h), hash_eq_ok]
  rfl

end Checked

end ChainedSet
