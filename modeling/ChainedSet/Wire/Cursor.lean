import ChainedSet.Error
import ChainedSet.LittleEndian

/-!
# Reading fields from bytes

A cursor stands in a byte string: so many bytes are behind it, the rest is ahead. Reading a field
either hands out the next bytes and moves past them, or fails because too few are ahead and says
where the field would have ended. A failed read yields no cursor, so whoever goes on does so from
where it was.

`Read` names the kinds of read, and `Read.runAll` performs a list of them, each from where the
last successful one ended.
-/

namespace ChainedSet.Wire

/-- A position in a byte string of `total` bytes: `position` bytes are behind, `rest` is ahead. -/
structure Cursor where
  position : Nat
  total : Nat
  rest : List UInt8
  total_eq : position + rest.length = total

namespace Cursor

/-- The cursor before the first byte. -/
def ofBytes (bytes : List UInt8) : Cursor := ⟨0, bytes.length, bytes, Nat.zero_add _⟩

/-- How many bytes are ahead. -/
def remaining (c : Cursor) : Nat := c.total - c.position

theorem remaining_eq (c : Cursor) : c.remaining = c.rest.length := by
  have := c.total_eq
  simp only [remaining]
  omega

theorem length_take_rest {n : Nat} {c : Cursor} (h : n ≤ c.remaining) :
    (c.rest.take n).length = n :=
  List.length_take_of_le (remaining_eq c ▸ h)

/-- The cursor `n` bytes further on. -/
def advance (c : Cursor) (n : Nat) (h : n ≤ c.remaining) : Cursor where
  position := c.position + n
  total := c.total
  rest := c.rest.drop n
  total_eq := by
    have := c.total_eq
    rw [remaining_eq] at h
    simp only [List.length_drop]
    omega

/-- The next `n` bytes. The position that a short read asks for is a 64-bit number and stops at the
largest one. -/
def take (n : Nat) (c : Cursor) : Except DecodeError (List UInt8 × Cursor) :=
  if h : n ≤ c.remaining then .ok (c.rest.take n, c.advance n h)
  else .error (.bufferTooShort (min (c.position + n) 0xffffffffffffffff) c.total)

/-- A read of bytes that are there hands them out and moves past them. -/
theorem take_of_le {n : Nat} {c : Cursor} (h : n ≤ c.remaining) :
    c.take n = .ok (c.rest.take n, c.advance n h) := by
  rw [take, dif_pos h]

/-- A read of more bytes than there are is short. -/
theorem take_of_lt {n : Nat} {c : Cursor} (h : c.remaining < n) :
    c.take n = .error (.bufferTooShort (min (c.position + n) 0xffffffffffffffff) c.total) := by
  rw [take, dif_neg (Nat.not_le.mpr h)]

@[simp] theorem remaining_advance (c : Cursor) (n : Nat) (h : n ≤ c.remaining) :
    (c.advance n h).remaining = c.remaining - n := by
  simp only [remaining, advance]
  omega

@[simp] theorem remaining_ofBytes (bytes : List UInt8) :
    (ofBytes bytes).remaining = bytes.length := by
  simp [remaining, ofBytes]

/-- The next little-endian number of `width` bytes. -/
def word (width : Nat) (c : Cursor) : Except DecodeError (UInt64 × Cursor) := do
  let (bytes, c) ← c.take width
  return (LittleEndian.decode bytes, c)

/-- A length prefix: a number of four bytes. -/
def length (c : Cursor) : Except DecodeError (Nat × Cursor) := do
  let (n, c) ← c.word 4
  return (n.toNat, c)

/-- Reads `n` times in a row, and puts the results after those in `before`, latest first. -/
def manyAfter {α : Type} (read : Cursor → Except DecodeError (α × Cursor)) (before : List α) :
    Nat → Cursor → Except DecodeError (List α × Cursor)
  | 0, c => .ok (before.reverse, c)
  | n + 1, c =>
    match read c with
    | .error e => .error e
    | .ok (a, c) => manyAfter read (a :: before) n c

/-- Reads `n` times in a row. -/
def many {α : Type} (read : Cursor → Except DecodeError (α × Cursor)) (n : Nat) (c : Cursor) :
    Except DecodeError (List α × Cursor) :=
  manyAfter read [] n c

/-- What was read before only comes first. -/
theorem manyAfter_eq {α : Type} (read : Cursor → Except DecodeError (α × Cursor))
    (before : List α) (n : Nat) (c : Cursor) :
    manyAfter read before n c =
      (many read n c).map fun (results, c') => (before.reverse ++ results, c') := by
  induction n generalizing before c with
  | zero => simp [many, manyAfter, Except.map]
  | succ n ih =>
    rw [many, manyAfter, manyAfter]
    cases read c with
    | error e => rfl
    | ok result =>
      show manyAfter read (result.1 :: before) n result.2 =
        (manyAfter read [result.1] n result.2).map _
      rw [ih, ih [result.1]]
      cases many read n result.2 <;> simp [Except.map]

@[simp] theorem many_zero {α : Type} (read : Cursor → Except DecodeError (α × Cursor))
    (c : Cursor) : many read 0 c = .ok ([], c) := rfl

/-- Reading once more than `n` times is to read once, and then `n` times. -/
theorem many_succ {α : Type} (read : Cursor → Except DecodeError (α × Cursor)) (n : Nat)
    (c : Cursor) :
    many read (n + 1) c = do
      let (a, c) ← read c
      let (results, c) ← many read n c
      return (a :: results, c) := by
  rw [many, manyAfter]
  cases read c with
  | error e => rfl
  | ok result =>
    show manyAfter read [result.1] n result.2 = _
    rw [manyAfter_eq]
    cases h : many read n result.2 <;>
      simp [h, bind, Except.bind, Except.map, pure, Except.pure]

end Cursor

/-! ## Scripts of reads -/

/-- A kind of read: so many bytes, a number of one, four or eight bytes, or a length prefix. -/
inductive Read where
  | bytes (n : Nat)
  | u8
  | u32
  | u64
  | length
deriving DecidableEq, Repr

/-- What a read hands out. -/
inductive Field where
  | bytes (bytes : List UInt8)
  | number (n : UInt64)
deriving DecidableEq, Repr

namespace Read

/-- How many bytes a read takes. -/
def width : Read → Nat
  | .bytes n => n
  | .u8 => 1
  | .u32 => 4
  | .u64 => 8
  | .length => 4

/-- What the bytes of a read stand for. -/
def interpret : Read → List UInt8 → Field
  | .bytes _, bs => .bytes bs
  | _, bs => .number (LittleEndian.decode bs)

/-- One read: what it hands out and where the cursor then stands. -/
def run (r : Read) (c : Cursor) : Except DecodeError Field × Cursor :=
  match c.take r.width with
  | .ok (bs, c') => (.ok (r.interpret bs), c')
  | .error e => (.error e, c)

/-- Reads in order, each with its outcome and the cursor after it. -/
def runAll : List Read → Cursor → List (Except DecodeError Field × Cursor)
  | [], _ => []
  | r :: rs, c =>
    let outcome := r.run c
    outcome :: runAll rs outcome.2

end Read

end ChainedSet.Wire
