import ChainedSet.Proofs.Murmur.Mixing

/-!
# The hash by offsets

MurmurHash64A as it is published works on an array of bytes. A loop runs over the whole blocks, and
the `i`-th of them is the little-endian word at the offset `8 * i`. A switch on the number of bytes
left over then mixes these in, the last one first, as each case falls through to the one before it.
`Published.hash` says this with offsets and with the published numbers.

`hash` takes the key apart from its front and does not look anything up. It is the same function
(`hash_eq_published`): to run over the offsets of a key is to take a turn for its first block and
then to run over the offsets of the rest (`Published.loop_append`), and what the switch mixes in byte
by byte is one number (`Published.mixTail_zero`).
-/

namespace ChainedSet

namespace Murmur

namespace Published

/-! ## The algorithm -/

/-- The constant that every step multiplies by. -/
def m : UInt64 := 0xc6a4a7935bd1e995

/-- By how many bits a word is shifted before it is mixed with itself. -/
def r : UInt64 := 47

/-- The byte at an offset. The offsets of blocks and of bytes left over are all within the data. -/
def byte (data : Key) (offset : Nat) : UInt8 := data[offset]?.getD 0

/-- The little-endian word at an offset. -/
def word (data : Key) (offset : Nat) : UInt64 :=
  UInt64.ofNat (Nat.ofDigits 256 ((List.range 8).map fun j => (byte data (offset + j)).toNat))

/-- The state after the block with a given number. -/
def turn (data : Key) (h : UInt64) (i : Nat) : UInt64 :=
  let k := word data (8 * i)
  let k := k * m
  let k := k ^^^ (k >>> r)
  let k := k * m
  (h ^^^ k) * m

/-- The state after so many blocks. -/
def loop (data : Key) (blocks : Nat) (h : UInt64) : UInt64 :=
  (List.range blocks).foldl (turn data) h

/-- The state after the switch on the number of bytes left over from an offset on. The case of each
byte falls through to that of the byte before it. -/
def mixTail (data : Key) (offset : Nat) : Nat → UInt64 → UInt64
  | 0, h => h
  | t + 1, h =>
    mixTail data offset t (h ^^^ ((byte data (offset + t)).toUInt64 <<< UInt64.ofNat (8 * t)))

/-- The state after all of the data, before it is mixed for the last time. -/
def mixAll (data : Key) (h : UInt64) : UInt64 :=
  let blocks := data.length / 8
  let t := data.length % 8
  let h := loop data blocks h
  if 0 < t then mixTail data (8 * blocks) t h * m else h

/-- The hash of data under a seed. -/
def hash (seed : UInt64) (data : Key) : UInt64 :=
  let h := seed ^^^ (UInt64.ofNat data.length * m)
  let h := mixAll data h
  let h := h ^^^ (h >>> r)
  let h := h * m
  h ^^^ (h >>> r)

/-! ## Offsets in what follows a block -/

section Append

variable {block : List UInt8} (hblock : block.length = 8) (rest : Key)

include hblock

theorem byte_append (offset : Nat) : byte (block ++ rest) (8 + offset) = byte rest offset := by
  rw [byte, List.getElem?_append_right (by omega), hblock, Nat.add_sub_cancel_left, byte]

theorem word_append (offset : Nat) : word (block ++ rest) (8 + offset) = word rest offset := by
  simp only [word, Nat.add_assoc, byte_append hblock]

/-- The word at the front is the number of the first block. -/
theorem word_append_zero : word (block ++ rest) 0 = LittleEndian.decode block := by
  have hdigits : (List.range 8).map (fun j => (byte (block ++ rest) (0 + j)).toNat) =
      block.map UInt8.toNat := by
    match block, hblock with
    | [b0, b1, b2, b3, b4, b5, b6, b7], _ => rfl
  rw [word, hdigits, ← LittleEndian.toNat_decode (Nat.le_of_eq hblock), UInt64.ofNat_toNat]

theorem turn_append_zero (h : UInt64) :
    turn (block ++ rest) h 0 = absorb h (LittleEndian.decode block) := by
  rw [← word_append_zero hblock rest]
  rfl

theorem turn_append_succ (h : UInt64) (i : Nat) :
    turn (block ++ rest) h (i + 1) = turn rest h i := by
  have hword : word (block ++ rest) (8 * (i + 1)) = word rest (8 * i) := by
    rw [Nat.mul_succ, Nat.add_comm, word_append hblock]
  rw [turn, hword, turn]

/-- **The loop takes the first block and goes on with the rest.** -/
theorem loop_append (blocks : Nat) (h : UInt64) :
    loop (block ++ rest) (blocks + 1) h =
      loop rest blocks (absorb h (LittleEndian.decode block)) := by
  rw [loop, List.range_succ_eq_map, List.foldl_cons, List.foldl_map, turn_append_zero hblock]
  simp only [turn_append_succ hblock, loop]

theorem mixTail_append (offset t : Nat) (h : UInt64) :
    mixTail (block ++ rest) (8 + offset) t h = mixTail rest offset t h := by
  induction t generalizing h with
  | zero => rfl
  | succ t ih => rw [mixTail, mixTail, Nat.add_assoc, byte_append hblock, ih]

theorem mixAll_append (h : UInt64) :
    mixAll (block ++ rest) h = mixAll rest (absorb h (LittleEndian.decode block)) := by
  have hblocks : (block ++ rest).length / 8 = rest.length / 8 + 1 := by
    rw [List.length_append, hblock]
    omega
  have ht : (block ++ rest).length % 8 = rest.length % 8 := by
    rw [List.length_append, hblock]
    omega
  have hoffset : 8 * (rest.length / 8 + 1) = 8 + 8 * (rest.length / 8) := by omega
  simp only [mixAll, hblocks, ht, loop_append hblock, hoffset, mixTail_append hblock]

end Append

/-! ## The bytes left over -/

/-- **The switch mixes in one number**, that of the bytes that it takes one by one. -/
theorem mixTail_zero {data : Key} {t : Nat} (hlong : t ≤ data.length) (hshort : t ≤ 8)
    (h : UInt64) : mixTail data 0 t h = h ^^^ LittleEndian.decode (data.take t) := by
  induction t generalizing h with
  | zero => simp [mixTail, LittleEndian.decode]
  | succ t ih =>
    have hlength : (data.take t).length = t := List.length_take_of_le (by omega)
    have hbyte : byte data (0 + t) = data[t] := by
      rw [Nat.zero_add, byte, List.getElem?_eq_getElem (by omega), Option.getD_some]
    -- The byte that is taken first is the last digit, and the order of digits does not matter.
    rw [mixTail, hbyte, ih (by omega) (by omega), List.take_succ_eq_append_getElem (by omega),
      LittleEndian.decode_concat_eq_xor (by omega), hlength, UInt64.xor_assoc,
      UInt64.xor_comm (LittleEndian.decode (data.take t))]

theorem mixAll_of_lt {tail : Key} (hshort : tail.length < 8) (h : UInt64) :
    mixAll tail h =
      if tail = [] then h else (h ^^^ LittleEndian.decode tail) * multiplier := by
  simp only [mixAll, Nat.div_eq_of_lt hshort, Nat.mod_eq_of_lt hshort, Nat.mul_zero,
    mixTail_zero (Nat.le_refl _) (Nat.le_of_lt hshort), List.take_length]
  by_cases hnil : tail = []
  · rw [if_pos hnil, if_neg (by simp [hnil])]
    rfl
  · rw [if_neg hnil, if_pos (List.length_pos_iff.mpr hnil)]
    rfl

end Published

/-! ## The two ways of hashing -/

theorem absorbAll_eq_mixAll (state : UInt64) (key : Key) :
    absorbAll state key = Published.mixAll key state := by
  induction key using blockInduction generalizing state with
  | short tail hshort => rw [absorbAll_of_lt hshort, Published.mixAll_of_lt hshort]
  | block block rest hblock ih =>
    rw [absorbAll_append hblock, ih, Published.mixAll_append hblock]

/-- **The hash is the published one**, for every key and every seed. -/
theorem hash_eq_published (seed : UInt64) (key : Key) :
    hash seed key = Published.hash seed key := by
  rw [hash, absorbAll_eq_mixAll]
  rfl

-- One whole block and four bytes more: "hello world!".
example : Published.hash defaultSeed
    [0x68, 0x65, 0x6c, 0x6c, 0x6f, 0x20, 0x77, 0x6f, 0x72, 0x6c, 0x64, 0x21] =
    0xcd5000eeb8802072 := by
  decide +kernel

end Murmur

end ChainedSet
