import Mathlib.Data.List.Nodup
import ChainedSet.Proofs.Murmur.Mixing

/-!
# Keys that no seed tells apart

A block has a twin: the one that is scrambled to the same word but for the top bit. Where a block
gives way to its twin, the state differs in the top bit and in no other, whatever the seed, and it
goes on to differ like that until the next block that gives way to its twin undoes it. So the twins
of an even number of blocks leave the hash as it is under every seed
(`hash_eq_of_mem_twinned`). From a key with `n` whole blocks come `2 ^ (n - 1)` keys of the same
length in this way, the key itself among them; a table keeps all of them in one chain, whatever its
seed and its capacity.

A random seed is therefore no protection from keys that are chosen with this in mind.
-/

namespace ChainedSet.Murmur

/-! ## Twins -/

/-- The block that is scrambled to the same word but for the top bit. -/
def twin (block : UInt64) : UInt64 := unscramble (scramble block ^^^ topBit)

theorem scramble_twin (block : UInt64) : scramble (twin block) = scramble block ^^^ topBit :=
  scramble_unscramble _

theorem twin_ne (block : UInt64) : twin block ≠ block := by
  intro h
  apply xor_topBit_ne (scramble block)
  rw [← scramble_twin, h]

theorem absorb_twin (state block : UInt64) :
    absorb state (twin block) = absorb state block ^^^ topBit := by
  rw [absorb, scramble_twin, ← UInt64.xor_assoc, mul_multiplier_xor_topBit, absorb]

/-- The bytes of the twin of a block. -/
def twinBytes (block : List UInt8) : List UInt8 :=
  LittleEndian.encode 8 (twin (LittleEndian.decode block))

theorem length_twinBytes (block : List UInt8) : (twinBytes block).length = 8 :=
  LittleEndian.length_encode _ _

theorem decode_twinBytes (block : List UInt8) :
    LittleEndian.decode (twinBytes block) = twin (LittleEndian.decode block) :=
  LittleEndian.decode_encode (Nat.le_refl 8) (UInt64.toNat_lt _)

theorem twinBytes_ne (block : List UInt8) : twinBytes block ≠ block := by
  intro h
  apply twin_ne (LittleEndian.decode block)
  rw [← decode_twinBytes, h]

/-! ## Keys with twins in them -/

/-- The keys that come from a key if an odd number, or an even number, of its whole blocks give way
to their twins. -/
def twinned : Bool → Key → List Key
  | odd, b0 :: b1 :: b2 :: b3 :: b4 :: b5 :: b6 :: b7 :: rest =>
    let block := [b0, b1, b2, b3, b4, b5, b6, b7]
    (twinned odd rest).map (block ++ ·) ++ (twinned (!odd) rest).map (twinBytes block ++ ·)
  | false, tail => [tail]
  | true, _ => []

theorem twinned_append {block : List UInt8} (h : block.length = 8) (odd : Bool) (rest : Key) :
    twinned odd (block ++ rest) =
      (twinned odd rest).map (block ++ ·) ++ (twinned (!odd) rest).map (twinBytes block ++ ·) := by
  match block, h with
  | [b0, b1, b2, b3, b4, b5, b6, b7], _ => cases odd <;> rfl

theorem twinned_of_lt {tail : Key} (h : tail.length < 8) (odd : Bool) :
    twinned odd tail = if odd then [] else [tail] := by
  have hblock : ∀ b0 b1 b2 b3 b4 b5 b6 b7 rest,
      tail = b0 :: b1 :: b2 :: b3 :: b4 :: b5 :: b6 :: b7 :: rest → False := by
    rintro b0 b1 b2 b3 b4 b5 b6 b7 rest rfl
    simp only [List.length_cons] at h
    omega
  cases odd with
  | false =>
    rw [twinned]
    · rfl
    · exact hblock
  | true =>
    rw [twinned]
    · rfl
    · exact hblock

/-- A member either keeps the first block or has its twin. -/
theorem mem_twinned_append {block : List UInt8} (h : block.length = 8) {odd : Bool}
    {rest other : Key} :
    other ∈ twinned odd (block ++ rest) ↔
      (∃ rest' ∈ twinned odd rest, block ++ rest' = other) ∨
        ∃ rest' ∈ twinned (!odd) rest, twinBytes block ++ rest' = other := by
  rw [twinned_append h, List.mem_append, List.mem_map, List.mem_map]

/-- An odd number of twins flips the top bit of the state, and an even number nothing. -/
theorem absorbAll_of_mem_twinned {odd : Bool} {key other : Key} (h : other ∈ twinned odd key)
    (state : UInt64) :
    absorbAll state other =
      if odd then absorbAll state key ^^^ topBit else absorbAll state key := by
  induction key using blockInduction generalizing odd other state with
  | short tail hshort =>
    rw [twinned_of_lt hshort] at h
    cases odd with
    | false => rw [List.mem_singleton.mp h, if_neg Bool.false_ne_true]
    | true => cases h
  | block block rest hblock ih =>
    rw [absorbAll_append hblock]
    rcases (mem_twinned_append hblock).mp h with ⟨rest', hrest, rfl⟩ | ⟨rest', hrest, rfl⟩
    · rw [absorbAll_append hblock, ih hrest]
    · rw [absorbAll_append (length_twinBytes block), decode_twinBytes, absorb_twin,
        absorbAll_xor_topBit, ih hrest]
      -- The bit that this twin flips is flipped back, or was not flipped yet.
      cases odd with
      | false => exact xor_topBit_xor_topBit _
      | true => rfl

theorem length_of_mem_twinned {odd : Bool} {key other : Key} (h : other ∈ twinned odd key) :
    other.length = key.length := by
  induction key using blockInduction generalizing odd other with
  | short tail hshort =>
    rw [twinned_of_lt hshort] at h
    cases odd with
    | false => rw [List.mem_singleton.mp h]
    | true => cases h
  | block block rest hblock ih =>
    rw [List.length_append, hblock]
    rcases (mem_twinned_append hblock).mp h with ⟨rest', hrest, rfl⟩ | ⟨rest', hrest, rfl⟩
    · rw [List.length_append, hblock, ih hrest]
    · rw [List.length_append, length_twinBytes, ih hrest]

theorem nodup_twinned (odd : Bool) (key : Key) : (twinned odd key).Nodup := by
  induction key using blockInduction generalizing odd with
  | short tail hshort =>
    rw [twinned_of_lt hshort]
    cases odd <;> simp
  | block block rest hblock ih =>
    rw [twinned_append hblock]
    apply List.Nodup.append
    · exact (ih odd).map (List.append_right_injective block)
    · exact (ih (!odd)).map (List.append_right_injective (twinBytes block))
    · -- A key in both would begin with the block and with its twin.
      intro other hkept htwin
      obtain ⟨_, -, rfl⟩ := List.mem_map.mp hkept
      obtain ⟨_, -, heq⟩ := List.mem_map.mp htwin
      have hlength : (twinBytes block).length = block.length := by
        rw [length_twinBytes, hblock]
      exact twinBytes_ne block (List.append_inj_left heq hlength)

/-- Once there is a block, as many choices of blocks are odd as are even. -/
theorem length_twinned (odd : Bool) (key : Key) :
    (twinned odd key).length =
      if key.length < 8 then (if odd then 0 else 1) else 2 ^ (key.length / 8 - 1) := by
  induction key using blockInduction generalizing odd with
  | short tail hshort =>
    rw [twinned_of_lt hshort, if_pos hshort]
    cases odd <;> rfl
  | block block rest hblock ih =>
    have hlong : ¬ (block ++ rest).length < 8 := by simp [hblock]
    have hblocks : (block ++ rest).length / 8 - 1 = rest.length / 8 := by
      rw [List.length_append, hblock]
      omega
    rw [twinned_append hblock, List.length_append, List.length_map, List.length_map, ih, ih,
      if_neg hlong, hblocks]
    by_cases hshort : rest.length < 8
    · rw [if_pos hshort, if_pos hshort, Nat.div_eq_of_lt hshort]
      cases odd <;> rfl
    · obtain ⟨n, hn⟩ : ∃ n, rest.length / 8 = n + 1 := ⟨rest.length / 8 - 1, by omega⟩
      rw [if_neg hshort, if_neg hshort, hn, Nat.pow_succ, Nat.add_sub_cancel, Nat.mul_two]

theorem self_mem_twinned (key : Key) : key ∈ twinned false key := by
  induction key using blockInduction with
  | short tail hshort =>
    rw [twinned_of_lt hshort]
    exact List.mem_singleton_self tail
  | block block rest hblock ih =>
    exact (mem_twinned_append hblock).mpr (Or.inl ⟨rest, ih, rfl⟩)

/-! ## Keys that no seed tells apart -/

/-- **For a key with `n` whole blocks there are `2 ^ (n - 1)` keys of its length, itself among them,
with the same hash under every seed.** -/
theorem hash_eq_of_mem_twinned (key : Key) :
    key ∈ twinned false key ∧ (twinned false key).Nodup ∧
      (twinned false key).length = 2 ^ (key.length / 8 - 1) ∧
      ∀ other ∈ twinned false key,
        other.length = key.length ∧ ∀ seed, hash seed other = hash seed key := by
  refine ⟨self_mem_twinned key, nodup_twinned false key, ?_, ?_⟩
  · rw [length_twinned]
    by_cases hshort : key.length < 8
    · rw [if_pos hshort, Nat.div_eq_of_lt hshort]
      rfl
    · rw [if_neg hshort]
  · intro other hother
    have hlength := length_of_mem_twinned hother
    refine ⟨hlength, ?_⟩
    intro seed
    rw [hash, hash, hlength, absorbAll_of_mem_twinned hother, if_neg Bool.false_ne_true]

/-- **Not every two keys are told apart by some seed**: sixteen zeros and the twins of two blocks of
zeros have one hash under all of them. -/
theorem exists_keys_without_separating_seed :
    let zeros : Key := List.replicate 16 0
    let twins : Key := [0, 0, 0xbd, 0x19, 0x9b, 0xe5, 0xa7, 0x8e, 0, 0, 0xbd, 0x19, 0x9b, 0xe5, 0xa7,
      0x8e]
    zeros ≠ twins ∧ ¬ ∃ seed, hash seed zeros ≠ hash seed twins := by
  intro zeros twins
  refine ⟨by decide, ?_⟩
  rintro ⟨seed, hseed⟩
  apply hseed
  have hmem : twins ∈ twinned false zeros := by decide +kernel
  have hlength : twins.length = zeros.length := rfl
  rw [hash, hash, hlength, absorbAll_of_mem_twinned hmem, if_neg Bool.false_ne_true]

end ChainedSet.Murmur
