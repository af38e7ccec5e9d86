import Mathlib.Logic.Function.Basic
import ChainedSet.Proofs.Murmur.Mixing

/-!
# What the hash keeps apart

No step of the hash loses anything. Folding and multiplying can be undone, and so can mixing a word
into the state, whether the state is asked for or the word. So a key never has one hash under two
seeds, and two keys of one length never have one hash if all their differences lie within one block
or within the tail (`hash_injective_within_block`): the states differ once these bytes are absorbed
(`eq_of_absorbAll_eq`), and what comes after them is the same in both keys
(`absorbAll_left_injective`).

This is as far as it goes. A difference in one block may be undone by a difference in a later one,
and there are keys with which that happens under every seed (`twinned`).
-/

namespace ChainedSet

/-- At most eight bytes are settled by their number, once it is known how many they are. -/
theorem LittleEndian.eq_of_decode_eq {bs cs : List UInt8} (hlength : bs.length = cs.length)
    (hshort : bs.length ≤ 8) (h : decode bs = decode cs) : bs = cs := by
  have hshort' : cs.length ≤ 8 := by omega
  rw [← encode_decode hshort, h, hlength, encode_decode hshort']

namespace Murmur

/-! ## Steps -/

theorem fold_injective : Function.Injective fold :=
  Function.LeftInverse.injective fold_fold

theorem mul_multiplier_injective : Function.Injective (· * multiplier) := by
  apply Function.LeftInverse.injective (g := (· * inverse))
  intro w
  show w * multiplier * inverse = w
  rw [UInt64.mul_assoc, UInt64.mul_comm multiplier, ← UInt64.mul_assoc,
    mul_inverse_mul_multiplier]

theorem scramble_injective : Function.Injective scramble :=
  mul_multiplier_injective.comp (fold_injective.comp mul_multiplier_injective)

theorem finish_injective : Function.Injective finish :=
  fold_injective.comp (mul_multiplier_injective.comp fold_injective)

theorem start_injective (length : Nat) : Function.Injective (start · length) :=
  fun _ _ h => (UInt64.xor_left_inj _).mp h

/-- A word is mixed into the state so that the state before is settled by the one after. -/
theorem mix_left_injective (w : UInt64) :
    Function.Injective fun state => (state ^^^ w) * multiplier :=
  mul_multiplier_injective.comp fun _ _ h => (UInt64.xor_left_inj w).mp h

/-- A word is mixed into the state so that the word is settled by the states. -/
theorem mix_right_injective (state : UInt64) :
    Function.Injective fun w => (state ^^^ w) * multiplier :=
  mul_multiplier_injective.comp fun _ _ h => (UInt64.xor_right_inj state).mp h

theorem absorb_left_injective (block : UInt64) : Function.Injective (absorb · block) :=
  mix_left_injective (scramble block)

theorem absorb_right_injective (state : UInt64) : Function.Injective (absorb state) :=
  (mix_right_injective state).comp scramble_injective

/-- **Two states never meet again** while they absorb the same bytes. -/
theorem absorbAll_left_injective (key : Key) : Function.Injective (absorbAll · key) := by
  induction key using blockInduction with
  | short tail hshort =>
    intro state state' h
    simp only [absorbAll_of_lt hshort] at h
    by_cases hnil : tail = []
    · rwa [if_pos hnil, if_pos hnil] at h
    · rw [if_neg hnil, if_neg hnil] at h
      exact mix_left_injective _ h
  | block block rest hblock ih =>
    intro state state' h
    simp only [absorbAll_append hblock] at h
    exact absorb_left_injective _ (ih h)

/-! ## Keys that differ within one block -/

/-- Two keys of one length that are the same outside the eight bytes from byte `8 * n` on. These are
a whole block, or the tail if fewer bytes are left. -/
structure AgreeOutside (n : Nat) (key other : Key) : Prop where
  length_eq : key.length = other.length
  getElem?_eq : ∀ i, i / 8 ≠ n → key[i]? = other[i]?

namespace AgreeOutside

variable {n : Nat} {block block' : List UInt8} {rest rest' : Key}

/-- What stands behind a block stands one block earlier in the rest. -/
theorem getElem?_rest (h : AgreeOutside n (block ++ rest) (block' ++ rest'))
    (hblock : block.length = 8) (hblock' : block'.length = 8) {i : Nat} (hi : i / 8 + 1 ≠ n) :
    rest[i]? = rest'[i]? := by
  have hsame := h.getElem?_eq (8 + i) (by omega)
  rwa [List.getElem?_append_right (by omega), List.getElem?_append_right (by omega), hblock,
    hblock', Nat.add_sub_cancel_left] at hsame

theorem rest_eq (h : AgreeOutside 0 (block ++ rest) (block' ++ rest')) (hblock : block.length = 8)
    (hblock' : block'.length = 8) : rest = rest' :=
  List.ext_getElem? fun i => h.getElem?_rest hblock hblock' (Nat.succ_ne_zero (i / 8))

theorem block_eq (h : AgreeOutside (n + 1) (block ++ rest) (block' ++ rest'))
    (hblock : block.length = 8) (hblock' : block'.length = 8) :
    block = block' ∧ AgreeOutside n rest rest' := by
  have hlength := h.length_eq
  rw [List.length_append, List.length_append] at hlength
  refine ⟨?_, by omega, fun i hi => h.getElem?_rest hblock hblock' (by omega)⟩
  apply List.ext_getElem?
  intro i
  by_cases hi : i < 8
  · have hsame := h.getElem?_eq i (by omega)
    rwa [List.getElem?_append_left (by omega), List.getElem?_append_left (by omega)] at hsame
  · rw [List.getElem?_eq_none (by omega), List.getElem?_eq_none (by omega)]

end AgreeOutside

/-- A byte that is changed belongs to the block that its number, divided by eight, names. -/
theorem agreeOutside_set (key : Key) (i : Nat) (b : UInt8) :
    AgreeOutside (i / 8) key (key.set i b) where
  length_eq := List.length_set.symm
  getElem?_eq := by
    intro j hj
    have hij : i ≠ j := by
      rintro rfl
      exact hj rfl
    exact (List.getElem?_set_ne hij).symm

/-- Keys of at most eight bytes are one block, or one tail. -/
theorem agreeOutside_zero {key other : Key} (hlength : key.length = other.length)
    (hshort : key.length ≤ 8) : AgreeOutside 0 key other where
  length_eq := hlength
  getElem?_eq := by
    intro i hi
    rw [List.getElem?_eq_none (by omega), List.getElem?_eq_none (by omega)]

/-- **A difference within one block, or within the tail, is never lost.** -/
theorem eq_of_absorbAll_eq {n : Nat} {key other : Key} (h : AgreeOutside n key other)
    {state : UInt64} (heq : absorbAll state key = absorbAll state other) : key = other := by
  induction key using blockInduction generalizing n other state with
  | short tail hshort =>
    have hlength := h.length_eq
    have hshort' : other.length < 8 := by omega
    rw [absorbAll_of_lt hshort, absorbAll_of_lt hshort'] at heq
    by_cases hnil : tail = []
    · rw [hnil, List.length_nil] at hlength
      rw [hnil, List.length_eq_zero_iff.mp hlength.symm]
    · have hnil' : other ≠ [] := by
        rintro rfl
        exact hnil (List.length_eq_zero_iff.mp hlength)
      rw [if_neg hnil, if_neg hnil'] at heq
      exact LittleEndian.eq_of_decode_eq hlength (by omega) (mix_right_injective state heq)
  | block block rest hblock ih =>
    have hlength := h.length_eq
    rw [List.length_append, hblock] at hlength
    obtain ⟨block', rest', rfl, hblock'⟩ :
        ∃ block' rest', other = block' ++ rest' ∧ block'.length = 8 :=
      ⟨other.take 8, other.drop 8, (List.take_append_drop 8 other).symm,
        List.length_take_of_le (by omega)⟩
    rw [absorbAll_append hblock, absorbAll_append hblock'] at heq
    cases n with
    | zero =>
      -- The rest is the same, so the states before it are, and then the blocks.
      obtain rfl := h.rest_eq hblock hblock'
      have hword := absorb_right_injective state (absorbAll_left_injective rest heq)
      rw [LittleEndian.eq_of_decode_eq (by omega) (by omega) hword]
    | succ n =>
      obtain ⟨rfl, hrest⟩ := h.block_eq hblock hblock'
      rw [ih hrest heq]

/-! ## Hashes -/

theorem eq_of_hash_eq {n : Nat} {key other : Key} (h : AgreeOutside n key other) {seed : UInt64}
    (heq : hash seed key = hash seed other) : key = other := by
  have hstate := finish_injective heq
  rw [← h.length_eq] at hstate
  exact eq_of_absorbAll_eq h hstate

/-- **The hash loses nothing within one block, and nothing of the seed.** Keys of one length that
differ, and only within one block or the tail, have different hashes under every seed; so have any
two keys of one length up to eight bytes; and a key has different hashes under different seeds. -/
theorem hash_injective_within_block :
    (∀ seed n key other, AgreeOutside n key other → key ≠ other →
      hash seed key ≠ hash seed other) ∧
    (∀ seed key other, key.length = other.length → key.length ≤ 8 → key ≠ other →
      hash seed key ≠ hash seed other) ∧
    ∀ key seed seed', seed ≠ seed' → hash seed key ≠ hash seed' key := by
  refine ⟨?_, ?_, ?_⟩
  · intro seed n key other h hne heq
    exact hne (eq_of_hash_eq h heq)
  · intro seed key other hlength hshort hne heq
    exact hne (eq_of_hash_eq (agreeOutside_zero hlength hshort) heq)
  · intro key seed seed' hne heq
    exact hne (start_injective key.length (absorbAll_left_injective key (finish_injective heq)))

/-- Keys of two blocks and a tail that differ in the top bit of the first block, or in the last byte
only, and the seeds that differ in one bit. -/
theorem hash_injective_within_block_tail :
    let key : Key := (List.range 19).map UInt8.ofNat
    AgreeOutside 0 key (key.set 7 0x87) ∧ AgreeOutside 2 key (key.set 18 0) ∧
      hash 7 key ≠ hash 7 (key.set 7 0x87) ∧ hash 7 key ≠ hash 7 (key.set 18 0) ∧
      hash 7 key ≠ hash 6 key := by
  intro key
  have hblock : AgreeOutside 0 key (key.set 7 0x87) := agreeOutside_set key 7 0x87
  have htail : AgreeOutside 2 key (key.set 18 0) := agreeOutside_set key 18 0
  obtain ⟨hkeys, -, hseeds⟩ := hash_injective_within_block
  exact ⟨hblock, htail, hkeys 7 0 key _ hblock (by decide), hkeys 7 2 key _ htail (by decide),
    hseeds key 7 6 (by decide)⟩

end Murmur

end ChainedSet
