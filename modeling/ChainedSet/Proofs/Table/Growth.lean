import ChainedSet.Proofs.Checked.Operations
import ChainedSet.Proofs.Table.Order

/-!
# Growth splits chains

Growth takes the keys out of the old buckets one after the other and puts each at the end of its new
bucket. What is in the new buckets on the way are the keys so far, sorted by their new home and in
the order in which they came (`getElem?_foldl_modify`). Since the number of buckets doubles, a key
of bucket `i` has bucket `i` or bucket `i + capacity` as its new home (`Murmur.slot_double_cases`),
and no other bucket has keys that go there. So every chain is split in two, and each part is in the
old order (`grow_splits_chains`).

This asks for no more of a table than that every key is at home. Its capacity, its size and its load
may be what they like, and keys may stand in it more than once.
-/

namespace ChainedSet

/-- In twice as many buckets a key stays where it is, or moves up by the old number of buckets. -/
theorem Murmur.slot_double_cases {capacity : Nat} (h : 0 < capacity) (seed : UInt64) (key : Key) :
    slot seed (2 * capacity) key = slot seed capacity key ∨
      slot seed (2 * capacity) key = slot seed capacity key + capacity := by
  have hlt : slot seed (2 * capacity) key < 2 * capacity := slot_lt (by omega) seed key
  rw [← slot_double_mod seed capacity key]
  rcases Nat.lt_or_ge (slot seed (2 * capacity) key) capacity with hlow | hhigh
  · exact Or.inl (Nat.mod_eq_of_lt hlow).symm
  · right
    rw [Nat.mod_eq_sub_mod hhigh, Nat.mod_eq_of_lt (by omega), Nat.sub_add_cancel hhigh]

/-- Keys of one bucket can be told apart by which of two buckets they go to. -/
theorem filter_append_filter_perm {seed : UInt64} {capacity bucket : Nat} (hpos : 0 < capacity)
    {keys : List Key} (hhome : ∀ key ∈ keys, Murmur.slot seed capacity key = bucket) :
    ((keys.filter fun key => Murmur.slot seed (2 * capacity) key = bucket) ++
      keys.filter fun key =>
        Murmur.slot seed (2 * capacity) key = bucket + capacity).Perm keys := by
  have hhigh : (keys.filter fun key => Murmur.slot seed (2 * capacity) key = bucket + capacity) =
      keys.filter fun key => !decide (Murmur.slot seed (2 * capacity) key = bucket) := by
    apply List.filter_congr
    intro key hkey
    rcases Murmur.slot_double_cases hpos seed key with hslot | hslot <;>
      simp [hslot, hhome key hkey, Nat.pos_iff_ne_zero.mp hpos]
  rw [hhigh]
  exact List.filter_append_perm _ keys

namespace Table

/-- **Growth splits every chain in two, stably.** The keys of bucket `i` of a table in which every
key is at home go to the buckets `i` and `i + capacity`, each as often as it was there, to the one
that is its home, and in their old order. Neither the number of keys nor the seed changes, and
nothing on the way is out of range. -/
theorem grow_splits_chains {t : Table} (hpos : 0 < t.capacity) (hlt : t.capacity < 2 ^ 63)
    (hsize : t.buckets.size = t.capacity)
    (hhome : ∀ bucket < t.capacity, ∀ key ∈ (t.chain bucket).keys,
      Murmur.slot t.seed t.capacity key = bucket) :
    Checked.grow t = .ok t.grow ∧ t.grow.capacity = 2 * t.capacity ∧
      t.grow.buckets.size = 2 * t.capacity ∧ t.grow.size = t.size ∧ t.grow.seed = t.seed ∧
      ∀ bucket < t.capacity,
        let old := (t.chain bucket).keys
        let low := (t.grow.chain bucket).keys
        let high := (t.grow.chain (bucket + t.capacity)).keys
        (low ++ high).Perm old ∧
          low = old.filter (fun key => Murmur.slot t.seed (2 * t.capacity) key = bucket) ∧
          high = old.filter fun key =>
            Murmur.slot t.seed (2 * t.capacity) key = bucket + t.capacity := by
  have hlength : t.rows.length = t.capacity := by rw [length_rows, hsize]
  have hrows : ∀ bucket row, t.rows[bucket]? = some row →
      ∀ key ∈ row, Murmur.slot t.seed t.capacity key = bucket := by
    intro bucket row hrow key hkey
    have hbucket : bucket < t.capacity := by
      rw [← hlength]
      exact (List.getElem?_eq_some_iff.mp hrow).1
    apply hhome bucket hbucket
    rwa [keys_chain, ← getElem?_rows, hrow, Option.getD_some]
  refine ⟨Checked.grow_eq_ok hpos (by omega), rfl, t.size_buckets_grow, rfl, rfl, ?_⟩
  intro bucket hbucket old low high
  have hlow : low = old.filter fun key => Murmur.slot t.seed (2 * t.capacity) key = bucket := by
    have hsplit := keys_chain_grow_of_home hpos hlength hrows (by omega : bucket < 2 * t.capacity)
    rwa [Nat.mod_eq_of_lt hbucket] at hsplit
  have hhigh : high =
      old.filter fun key => Murmur.slot t.seed (2 * t.capacity) key = bucket + t.capacity := by
    have hsplit := keys_chain_grow_of_home hpos hlength hrows
      (by omega : bucket + t.capacity < 2 * t.capacity)
    rwa [Nat.add_mod_right, Nat.mod_eq_of_lt hbucket] at hsplit
  refine ⟨?_, hlow, hhigh⟩
  rw [hlow, hhigh]
  exact filter_append_filter_perm hpos (hhome bucket hbucket)

/-- Five buckets with a key that stands there twice, and with a wrong size. -/
theorem grow_splits_chains_crowded :
    let keys : List Key := [7] :: (List.range 20).map fun n => [UInt8.ofNat n]
    let t : Table := ⟨9, 5, 0, scatter 9 5 keys⟩
    let bucket := t.home [7]
    (∀ bucket < t.capacity, ∀ key ∈ (t.chain bucket).keys,
      Murmur.slot t.seed t.capacity key = bucket) ∧ t.grow.capacity = 10 ∧
      (t.chain bucket).keys.count [7] = 2 ∧
      ((t.grow.chain bucket).keys ++ (t.grow.chain (bucket + 5)).keys).Perm
        (t.chain bucket).keys := by
  intro keys t bucket
  have hhome : ∀ bucket < t.capacity, ∀ key ∈ (t.chain bucket).keys,
      Murmur.slot t.seed t.capacity key = bucket := by decide +kernel
  have hbucket : bucket < t.capacity := by decide +kernel
  obtain ⟨-, hcapacity, -, -, -, hsplit⟩ :=
    grow_splits_chains (t := t) (by decide) (by decide) (by decide +kernel) hhome
  exact ⟨hhome, hcapacity, by decide +kernel, (hsplit bucket hbucket).1⟩

end Table

end ChainedSet
