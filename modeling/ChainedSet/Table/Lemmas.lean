import ChainedSet.Table.Basic

/-!
# Views of a table

What each operation does to the chains, to the list of all keys and to the numbers of a table. The
law behind growth is `getElem?_scatter`: keys that are laid out afresh stand in every bucket in
the order in which they came.
-/

namespace ChainedSet.Table

/-! ## Buckets -/

/-- The keys of a bucket are the keys of its entry in the array, and none outside the array. -/
theorem keys_chain (t : Table) (bucket : Nat) :
    (t.chain bucket).keys = (t.buckets[bucket]?.map Chain.keys).getD [] := by
  rw [chain, Array.getD_eq_getD_getElem?]
  cases t.buckets[bucket]? <;> rfl

/-! ## Laying keys out -/

@[simp] theorem size_scatter (seed : UInt64) (capacity : Nat) (keys : List Key) :
    (scatter seed capacity keys).size = capacity := by
  suffices h : ∀ buckets : Array Chain, buckets.size = capacity →
      (keys.foldl (fun buckets key => buckets.modify (Murmur.slot seed capacity key) (·.push key))
        buckets).size = capacity from h _ Array.size_replicate
  induction keys with
  | nil =>
    intro buckets h
    exact h
  | cons key keys ih =>
    intro buckets h
    exact ih _ (by rw [Array.size_modify, h])

/-- Keys that are laid out one by one are added to their buckets in the order in which they come. -/
theorem getElem?_foldl_modify (seed : UInt64) (capacity bucket : Nat) (keys : List Key)
    (buckets : Array Chain) :
    ((keys.foldl (fun buckets key => buckets.modify (Murmur.slot seed capacity key) (·.push key))
        buckets)[bucket]?).map Chain.keys =
      (buckets[bucket]?).map fun c =>
        c.keys ++ keys.filter fun key => Murmur.slot seed capacity key = bucket := by
  induction keys generalizing buckets with
  | nil => simp
  | cons key keys ih =>
    rw [List.foldl_cons, ih, Array.getElem?_modify]
    by_cases h : Murmur.slot seed capacity key = bucket
    · simp [h, Function.comp_def]
    · simp [h]

/-- **A fresh layout keeps the order.** In every bucket stand the keys whose home it is, in the
order in which they were given. -/
theorem getElem?_scatter (seed : UInt64) (capacity : Nat) (keys : List Key) {bucket : Nat}
    (h : bucket < capacity) :
    ((scatter seed capacity keys)[bucket]?).map Chain.keys =
      some (keys.filter fun key => Murmur.slot seed capacity key = bucket) := by
  rw [scatter, getElem?_foldl_modify]
  simp [h]

/-! ## Numbers -/

@[simp] theorem seed_grow (t : Table) : t.grow.seed = t.seed := rfl

@[simp] theorem capacity_grow (t : Table) : t.grow.capacity = 2 * t.capacity := rfl

@[simp] theorem size_grow (t : Table) : t.grow.size = t.size := rfl

@[simp] theorem size_buckets_grow (t : Table) : t.grow.buckets.size = 2 * t.capacity :=
  size_scatter _ _ _

@[simp] theorem seed_place (t : Table) (key : Key) : (t.place key).seed = t.seed := rfl

@[simp] theorem capacity_place (t : Table) (key : Key) : (t.place key).capacity = t.capacity := rfl

@[simp] theorem size_place (t : Table) (key : Key) : (t.place key).size = t.size + 1 := rfl

@[simp] theorem size_buckets_place (t : Table) (key : Key) :
    (t.place key).buckets.size = t.buckets.size :=
  Array.size_modify

/-! ## The empty set -/

@[simp] theorem toList_withSeed (seed : UInt64) : (withSeed seed).toList = [] := by
  simp [toList, withSeed, List.flatMap_replicate]

@[simp] theorem size_withSeed (seed : UInt64) : (withSeed seed).size = 0 := rfl

/-! ## Copies -/

@[simp] theorem toList_clone (t : Table) : t.clone.toList = t.toList := by
  simp [toList, clone, List.flatMap_map]

end ChainedSet.Table
