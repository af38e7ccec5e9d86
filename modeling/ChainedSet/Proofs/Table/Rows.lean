import Mathlib.Data.List.Induction
import ChainedSet.Table.Lemmas
import ChainedSet.Table.Layout

/-!
# Rows

A table as the list of its rows, the keys of each bucket in chain order. Every operation acts on
the rows in one of three ways: it changes the row of one home, lays all keys out afresh, or leaves
the rows alone. `rows_place`, `rows_remove` and `rows_grow` say which, and the permutation lemmas
say what that does to the keys as a whole.
-/

namespace ChainedSet

/-! ## Changing one row -/

theorem flatten_modify_append_perm {rows : List (List Key)} {i : Nat} (h : i < rows.length)
    (key : Key) : (rows.modify i (· ++ [key])).flatten.Perm (key :: rows.flatten) := by
  obtain ⟨before, row, after, rfl, -, hmodify⟩ := List.exists_of_modify (· ++ [key]) h
  rw [hmodify]
  simp only [List.flatten_append, List.flatten_cons, List.append_assoc, List.singleton_append]
  exact ((List.perm_middle.append_left before.flatten).trans List.perm_middle)

/-- Taking a key out of the row that it is in takes it out of the keys. -/
theorem perm_cons_flatten_modify_erase {rows : List (List Key)} {i : Nat} {row : List Key}
    {key : Key} (hrow : rows[i]? = some row) (hkey : key ∈ row) :
    rows.flatten.Perm (key :: (rows.modify i (·.erase key)).flatten) := by
  obtain ⟨hi, hget⟩ := List.getElem?_eq_some_iff.mp hrow
  obtain ⟨before, row', after, rfl, hlen, hmodify⟩ := List.exists_of_modify (·.erase key) hi
  -- The row in the middle of the decomposition is the one that the key is in.
  obtain rfl : row' = row := by
    subst hlen
    simpa using hget
  rw [hmodify]
  simp only [List.flatten_append, List.flatten_cons]
  have hmove := (List.perm_cons_erase hkey).append_right after.flatten
  exact (hmove.append_left before.flatten).trans List.perm_middle

/-! ## Laying keys out afresh -/

/-- The rows of so many buckets, each with the keys whose home it is, in the order given. -/
def scatteredRows (seed : UInt64) (capacity : Nat) (keys : List Key) : List (List Key) :=
  (List.range capacity).map fun bucket =>
    keys.filter fun key => Murmur.slot seed capacity key = bucket

@[simp] theorem length_scatteredRows (seed : UInt64) (capacity : Nat) (keys : List Key) :
    (scatteredRows seed capacity keys).length = capacity := by
  simp [scatteredRows]

theorem getElem?_scatteredRows (seed : UInt64) {capacity bucket : Nat} (keys : List Key)
    (h : bucket < capacity) :
    (scatteredRows seed capacity keys)[bucket]? =
      some (keys.filter fun key => Murmur.slot seed capacity key = bucket) := by
  simp [scatteredRows, h]

theorem slot_of_mem_scatteredRows {seed : UInt64} {capacity : Nat} {keys : List Key} :
    ∀ bucket row, (scatteredRows seed capacity keys)[bucket]? = some row →
      ∀ key ∈ row, Murmur.slot seed capacity key = bucket := by
  intro bucket row hrow key hkey
  have hbucket : bucket < capacity := by
    rw [← length_scatteredRows seed capacity keys]
    exact (List.getElem?_eq_some_iff.mp hrow).1
  rw [getElem?_scatteredRows seed keys hbucket] at hrow
  obtain rfl := Option.some.inj hrow
  simpa using (List.mem_filter.mp hkey).2

theorem scatteredRows_concat (seed : UInt64) (capacity : Nat) (keys : List Key) (key : Key) :
    scatteredRows seed capacity (keys ++ [key]) =
      (scatteredRows seed capacity keys).modify (Murmur.slot seed capacity key) (· ++ [key]) := by
  apply List.ext_getElem?
  intro bucket
  rw [List.getElem?_modify]
  by_cases hbucket : bucket < capacity
  · rw [getElem?_scatteredRows seed _ hbucket, getElem?_scatteredRows seed _ hbucket]
    by_cases hslot : Murmur.slot seed capacity key = bucket <;> simp [hslot]
  · rw [List.getElem?_eq_none (by simpa using hbucket),
      List.getElem?_eq_none (by simpa using hbucket)]
    rfl

theorem scatteredRows_erase (seed : UInt64) (capacity : Nat) (keys : List Key) (key : Key) :
    scatteredRows seed capacity (keys.erase key) =
      (scatteredRows seed capacity keys).modify (Murmur.slot seed capacity key) (·.erase key) := by
  apply List.ext_getElem?
  intro bucket
  rw [List.getElem?_modify]
  by_cases hbucket : bucket < capacity
  · rw [getElem?_scatteredRows seed _ hbucket, getElem?_scatteredRows seed _ hbucket,
      ← List.erase_filter]
    by_cases hslot : Murmur.slot seed capacity key = bucket
    · simp [hslot]
    · have hnot : key ∉ keys.filter fun key => Murmur.slot seed capacity key = bucket := by
        simp [hslot]
      simp [hslot, List.erase_of_not_mem hnot]
  · rw [List.getElem?_eq_none (by simpa using hbucket),
      List.getElem?_eq_none (by simpa using hbucket)]
    rfl

/-- A fresh layout has the keys it was made of, each in one row. -/
theorem flatten_scatteredRows_perm (seed : UInt64) {capacity : Nat} (h : 0 < capacity)
    (keys : List Key) : (scatteredRows seed capacity keys).flatten.Perm keys := by
  induction keys using List.reverseRecOn with
  | nil => simp [scatteredRows]
  | append_singleton keys key ih =>
    have hslot : Murmur.slot seed capacity key < (scatteredRows seed capacity keys).length := by
      rw [length_scatteredRows]
      exact Murmur.slot_lt h seed key
    rw [scatteredRows_concat]
    exact (flatten_modify_append_perm hslot key).trans
      ((ih.cons key).trans (List.perm_append_singleton key keys).symm)

/-! ## The rows of a table -/

namespace Table

/-- The keys of every bucket, in chain order. -/
def rows (t : Table) : List (List Key) := t.buckets.toList.map Chain.keys

theorem toList_eq_flatten_rows (t : Table) : t.toList = t.rows.flatten := by
  rw [toList, rows, List.flatMap_def]

@[simp] theorem length_rows (t : Table) : t.rows.length = t.buckets.size := by
  simp [rows]

theorem getElem?_rows (t : Table) (bucket : Nat) :
    t.rows[bucket]? = t.buckets[bucket]?.map Chain.keys := by
  simp [rows]

theorem getElem?_buckets {t : Table} {bucket : Nat} (h : bucket < t.buckets.size) :
    t.buckets[bucket]? = some (t.chain bucket) := by
  rw [chain, Array.getElem?_eq_getElem h, Array.getElem_eq_getD Chain.empty]

/-- Looking a key up is looking for it in the row of its home. -/
theorem contains_iff_mem_row (t : Table) (key : Key) :
    t.contains key = true ↔ ∃ row, t.rows[t.home key]? = some row ∧ key ∈ row := by
  rw [contains, Chain.contains, keys_chain, ← getElem?_rows]
  cases t.rows[t.home key]? <;> simp

theorem map_keys_modify (buckets : Array Chain) (bucket : Nat) (f : Chain → Chain)
    (g : List Key → List Key) (h : ∀ c, (f c).keys = g c.keys) :
    (buckets.modify bucket f).toList.map Chain.keys =
      (buckets.toList.map Chain.keys).modify bucket g := by
  apply List.ext_getElem?
  intro i
  simp only [Array.toList_modify, List.getElem?_map, List.getElem?_modify]
  cases buckets.toList[i]? with
  | none => rfl
  | some c =>
    by_cases hi : bucket = i <;> simp [hi, h]

@[simp] theorem rows_withSeed (seed : UInt64) :
    (withSeed seed).rows = List.replicate Capacity.initialCapacity [] := by
  simp [rows, withSeed]

@[simp] theorem rows_clone (t : Table) : t.clone.rows = t.rows := by
  simp [rows, clone, Function.comp_def]

theorem rows_place (t : Table) (key : Key) :
    (t.place key).rows = t.rows.modify (t.home key) (· ++ [key]) :=
  map_keys_modify _ _ _ _ fun c => Chain.keys_push c key

theorem toList_place_perm {t : Table} {key : Key} (h : t.home key < t.buckets.size) :
    (t.place key).toList.Perm (key :: t.toList) := by
  rw [toList_eq_flatten_rows, toList_eq_flatten_rows, rows_place]
  exact flatten_modify_append_perm (by rwa [length_rows]) key

/-- **Growth** lays all keys out afresh, in the order in which the old table lists them. -/
theorem rows_grow (t : Table) :
    t.grow.rows = scatteredRows t.seed (2 * t.capacity) t.toList := by
  apply List.ext_getElem?
  intro bucket
  by_cases hbucket : bucket < 2 * t.capacity
  · rw [getElem?_scatteredRows _ _ hbucket, getElem?_rows]
    exact getElem?_scatter t.seed (2 * t.capacity) t.toList hbucket
  · rw [List.getElem?_eq_none (by simpa using hbucket),
      List.getElem?_eq_none (by simpa using hbucket)]

theorem toList_grow_perm {t : Table} (h : 0 < t.capacity) : t.grow.toList.Perm t.toList := by
  rw [toList_eq_flatten_rows, rows_grow]
  exact flatten_scatteredRows_perm t.seed (by omega) t.toList

end Table

end ChainedSet
