import ChainedSet.Proofs.Capacity.Load
import ChainedSet.Proofs.Table.Operations

/-!
# Well-formed tables

`WellPlaced` says what it is to be well-formed without saying how to check it. It is what every
operation on tables keeps (`Table.WellFormed`), and what the acceptance of layouts is measured
against (`Layout.WellFormed`).

Every operation keeps a table well-formed. The clauses hang together: a lookup scans one row only,
so that no key is stored twice rests on every key being in its home (`contains_iff`), and one
doubling is enough because the load clause held before the key was added (`WellFormed.insert`). The
lemmas on `WellPlaced` say the same of the rows alone, with each of the ways in which they change.
-/

namespace ChainedSet

/-! ## What it is to be well-formed -/

/-- Buckets that a set of `size` keys with `capacity` buckets may have. -/
structure WellPlaced (seed : UInt64) (capacity size : Nat) (buckets : List (List Key)) : Prop where
  /-- The capacity is the initial one times a power of two. -/
  regular : Capacity.Regular capacity
  /-- There are as many buckets as the capacity says. -/
  length_eq : buckets.length = capacity
  /-- Seven tenths of the buckets would do for one key each. -/
  load_le : 10 * size ≤ 7 * capacity
  /-- Every key is in its home. -/
  home_eq : ∀ bucket keys, buckets[bucket]? = some keys →
    ∀ key ∈ keys, Murmur.slot seed capacity key = bucket
  /-- No key occurs twice, in one bucket or in two. -/
  nodup : buckets.flatten.Nodup
  /-- The size is the number of keys. -/
  size_eq : size = buckets.flatten.length

/-- What every operation on tables keeps. -/
def Table.WellFormed (t : Table) : Prop :=
  WellPlaced t.seed t.capacity t.size (t.buckets.toList.map Chain.keys)

/-- What a layout has to be for a table to have it. -/
def Layout.WellFormed (l : Layout) : Prop :=
  WellPlaced l.seed l.capacity.toNat l.size.toNat l.buckets

/-! ## Rows -/

namespace WellPlaced

variable {seed : UInt64} {capacity size : Nat} {rows : List (List Key)}

theorem slot_lt (h : WellPlaced seed capacity size rows) (key : Key) :
    Murmur.slot seed capacity key < rows.length := by
  rw [h.length_eq]
  exact Murmur.slot_lt h.regular.pos seed key

/-- A key that is stored anywhere is stored in its home. -/
theorem mem_flatten_iff (h : WellPlaced seed capacity size rows) (key : Key) :
    key ∈ rows.flatten ↔ ∃ row, rows[Murmur.slot seed capacity key]? = some row ∧ key ∈ row := by
  rw [List.mem_flatten]
  constructor
  · rintro ⟨row, hrow, hkey⟩
    obtain ⟨bucket, hbucket⟩ := List.mem_iff_getElem?.mp hrow
    rw [h.home_eq bucket row hbucket key hkey]
    exact ⟨row, hbucket, hkey⟩
  · rintro ⟨row, hrow, hkey⟩
    exact ⟨row, List.mem_of_getElem? hrow, hkey⟩

/-- A row that is changed still has only keys whose home it is, if none but those are added. -/
theorem home_eq_modify (h : WellPlaced seed capacity size rows) {i : Nat}
    {f : List Key → List Key}
    (hf : ∀ row, ∀ key ∈ f row, key ∈ row ∨ Murmur.slot seed capacity key = i) :
    ∀ bucket row, (rows.modify i f)[bucket]? = some row →
      ∀ key ∈ row, Murmur.slot seed capacity key = bucket := by
  intro bucket row hrow key hkey
  rw [List.getElem?_modify] at hrow
  obtain ⟨old, hold, rfl⟩ := Option.map_eq_some_iff.mp hrow
  by_cases hi : i = bucket
  · rw [if_pos hi] at hkey
    rcases hf old key hkey with hmem | hslot
    · exact h.home_eq bucket old hold key hmem
    · rw [hslot, hi]
  · rw [if_neg hi] at hkey
    exact h.home_eq bucket old hold key hkey

theorem empty (seed : UInt64) :
    WellPlaced seed Capacity.initialCapacity 0
      (List.replicate Capacity.initialCapacity []) where
  regular := Capacity.regular_initialCapacity
  length_eq := List.length_replicate
  load_le := Nat.zero_le _
  home_eq := by
    intro bucket row hrow key hkey
    obtain rfl : row = [] := List.eq_of_mem_replicate (List.mem_of_getElem? hrow)
    cases hkey
  nodup := by simp
  size_eq := by simp

/-- A new key at the end of its home, where the load allows one more. -/
theorem push (h : WellPlaced seed capacity size rows) {key : Key} (hnew : key ∉ rows.flatten)
    (hload : 10 * (size + 1) ≤ 7 * capacity) :
    WellPlaced seed capacity (size + 1)
      (rows.modify (Murmur.slot seed capacity key) (· ++ [key])) where
  regular := h.regular
  length_eq := by rw [List.length_modify, h.length_eq]
  load_le := hload
  home_eq := by
    apply h.home_eq_modify
    intro row other hother
    rcases List.mem_append.mp hother with hother | hother
    · exact Or.inl hother
    · exact Or.inr (by rw [List.mem_singleton.mp hother])
  nodup := by
    rw [(flatten_modify_append_perm (h.slot_lt key) key).nodup_iff]
    exact List.nodup_cons.mpr ⟨hnew, h.nodup⟩
  size_eq := by
    rw [(flatten_modify_append_perm (h.slot_lt key) key).length_eq, List.length_cons, h.size_eq]

theorem erase (h : WellPlaced seed capacity size rows) {key : Key} (hkey : key ∈ rows.flatten) :
    WellPlaced seed capacity (size - 1)
      (rows.modify (Murmur.slot seed capacity key) (·.erase key)) := by
  obtain ⟨row, hrow, hmem⟩ := (h.mem_flatten_iff key).mp hkey
  have hperm := perm_cons_flatten_modify_erase hrow hmem
  exact {
    regular := h.regular
    length_eq := by rw [List.length_modify, h.length_eq]
    load_le := by have := h.load_le; omega
    home_eq := h.home_eq_modify fun row other hother => Or.inl (List.mem_of_mem_erase hother)
    nodup := (List.nodup_cons.mp (hperm.nodup_iff.mp h.nodup)).2
    size_eq := by rw [h.size_eq, hperm.length_eq, List.length_cons, Nat.add_sub_cancel] }

/-- Any keys, laid out afresh in enough buckets. -/
theorem scatter (seed : UInt64) {capacity : Nat} {keys : List Key}
    (hcap : Capacity.Regular capacity) (hnodup : keys.Nodup)
    (hload : 10 * keys.length ≤ 7 * capacity) :
    WellPlaced seed capacity keys.length (scatteredRows seed capacity keys) where
  regular := hcap
  length_eq := length_scatteredRows seed capacity keys
  load_le := hload
  home_eq := slot_of_mem_scatteredRows
  nodup := (flatten_scatteredRows_perm seed hcap.pos keys).nodup_iff.mpr hnodup
  size_eq := (flatten_scatteredRows_perm seed hcap.pos keys).length_eq.symm

end WellPlaced

/-! ## Tables -/

namespace Table

theorem wellFormed_withSeed (seed : UInt64) : (withSeed seed).WellFormed := by
  show WellPlaced seed Capacity.initialCapacity 0 (withSeed seed).rows
  rw [rows_withSeed]
  exact WellPlaced.empty seed

namespace WellFormed

variable {t : Table}

theorem wellPlaced (h : t.WellFormed) : WellPlaced t.seed t.capacity t.size t.rows := h

theorem nodup_toList (h : t.WellFormed) : t.toList.Nodup := by
  rw [toList_eq_flatten_rows]
  exact h.wellPlaced.nodup

theorem size_eq_length (h : t.WellFormed) : t.size = t.toList.length := by
  rw [toList_eq_flatten_rows]
  exact h.wellPlaced.size_eq

theorem home_lt_size (h : t.WellFormed) (key : Key) : t.home key < t.buckets.size := by
  rw [← length_rows]
  exact h.wellPlaced.slot_lt key

/-- **Looking in one bucket is enough**: the key is found there if it is in the table at all. -/
theorem contains_iff (h : t.WellFormed) (key : Key) : t.contains key = true ↔ key ∈ t.toList := by
  rw [contains_iff_mem_row, toList_eq_flatten_rows]
  exact (h.wellPlaced.mem_flatten_iff key).symm

theorem contains_eq_false_iff (h : t.WellFormed) (key : Key) :
    t.contains key = false ↔ key ∉ t.toList := by
  rw [← Bool.not_eq_true, h.contains_iff]

/-- **An insertion keeps a table well-formed.** If the new key overloads the table, it has twice as
many buckets afterwards, and before the key came they were not even half as full as allowed. -/
theorem insert (h : t.WellFormed) (key : Key) (hsize : (t.insert key).state.size ≤ 2 ^ 53) :
    (t.insert key).state.WellFormed := by
  rcases t.insert_cases key with ⟨-, hstep⟩ | ⟨hkey, hload, hstep⟩ | ⟨hkey, -, hstep⟩
  · rw [hstep]
    exact h
  · rw [hstep] at hsize ⊢
    have hfits : 10 * (t.size + 1) ≤ 7 * t.capacity :=
      (Capacity.overloads_eq_false_iff h.wellPlaced.regular hsize).mp hload
    have hnew : key ∉ t.rows.flatten := by
      rw [← toList_eq_flatten_rows]
      exact (h.contains_eq_false_iff key).mp hkey
    show WellPlaced t.seed t.capacity (t.size + 1) (t.place key).rows
    rw [rows_place]
    exact h.wellPlaced.push hnew hfits
  · -- The new rows are laid out from the keys alone, so only those matter, not where they were.
    rw [hstep]
    have hperm := toList_place_perm (h.home_lt_size key)
    have hnodup : (t.place key).toList.Nodup := by
      rw [hperm.nodup_iff]
      exact List.nodup_cons.mpr ⟨(h.contains_eq_false_iff key).mp hkey, h.nodup_toList⟩
    have hlength : (t.place key).toList.length = t.size + 1 := by
      rw [hperm.length_eq, List.length_cons, h.size_eq_length]
    -- One key more than a load of 7/10 still fits: there are at least 32 buckets.
    have hload : 10 * (t.place key).toList.length ≤ 7 * (2 * t.capacity) := by
      have := h.wellPlaced.load_le
      have := h.wellPlaced.regular.initialCapacity_le
      rw [hlength]
      simp only [Capacity.initialCapacity] at this
      omega
    show WellPlaced t.seed (2 * t.capacity) (t.size + 1) (t.place key).grow.rows
    rw [rows_grow, ← hlength]
    exact WellPlaced.scatter t.seed h.wellPlaced.regular.double hnodup hload

theorem remove (h : t.WellFormed) (key : Key) : (t.remove key).state.WellFormed := by
  cases hkey : t.contains key with
  | false =>
    rw [remove_of_not_contains hkey]
    exact h
  | true =>
    have hmem : key ∈ t.rows.flatten := by
      rw [← toList_eq_flatten_rows]
      exact (h.contains_iff key).mp hkey
    show WellPlaced (t.remove key).state.seed (t.remove key).state.capacity
      (t.remove key).state.size (t.remove key).state.rows
    rw [rows_remove hkey, seed_remove, capacity_remove, size_remove, if_pos hkey]
    exact h.wellPlaced.erase hmem

/-! ### The keys -/

theorem insert_of_mem (h : t.WellFormed) {key : Key} (hkey : key ∈ t.toList) :
    t.insert key = ⟨false, t, []⟩ := by
  have hcontains := (h.contains_iff key).mpr hkey
  rcases t.insert_cases key with ⟨-, hstep⟩ | ⟨hnew, -⟩ | ⟨hnew, -⟩
  · exact hstep
  · rw [hcontains] at hnew
    cases hnew
  · rw [hcontains] at hnew
    cases hnew

/-- A new key joins the keys, whether the table grows or not. -/
theorem toList_insert_perm (h : t.WellFormed) {key : Key} (hkey : key ∉ t.toList) :
    (t.insert key).state.toList.Perm (key :: t.toList) := by
  have hplace := toList_place_perm (h.home_lt_size key)
  rcases t.insert_cases key with ⟨hold, -⟩ | ⟨-, -, hstep⟩ | ⟨-, -, hstep⟩
  · exact absurd ((h.contains_iff key).mp hold) hkey
  · rwa [hstep]
  · rw [hstep]
    exact (toList_grow_perm (t := t.place key) h.wellPlaced.regular.pos).trans hplace

theorem toList_perm_remove (h : t.WellFormed) {key : Key} (hkey : key ∈ t.toList) :
    t.toList.Perm (key :: (t.remove key).state.toList) := by
  rw [toList_eq_flatten_rows] at hkey
  obtain ⟨row, hrow, hmem⟩ := (h.wellPlaced.mem_flatten_iff key).mp hkey
  rw [toList_eq_flatten_rows, toList_eq_flatten_rows,
    rows_remove ((t.contains_iff_mem_row key).mpr ⟨row, hrow, hmem⟩)]
  exact perm_cons_flatten_modify_erase hrow hmem

theorem mem_toList_insert (h : t.WellFormed) (key other : Key) :
    other ∈ (t.insert key).state.toList ↔ other = key ∨ other ∈ t.toList := by
  by_cases hkey : key ∈ t.toList
  · rw [h.insert_of_mem hkey]
    constructor
    · exact Or.inr
    · rintro (rfl | hother)
      · exact hkey
      · exact hother
  · rw [(h.toList_insert_perm hkey).mem_iff, List.mem_cons]

theorem mem_toList_remove (h : t.WellFormed) (key other : Key) :
    other ∈ (t.remove key).state.toList ↔ other ≠ key ∧ other ∈ t.toList := by
  by_cases hkey : key ∈ t.toList
  · have hperm := h.toList_perm_remove hkey
    have hnot := (List.nodup_cons.mp (hperm.nodup_iff.mp h.nodup_toList)).1
    rw [hperm.mem_iff, List.mem_cons]
    constructor
    · intro hother
      refine ⟨?_, Or.inr hother⟩
      rintro rfl
      exact hnot hother
    · rintro ⟨hne, rfl | hother⟩
      · exact absurd rfl hne
      · exact hother
  · rw [remove_of_not_contains ((h.contains_eq_false_iff key).mpr hkey)]
    constructor
    · intro hother
      refine ⟨?_, hother⟩
      rintro rfl
      exact hkey hother
    · exact And.right

theorem perm_of_mem_iff (ht : t.WellFormed) {u : Table} (hu : u.WellFormed)
    (h : ∀ key, key ∈ t.toList ↔ key ∈ u.toList) : t.toList.Perm u.toList :=
  (List.perm_ext_iff_of_nodup ht.nodup_toList hu.nodup_toList).mpr h

theorem size_le_of_subset (h : t.WellFormed) {stock : List Key}
    (hstock : t.toList ⊆ stock) : t.size ≤ stock.length := by
  rw [h.size_eq_length]
  exact (h.nodup_toList.subperm hstock).length_le

/-! ### Copies -/

theorem clone (h : t.WellFormed) : t.clone.WellFormed := by
  show WellPlaced t.seed t.capacity t.size t.clone.rows
  rw [rows_clone]
  exact h

end WellFormed

end Table

end ChainedSet
