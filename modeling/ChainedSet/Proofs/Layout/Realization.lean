import ChainedSet.Proofs.Image.RoundTrip
import ChainedSet.Proofs.Table.HighWater
import ChainedSet.Proofs.Table.Order

/-!
# Every accepted layout is the layout of a run

The checks on a decoded layout are complete: each table that passes them could have come about by
inserting and removing keys one at a time, from an empty table of its seed
(`exists_edits_of_decode`).

The run is `rebuild`. It first fills a table with as many other keys as the capacity allows, so that
it grows to this capacity and no further (`HighWater`), and takes them all out again. Then it
inserts the keys of the layout in the order in which the layout lists them. They are too few for
another growth, and what stands in the chains is told by this order and the capacity (`InOrder`).
-/

namespace ChainedSet.Table

/-! ## Runs that insert and remove -/

/-- The calls that insert one key or remove one. -/
inductive Action.IsEdit : Action → Prop
  | insert (key : Key) : IsEdit (.insert key)
  | remove (key : Key) : IsEdit (.remove key)

/-- A table has no more keys than there were edits. -/
theorem size_le_of_mem_steps {t : Table} {actions : List Action}
    (hedits : ∀ action ∈ actions, action.IsEdit) :
    ∀ s ∈ t.steps actions, s.state.size ≤ t.size + actions.length := by
  induction actions generalizing t with
  | nil =>
    intro s hs
    cases hs
  | cons action actions ih =>
    have hfirst : (action.run t).state.size ≤ t.size + 1 := by
      cases hedits action (List.mem_cons_self ..) with
      | insert key =>
        rw [Action.run, Step.state_map]
        exact t.size_insert_le key
      | remove key =>
        rw [Action.run, Step.state_map]
        exact Nat.le_succ_of_le (t.size_remove_le key)
    intro s hs
    rw [List.length_cons]
    rcases List.mem_cons.mp hs with rfl | hs
    · omega
    · have hrest := ih (fun a ha => hedits a (List.mem_cons_of_mem _ ha)) s hs
      omega

theorem foldl_appendNew {order keys : List Key} (h : (order ++ keys).Nodup) :
    keys.foldl appendNew order = order ++ keys := by
  have hnew : ∀ key ∈ keys, key ∉ order := by
    intro key hkey hold
    exact (List.nodup_append.mp h).2.2 key hold key hkey rfl
  rw [foldl_appendNew_of_nodup h.of_append_right, List.filter_eq_self.mpr (by simpa using hnew)]

theorem after_map_insert (t : Table) (keys : List Key) :
    t.after (keys.map .insert) = (t.extend keys).state := by
  induction keys generalizing t with
  | nil => rfl
  | cons key keys ih =>
    rw [List.map_cons, after_cons, state_extend_cons, ← ih, Action.run, Step.state_map]

/-- New keys come after the old ones, and the peak is at least the number of all of them. -/
theorem InOrder.after_map_insert {t : Table} {order : List Key} {peak : Nat} {events : List Event}
    (h : InOrder t order) (hwater : HighWater t peak events) (keys : List Key)
    (hnodup : (order ++ keys).Nodup) (hlength : (order ++ keys).length < 2 ^ 53) :
    InOrder (t.after (keys.map .insert)) (order ++ keys) ∧
      ∃ told, HighWater (t.after (keys.map .insert)) (max peak (order ++ keys).length) told := by
  rw [Table.after_map_insert]
  have hsize : (t.extend keys).state.size < 2 ^ 53 := by
    have hle := t.size_extend_le keys
    rw [h.size_eq, ← List.length_append] at hle
    omega
  have horder := h.extend keys hsize
  rw [foldl_appendNew hnodup] at horder
  refine ⟨horder, events ++ (t.extend keys).events, ?_⟩
  rw [← horder.size_eq]
  exact hwater.extend keys hsize

/-- Taking all keys out leaves none, and the peak where it was. -/
theorem InOrder.after_map_remove {t : Table} {keys : List Key} {peak : Nat} {events : List Event}
    (h : InOrder t keys) (hwater : HighWater t peak events) :
    InOrder (t.after (keys.map .remove)) [] ∧
      HighWater (t.after (keys.map .remove)) peak events := by
  induction keys generalizing t with
  | nil => exact ⟨h, hwater⟩
  | cons key keys ih =>
    have hfirst := h.remove key
    rw [List.erase_cons_head] at hfirst
    have hle : (t.remove key).state.size ≤ peak :=
      Nat.le_trans (t.size_remove_le key) hwater.size_le
    have hpeak := hwater.remove key
    rw [Nat.max_eq_left hle] at hpeak
    rw [List.map_cons, after_cons, Action.run, Step.state_map]
    exact ih hfirst hpeak

/-! ## The run that rebuilds a table -/

/-- As many keys as a capacity allows. -/
def fillers (capacity : Nat) : List Key :=
  (List.range (7 * capacity / 10)).map fun n => LittleEndian.encode 8 (UInt64.ofNat n)

/-- The run that grows to a capacity, empties the table and inserts the given keys. -/
def rebuild (capacity : Nat) (keys : List Key) : List Action :=
  (fillers capacity).map .insert ++ (fillers capacity).map .remove ++ keys.map .insert

theorem length_fillers (capacity : Nat) : (fillers capacity).length = 7 * capacity / 10 := by
  simp [fillers]

theorem nodup_fillers {capacity : Nat} (h : capacity < 2 ^ 64) : (fillers capacity).Nodup := by
  apply List.Nodup.map_on _ List.nodup_range
  intro m hm n hn heq
  rw [List.mem_range] at hm hn
  have hword : UInt64.ofNat m = UInt64.ofNat n := by
    rw [← LittleEndian.decode_encode (Nat.le_refl 8) (UInt64.ofNat m).toNat_lt, heq,
      LittleEndian.decode_encode (Nat.le_refl 8) (UInt64.ofNat n).toNat_lt]
  have hm64 : m < 2 ^ 64 := by omega
  have hn64 : n < 2 ^ 64 := by omega
  have hnat := congrArg UInt64.toNat hword
  rwa [UInt64.toNat_ofNat_of_lt' hm64, UInt64.toNat_ofNat_of_lt' hn64] at hnat

theorem isEdit_of_mem_rebuild {capacity : Nat} {keys : List Key} :
    ∀ action ∈ rebuild capacity keys, action.IsEdit := by
  intro action haction
  simp only [rebuild, List.mem_append, List.mem_map] at haction
  rcases haction with (⟨key, -, rfl⟩ | ⟨key, -, rfl⟩) | ⟨key, -, rfl⟩
  · exact .insert key
  · exact .remove key
  · exact .insert key

theorem length_rebuild (capacity : Nat) (keys : List Key) :
    (rebuild capacity keys).length = 2 * (7 * capacity / 10) + keys.length := by
  simp only [rebuild, List.length_append, List.length_map, length_fillers]
  omega

/-- A regular capacity is the least one that as many keys as it allows fit into. -/
theorem isLeast_of_regular {capacity : Nat} (h : Capacity.Regular capacity) :
    IsLeast {c | Capacity.Regular c ∧ 10 * (7 * capacity / 10) ≤ 7 * c} capacity := by
  refine ⟨⟨h, by omega⟩, ?_⟩
  rintro c ⟨hc, hfits⟩
  by_contra hlt
  have hdouble := hc.two_mul_le h (by omega)
  have hinitial := hc.initialCapacity_le
  rw [Capacity.initialCapacity] at hinitial
  omega

/-- **The run arrives where it should**: at the given capacity, with the given keys in order. -/
theorem after_rebuild (seed : UInt64) {capacity : Nat} {keys : List Key}
    (hcapacity : Capacity.Regular capacity) (hbound : capacity < 2 ^ 53)
    (hload : 10 * keys.length ≤ 7 * capacity) (hnodup : keys.Nodup) :
    InOrder ((withSeed seed).after (rebuild capacity keys)) keys ∧
      ((withSeed seed).after (rebuild capacity keys)).capacity = capacity := by
  have hfill : (fillers capacity).length < 2 ^ 53 := by
    rw [length_fillers]
    omega
  rw [rebuild, after_append, after_append]
  obtain ⟨hfull, told, hpeak⟩ :=
    (inOrder_withSeed seed).after_map_insert (Fresh.withSeed seed).highWater (fillers capacity)
      (nodup_fillers (by omega)) hfill
  obtain ⟨hempty, hpeak⟩ := hfull.after_map_remove hpeak
  obtain ⟨horder, told, hpeak⟩ :=
    hempty.after_map_insert hpeak keys hnodup (by rw [List.nil_append]; omega)
  refine ⟨horder, ?_⟩
  -- The peak is still that of the fillers, since the keys are no more than those.
  have hmax : max (max (withSeed seed).size ([] ++ fillers capacity).length)
      ([] ++ keys).length = 7 * capacity / 10 := by
    rw [size_withSeed, List.nil_append, List.nil_append, length_fillers]
    omega
  rw [hmax] at hpeak
  exact hpeak.isLeast.unique (isLeast_of_regular hcapacity)

/-! ## Decoded tables -/

/-- **The decoder accepts only what a run could have produced.** Whatever bytes hold a table, there
is a run of insertions and removals, from an empty table of the same seed, that ends in a table with
the same seed, capacity and size and with the same keys in every chain, in the same order. -/
theorem exists_edits_of_decode {bytes : List UInt8} {t : Table} (hbytes : bytes.length < 2 ^ 53)
    (h : Table.decode bytes = .ok t) :
    ∃ actions : List Action, (∀ action ∈ actions, action.IsEdit) ∧
      (∀ s ∈ (withSeed t.seed).steps actions, s.state.size < 2 ^ 53) ∧
      ((withSeed t.seed).after actions).seed = t.seed ∧
      ((withSeed t.seed).after actions).capacity = t.capacity ∧
      ((withSeed t.seed).after actions).size = t.size ∧
      ((withSeed t.seed).after actions).buckets.map Chain.keys = t.buckets.map Chain.keys := by
  have hlength := prefixLength_mul_le_of_decode h
  rw [Image.prefixLength] at hlength
  have hwellFormed := (Reachable.decode bytes h (by omega)).sound.wellFormed
  have hload := hwellFormed.wellPlaced.load_le
  rw [hwellFormed.size_eq_length] at hload
  obtain ⟨horder, hreached⟩ := after_rebuild t.seed hwellFormed.wellPlaced.regular (by omega) hload
    hwellFormed.nodup_toList
  refine ⟨rebuild t.capacity t.toList, isEdit_of_mem_rebuild, ?_, ?_, hreached, ?_, ?_⟩
  · intro s hs
    have hle := size_le_of_mem_steps isEdit_of_mem_rebuild s hs
    rw [size_withSeed, length_rebuild] at hle
    omega
  · exact seed_after (withSeed t.seed) (rebuild t.capacity t.toList)
  · rw [horder.size_eq, hwellFormed.size_eq_length]
  · have hrows : ((withSeed t.seed).after (rebuild t.capacity t.toList)).rows = t.rows := by
      rw [horder.rows_eq, hreached, seed_after, toList_eq_flatten_rows]
      exact hwellFormed.wellPlaced.scatteredRows_flatten
    apply Array.toList_inj.mp
    rw [Array.toList_map, Array.toList_map]
    exact hrows

/-- An image of 64 buckets with two keys: no table has so many without having grown. -/
theorem exists_edits_of_decode_sparse :
    let bytes : List UInt8 := Image.mark ++ [Image.version, 5, 0, 0, 0, 0, 0, 0, 0,
      64, 0, 0, 0, 0, 0, 0, 0, 2, 0, 0, 0, 0, 0, 0, 0] ++ List.replicate (140) 0 ++
      [1, 0, 0, 0, 1, 0, 0, 0, 0x62] ++ List.replicate (84) 0 ++
      [1, 0, 0, 0, 1, 0, 0, 0, 0x61] ++ List.replicate (24) 0
    bytes.length < 2 ^ 53 ∧ ∃ t : Table, Table.decode bytes = .ok t ∧ t.toList = [[0x62], [0x61]] ∧
      ∃ actions : List Action, (∀ action ∈ actions, action.IsEdit) ∧
        (∀ s ∈ (withSeed t.seed).steps actions, s.state.size < 2 ^ 53) ∧
        ((withSeed t.seed).after actions).seed = t.seed ∧
        ((withSeed t.seed).after actions).capacity = t.capacity ∧
        ((withSeed t.seed).after actions).size = t.size ∧
        ((withSeed t.seed).after actions).buckets.map Chain.keys = t.buckets.map Chain.keys := by
  intro bytes
  have hbytes : bytes.length < 2 ^ 53 := by decide +kernel
  have hkeys : (Table.decode bytes).toOption.map Table.toList = some [[0x62], [0x61]] := by
    decide +kernel
  cases h : Table.decode bytes with
  | error e =>
    rw [h] at hkeys
    cases hkeys
  | ok t =>
    rw [h] at hkeys
    exact ⟨hbytes, t, rfl, Option.some.inj hkeys, exists_edits_of_decode hbytes h⟩

end ChainedSet.Table
