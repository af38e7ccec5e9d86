import ChainedSet.Proofs.Table.Alike
import ChainedSet.Proofs.Table.HighWater
import ChainedSet.Proofs.Table.Order

/-!
# Merging is union

A merge inserts the keys of another table one by one, in the order in which that table lists them,
and the table may grow any number of times on the way. What comes of it (`Reachable.merge_is_union`):

* **The keys** are those of both tables, each once, and the size is their number.
* **The capacity** is the old one or, if they do not fit into that, the least one that they fit into.
  This is said of growth in numbers first (`isLeast_climb`): a growth happens only where the
  capacity at hand is too small, and then no regular capacity lies between it and its double.
* **The chains** have the old keys first and then the new ones. Beside the run goes the list of keys
  in order of insertion, which is the old list with the new keys after it
  (`foldl_appendNew_of_nodup`); and the old keys of a chain come from one old chain
  (`WellFormed.filter_toList`).
* **Nothing happens** if all keys are there already (`WellFormed.extend_of_subset`).
-/

namespace ChainedSet

/-! ## The capacity -/

theorem Capacity.Regular.dvd_of_le {capacity other : Nat} (h : Regular capacity)
    (hother : Regular other) (hle : capacity ≤ other) : capacity ∣ other := by
  obtain ⟨j, rfl⟩ := h
  obtain ⟨k, rfl⟩ := hother
  have hpow : 2 ^ j ≤ 2 ^ k := Nat.le_of_mul_le_mul_left hle (by decide)
  have hjk : j ≤ k := (Nat.pow_le_pow_iff_right (by decide)).mp hpow
  exact Nat.mul_dvd_mul_left _ (Nat.pow_dvd_pow 2 hjk)

/-- The least capacity from `floor` on that so many keys fit into is `floor` itself, unless the least
of all is larger. -/
theorem Capacity.exists_isLeast_eq_max {floor size capacity : Nat} (hfloor : Regular floor)
    (h : IsLeast {c | Regular c ∧ floor ≤ c ∧ 10 * size ≤ 7 * c} capacity) :
    ∃ least, IsLeast {c | Regular c ∧ 10 * size ≤ 7 * c} least ∧ capacity = max floor least := by
  obtain ⟨least, hleast⟩ : ∃ least, IsLeast {c | Regular c ∧ 10 * size ≤ 7 * c} least := by
    classical
    have hsome : ∃ c, Regular c ∧ 10 * size ≤ 7 * c := ⟨capacity, h.1.1, h.1.2.2⟩
    exact ⟨Nat.find hsome, Nat.find_spec hsome, fun c hc => Nat.find_min' hsome hc⟩
  refine ⟨least, hleast, h.unique ⟨⟨?_, le_max_left _ _, ?_⟩, ?_⟩⟩
  · rcases max_choice floor least with hmax | hmax
    · rwa [hmax]
    · rw [hmax]
      exact hleast.1.1
  · have hle := le_max_right floor least
    have hfits := hleast.1.2
    omega
  · rintro c ⟨hc, hle, hfits⟩
    exact max_le hle (hleast.2 ⟨hc, hfits⟩)

namespace Table

variable {t u : Table}

/-- **A table grows no further than it must.** Whatever keys come, the capacity after them is the
least one, from the capacity before them on, that all keys fit into. -/
theorem isLeast_climb {capacity size more : Nat} (hregular : Capacity.Regular capacity)
    (hload : 10 * size ≤ 7 * capacity) (hsize : size + more ≤ 2 ^ 53) :
    IsLeast {c | Capacity.Regular c ∧ capacity ≤ c ∧ 10 * (size + more) ≤ 7 * c}
      (climb capacity size more).1 := by
  induction more generalizing capacity size with
  | zero => exact ⟨⟨hregular, Nat.le_refl _, hload⟩, fun c hc => hc.2.1⟩
  | succ more ih =>
    have hnext : size + (more + 1) = size + 1 + more := by omega
    rw [hnext] at hsize ⊢
    cases hover : Capacity.overloads (size + 1) capacity with
    | false =>
      rw [climb_succ_of_fits hover]
      exact ih hregular
        ((Capacity.overloads_eq_false_iff hregular (by omega)).mp hover) hsize
    | true =>
      rw [climb_succ_of_overloads hover]
      have hfull : 7 * capacity < 10 * (size + 1) :=
        (Capacity.overloads_iff hregular (by omega)).mp hover
      have hinitial := hregular.initialCapacity_le
      rw [Capacity.initialCapacity] at hinitial
      obtain ⟨⟨hreached, hle, hfits⟩, hleast⟩ := ih hregular.double (by omega) hsize
      refine ⟨⟨hreached, by omega, hfits⟩, ?_⟩
      rintro c ⟨hc, hcle, hcfits⟩
      apply hleast
      exact ⟨hc, hregular.two_mul_le hc (by omega), hcfits⟩

theorem Sound.isLeast_capacity_extend (h : t.Sound) (keys : List Key)
    (hsize : (t.extend keys).state.size < 2 ^ 53) :
    IsLeast {c | Capacity.Regular c ∧ t.capacity ≤ c ∧
      10 * (t.extend keys).state.size ≤ 7 * c} (t.extend keys).state.capacity := by
  have hclimb : (t.extend keys).state.capacity =
      (climb t.capacity t.size (t.extend keys).answer).1 := congrArg Prod.fst (climb_extend t keys)
  rw [size_extend] at hsize ⊢
  rw [hclimb]
  exact isLeast_climb h.wellFormed.wellPlaced.regular h.wellFormed.wellPlaced.load_le
    (Nat.le_of_lt hsize)

/-! ## Merging -/

/-- What a merge of `u` into `t` leaves. -/
structure IsUnion (t u merged : Table) : Prop where
  /-- The keys are those of both tables, each once. -/
  holds : merged.Holds (t.toList.toFinset ∪ u.toList.toFinset)
  seed_eq : merged.seed = t.seed
  /-- The capacity is the old one, unless the least that all keys fit into is larger. -/
  capacity_eq : ∃ least, IsLeast {c | Capacity.Regular c ∧
      10 * (t.toList.toFinset ∪ u.toList.toFinset).card ≤ 7 * c} least ∧
    merged.capacity = max t.capacity least
  size_buckets : merged.buckets.size = merged.capacity
  /-- In every chain the old keys come first, as they stood in one old chain, and then the keys that
  only `u` has, as `u` lists them. -/
  keys_chain_eq : ∀ bucket < merged.capacity,
    let isHome key := Murmur.slot t.seed merged.capacity key = bucket
    (merged.chain bucket).keys =
      (t.chain (bucket % t.capacity)).keys.filter isHome
        ++ u.toList.filter fun key => key ∉ t.toList ∧ isHome key

/-- Keys that are there already change nothing, and nothing is told. -/
theorem WellFormed.extend_of_subset (h : t.WellFormed) {keys : List Key} (hkeys : keys ⊆ t.toList) :
    t.extend keys = ⟨0, t, []⟩ := by
  induction keys with
  | nil => rfl
  | cons key keys ih =>
    obtain ⟨hkey, hkeys⟩ := List.cons_subset.mp hkeys
    have hfirst := h.insert_of_mem hkey
    have hrest := ih hkeys
    rw [extend] at hrest ⊢
    rw [Step.forEach_cons, hfirst]
    simp only [hrest, Bool.toNat_false, Nat.zero_add, List.nil_append]

theorem WellFormed.merge_of_subset (h : t.WellFormed) (hkeys : u.toList ⊆ t.toList) :
    t.merge u = ⟨0, t, []⟩ := by
  rw [merge]
  exact h.extend_of_subset hkeys

theorem Sound.size_merge_lt (h : t.Sound)
    (hunion : (t.toList.toFinset ∪ u.toList.toFinset).card < 2 ^ 53) :
    (t.merge u).state.size < 2 ^ 53 := by
  rw [← Finset.length_toList] at hunion
  refine Nat.lt_of_le_of_lt (h.size_extend_le_of_subset hunion ?_ ?_) hunion
  · intro key hkey
    simp [hkey]
  · intro key hkey
    simp [hkey]

/-- After a merge the new keys come after all old ones. -/
theorem Sound.inOrder_merge (h : t.Sound) (hu : u.Sound) (hsize : (t.merge u).state.size < 2 ^ 53) :
    InOrder (t.merge u).state (t.toList ++ u.toList.filter fun key => key ∉ t.toList) := by
  rw [← foldl_appendNew_of_nodup hu.wellFormed.nodup_toList]
  exact h.inOrder_toList.extend u.toList hsize

theorem Sound.isUnion_merge (h : t.Sound) (hu : u.Sound)
    (hsize : (t.merge u).state.size < 2 ^ 53) : IsUnion t u (t.merge u).state := by
  have hstart : t.Holds t.toList.toFinset :=
    h.wellFormed.holds fun key => List.mem_toFinset.symm
  have hholds : (t.merge u).state.Holds (t.toList.toFinset ∪ u.toList.toFinset) :=
    (h.holds_run hstart (.merge u) hsize).2
  have hleast := h.isLeast_capacity_extend u.toList hsize
  have horder := h.inOrder_merge hu hsize
  have hregular := h.wellFormed.wellPlaced.regular
  have hmerged := horder.sound.wellFormed.wellPlaced
  have hseed : (t.merge u).state.seed = t.seed := t.seed_extend u.toList
  refine ⟨hholds, hseed, ?_, ?_, ?_⟩
  · rw [← hholds.size_eq]
    exact Capacity.exists_isLeast_eq_max hregular hleast
  · rw [← length_rows]
    exact hmerged.length_eq
  · intro bucket hbucket isHome
    have hdvd : t.capacity ∣ (t.merge u).state.capacity :=
      hregular.dvd_of_le hmerged.regular hleast.1.2.1
    rw [horder.keys_chain hbucket, hseed, List.filter_append, List.filter_filter,
      h.wellFormed.filter_toList hdvd]
    congr 1
    apply List.filter_congr
    intro key _
    simp [isHome, Bool.and_comm]

/-- **Merging is union, with the least capacity and the old keys first**, whatever the seeds of the
two tables and however often the first one grows. If the other table has no keys of its own, as on a
second merge or in a copy, the table is left as it was. -/
theorem Reachable.merge_is_union (ht : t.Reachable) (hu : u.Reachable)
    (hunion : (t.toList.toFinset ∪ u.toList.toFinset).card < 2 ^ 53) :
    IsUnion t u (t.merge u).state ∧
      (u.toList ⊆ t.toList → t.merge u = ⟨0, t, []⟩) ∧
      (t.merge u).state.merge u = ⟨0, (t.merge u).state, []⟩ ∧
      t.merge t.clone = ⟨0, t, []⟩ := by
  have hsound := ht.sound
  have hsize := hsound.size_merge_lt hunion
  have hmerged := hsound.isUnion_merge hu.sound hsize
  have hwellFormed := (Reachable.merge ht hu hsize).sound.wellFormed
  refine ⟨hmerged, hsound.wellFormed.merge_of_subset, ?_, ?_⟩
  · apply hwellFormed.merge_of_subset
    intro key hkey
    rw [hmerged.holds.mem_toList_iff]
    simp [hkey]
  · apply hsound.wellFormed.merge_of_subset
    rw [toList_clone]
    exact List.Subset.refl _

/-- A table of 20 keys takes in one of 30 keys and another seed, ten of which it has; it grows to 64
buckets on the way. -/
theorem merge_is_union_overlapping :
    let t := (ofList ((List.range 20).map fun n => [UInt8.ofNat n])).state
    let u := ((withSeed 9).extend ((List.range 30).map fun n => [UInt8.ofNat (n + 10)])).state
    (t.toList.toFinset ∪ u.toList.toFinset).card < 2 ^ 53 ∧
      t.capacity = 32 ∧ u.capacity = 64 ∧ (t.merge u).state.size = 40 ∧
      IsUnion t u (t.merge u).state ∧
      (u.toList ⊆ t.toList → t.merge u = ⟨0, t, []⟩) ∧
      (t.merge u).state.merge u = ⟨0, (t.merge u).state, []⟩ ∧
      t.merge t.clone = ⟨0, t, []⟩ := by
  intro t u
  have ht : t.Reachable := .ofList _ (by decide +kernel)
  have hu : u.Reachable := .extend _ (.withSeed 9) (by decide +kernel)
  have hunion : (t.toList.toFinset ∪ u.toList.toFinset).card < 2 ^ 53 := by decide +kernel
  exact ⟨hunion, by decide +kernel, by decide +kernel, by decide +kernel,
    ht.merge_is_union hu hunion⟩

end Table

end ChainedSet
