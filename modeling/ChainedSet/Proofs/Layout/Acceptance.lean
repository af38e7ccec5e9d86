import Mathlib.Data.List.Nodup
import ChainedSet.Proofs.Table.WellFormed

/-!
# What a layout is accepted for

The checks on a layout find no fault exactly if it is well-formed (`fault?_eq_none_iff`). Two of
them look at less than they promise: duplicates are looked for between neighbours of a sorted
bucket (`hasDuplicates_eq_false_iff`), and only within a bucket, which is enough once every key is
known to be in its home (`nodup_flatten_iff`). So exactly the well-formed layouts are those of a
table (`exists_toTable_iff_wellFormed`). A layout that is accepted is the layout of its table
(`layout_of_toTable`), and the layout of a well-formed table is accepted again (`toTable_layout`).
-/

namespace ChainedSet

/-! ## Duplicates -/

/-- In a sorted list equal keys are neighbours. -/
theorem any_zip_tail_eq_false_iff {keys : List Key} (h : keys.Pairwise (· ≤ ·)) :
    ((keys.zip keys.tail).any fun (a, b) => a == b) = false ↔ keys.Nodup := by
  induction keys with
  | nil => simp
  | cons a keys ih =>
    obtain ⟨hle, hsorted⟩ := List.pairwise_cons.mp h
    cases keys with
    | nil => simp
    | cons b keys =>
      have hmem : a ∈ b :: keys ↔ a = b := by
        constructor
        · intro ha
          rcases List.mem_cons.mp ha with heq | hkeys
          · exact heq
          · -- If `a` occurs further on, then `b` stands between two copies of it.
            have hba : b ≤ a := (List.pairwise_cons.mp hsorted).1 a hkeys
            exact List.le_antisymm (hle b (List.mem_cons_self ..)) hba
        · rintro rfl
          exact List.mem_cons_self ..
      rw [List.nodup_cons, hmem, ← ih hsorted]
      simp

/-- **Looking at neighbours of the sorted keys is enough**, whichever way they were sorted. -/
theorem any_zip_tail_eq_false_iff_of_perm {keys sorted : List Key} (hperm : sorted.Perm keys)
    (hsorted : sorted.Pairwise (· ≤ ·)) :
    ((sorted.zip sorted.tail).any fun (a, b) => a == b) = false ↔ keys.Nodup := by
  rw [any_zip_tail_eq_false_iff hsorted, hperm.nodup_iff]

theorem hasDuplicates_eq_false_iff (keys : List Key) :
    hasDuplicates keys = false ↔ keys.Nodup := by
  have hsorted : (keys.mergeSort fun a b => decide (a ≤ b)).Pairwise (· ≤ ·) := by
    have hpairwise : (keys.mergeSort fun a b => decide (a ≤ b)).Pairwise
        fun a b => decide (a ≤ b) = true := by
      apply List.pairwise_mergeSort
      · simpa using fun a b c => List.le_trans
      · simpa using List.le_total
    simpa using hpairwise
  exact any_zip_tail_eq_false_iff_of_perm (List.mergeSort_perm keys _) hsorted

/-- A key occurs twice if it stands in two places. -/
theorem hasDuplicates_eq_true_iff (keys : List Key) :
    hasDuplicates keys = true ↔
      ∃ i j : Nat, i ≠ j ∧ ∃ key, keys[i]? = some key ∧ keys[j]? = some key := by
  rw [← Bool.not_eq_false, hasDuplicates_eq_false_iff, List.nodup_iff_getElem?_ne_getElem?]
  constructor
  · intro h
    push Not at h
    obtain ⟨i, j, hij, hj, heq⟩ := h
    exact ⟨i, j, Nat.ne_of_lt hij, keys[j], by rw [heq, List.getElem?_eq_getElem hj],
      List.getElem?_eq_getElem hj⟩
  · rintro ⟨i, j, hne, key, hi, hj⟩ h
    rcases Nat.lt_or_gt_of_ne hne with hij | hji
    · obtain ⟨hlt, -⟩ := List.getElem?_eq_some_iff.mp hj
      exact h i j hij hlt (hi.trans hj.symm)
    · obtain ⟨hlt, -⟩ := List.getElem?_eq_some_iff.mp hi
      exact h j i hji hlt (hj.trans hi.symm)

/-- Where every key is in its home, no key occurs twice if none does within a bucket. -/
theorem nodup_flatten_iff {seed : UInt64} {capacity : Nat} {rows : List (List Key)}
    (h : ∀ bucket row, rows[bucket]? = some row →
      ∀ key ∈ row, Murmur.slot seed capacity key = bucket) :
    rows.flatten.Nodup ↔ ∀ row ∈ rows, row.Nodup := by
  rw [List.nodup_flatten]
  constructor
  · exact And.left
  · intro hrows
    refine ⟨hrows, List.pairwise_iff_getElem.mpr ?_⟩
    intro i j hi hj hij key hkeyi hkeyj
    -- A key in two rows would have two homes.
    have hsloti := h i _ (List.getElem?_eq_getElem hi) key hkeyi
    have hslotj := h j _ (List.getElem?_eq_getElem hj) key hkeyj
    omega

/-! ## Checking -/

namespace Layout

variable {l : Layout}

/-- A bucket without a fault has only keys whose home it is, each once. -/
theorem bucketFault?_eq_none_iff {keys : List Key} {bucket : Nat} :
    l.bucketFault? keys bucket = none ↔ (∀ key ∈ keys, l.home key = bucket) ∧ keys.Nodup := by
  rw [bucketFault?]
  split
  · next key hfind =>
    have hkey := List.find?_some hfind
    simp only [bne_iff_ne, ne_eq] at hkey
    constructor
    · intro h
      cases h
    · rintro ⟨hhome, -⟩
      exact absurd (hhome key (List.mem_of_find?_eq_some hfind)) hkey
  · next hfind =>
    have hhome : ∀ key ∈ keys, l.home key = bucket := by
      simpa using List.find?_eq_none.mp hfind
    rw [← hasDuplicates_eq_false_iff, and_iff_right hhome]
    cases hasDuplicates keys <;> simp

/-- No bucket has a fault if all keys are in their homes and none occurs twice. -/
theorem findSome?_bucketFault?_eq_none_iff :
    (l.buckets.zipIdx.findSome? fun (keys, bucket) => l.bucketFault? keys bucket) = none ↔
      (∀ bucket keys, l.buckets[bucket]? = some keys →
        ∀ key ∈ keys, Murmur.slot l.seed l.capacity.toNat key = bucket) ∧
      l.buckets.flatten.Nodup := by
  have hbuckets :
      (l.buckets.zipIdx.findSome? fun (keys, bucket) => l.bucketFault? keys bucket) = none ↔
        ∀ bucket keys, l.buckets[bucket]? = some keys →
          (∀ key ∈ keys, l.home key = bucket) ∧ keys.Nodup := by
    simp only [List.findSome?_eq_none_iff, Prod.forall, List.mem_zipIdx_iff_getElem?,
      bucketFault?_eq_none_iff]
    exact forall_comm
  rw [hbuckets]
  constructor
  · intro h
    have hhome := fun bucket keys hkeys => (h bucket keys hkeys).1
    refine ⟨hhome, (nodup_flatten_iff hhome).mpr ?_⟩
    intro row hrow
    obtain ⟨bucket, hbucket⟩ := List.mem_iff_getElem?.mp hrow
    exact (h bucket row hbucket).2
  · rintro ⟨hhome, hnodup⟩ bucket keys hkeys
    exact ⟨hhome bucket keys hkeys,
      (nodup_flatten_iff hhome).mp hnodup keys (List.mem_of_getElem? hkeys)⟩

theorem count_eq_length_flatten (l : Layout) : l.count = l.buckets.flatten.length := by
  have hcount : ∀ (buckets : List (List Key)) (n : Nat),
      buckets.foldl (fun total keys => total + keys.length) n = n + buckets.flatten.length := by
    intro buckets
    induction buckets with
    | nil => intro n; rfl
    | cons keys buckets ih =>
      intro n
      rw [List.foldl_cons, ih, List.flatten_cons, List.length_append, Nat.add_assoc]
  rw [count, hcount, Nat.zero_add]

/-- A layout without a fault has passed all five checks. -/
theorem fault?_eq_none_iff_checks :
    l.fault? = none ↔
      Capacity.isRegular l.capacity.toNat = true ∧
      Capacity.overloads l.size.toNat l.capacity.toNat = false ∧
      l.buckets.length = l.capacity.toNat ∧
      (l.buckets.zipIdx.findSome? fun (keys, bucket) => l.bucketFault? keys bucket) = none ∧
      l.count = l.size.toNat := by
  simp only [fault?]
  cases Capacity.isRegular l.capacity.toNat <;>
    cases Capacity.overloads l.size.toNat l.capacity.toNat <;>
    by_cases hlength : l.buckets.length = l.capacity.toNat <;>
    cases l.buckets.zipIdx.findSome? (fun (keys, bucket) => l.bucketFault? keys bucket) <;>
    simp [hlength]

/-- **The checks find no fault exactly in a well-formed layout**, as long as its size is one whose
load factor is exact. -/
theorem fault?_eq_none_iff (hsize : l.size.toNat ≤ 2 ^ 53) :
    l.fault? = none ↔ l.WellFormed := by
  rw [fault?_eq_none_iff_checks, Capacity.isRegular_iff, findSome?_bucketFault?_eq_none_iff,
    count_eq_length_flatten]
  constructor
  · rintro ⟨hregular, hload, hlength, ⟨hhome, hnodup⟩, hcount⟩
    exact ⟨hregular, hlength, (Capacity.overloads_eq_false_iff hregular hsize).mp hload, hhome,
      hnodup, hcount.symm⟩
  · intro h
    exact ⟨h.regular, (Capacity.overloads_eq_false_iff h.regular hsize).mpr h.load_le, h.length_eq,
      ⟨h.home_eq, h.nodup⟩, h.size_eq.symm⟩

/-! ## Tables of layouts -/

theorem toTable_eq_ok_iff {t : Table} : l.toTable = .ok t ↔ l.fault? = none ∧ l.table = t := by
  rw [toTable]
  cases l.fault? with
  | none => simp
  | some fault => simp

/-- A table that was made in two steps, reading and checking, is the table of the layout that was
read. -/
theorem toTable_of_bind {ε : Type} {read : Except ε Layout} {refuse : Corruption → ε} {t : Table}
    (h : (do let layout ← read; layout.toTable.mapError refuse) = .ok t) :
    ∃ l, read = .ok l ∧ l.toTable = .ok t := by
  cases read with
  | error e => cases h
  | ok l =>
    refine ⟨l, rfl, ?_⟩
    simp only [bind, Except.bind] at h
    cases ht : l.toTable with
    | error fault =>
      rw [ht] at h
      cases h
    | ok u =>
      rw [ht] at h
      cases h
      rfl

@[simp] theorem rows_table (l : Layout) : l.table.rows = l.buckets := by
  simp [Table.rows, table, Function.comp_def]

theorem layout_table (l : Layout) : l.table.layout = l := by
  have hrows : l.table.layout.buckets = l.buckets := l.rows_table
  cases l
  simp only [Table.layout, table] at hrows ⊢
  rw [hrows]
  simp

theorem layout_of_toTable {t : Table} (h : l.toTable = .ok t) : t.layout = l := by
  obtain ⟨-, rfl⟩ := toTable_eq_ok_iff.mp h
  exact l.layout_table

theorem length_of_toTable {t : Table} (h : l.toTable = .ok t) :
    l.buckets.length = l.capacity.toNat := by
  obtain ⟨hfault, -⟩ := toTable_eq_ok_iff.mp h
  obtain ⟨-, -, hlength, -⟩ := fault?_eq_none_iff_checks.mp hfault
  exact hlength

theorem length_flatten_of_toTable {t : Table} (h : l.toTable = .ok t) :
    l.buckets.flatten.length = l.size.toNat := by
  obtain ⟨hfault, -⟩ := toTable_eq_ok_iff.mp h
  obtain ⟨-, -, -, -, hcount⟩ := fault?_eq_none_iff_checks.mp hfault
  rw [← count_eq_length_flatten, hcount]

theorem wellFormed_table (h : l.WellFormed) : l.table.WellFormed := by
  show WellPlaced l.seed l.capacity.toNat l.size.toNat l.table.rows
  rw [rows_table]
  exact h

theorem wellFormed_of_toTable {t : Table} (h : l.toTable = .ok t) (hsize : t.size ≤ 2 ^ 53) :
    t.WellFormed := by
  obtain ⟨hfault, rfl⟩ := toTable_eq_ok_iff.mp h
  exact wellFormed_table ((fault?_eq_none_iff hsize).mp hfault)

/-- **Exactly the well-formed layouts are accepted**, whatever numbers they have, and none of their
fields is changed. The size may be any word: one that is not the number of keys is neither
well-formed nor accepted, so it need not be one whose load factor is exact. -/
theorem exists_toTable_iff_wellFormed (hcount : l.buckets.flatten.length < 2 ^ 53) :
    ((∃ t, l.toTable = .ok t) ↔ l.WellFormed) ∧
      ∀ t, l.toTable = .ok t →
        t.seed = l.seed ∧ t.capacity = l.capacity.toNat ∧ t.size = l.size.toNat ∧
          t.buckets.toList.map Chain.keys = l.buckets := by
  refine ⟨⟨?_, ?_⟩, ?_⟩
  · rintro ⟨t, h⟩
    have hsize : l.size.toNat < 2 ^ 53 := by
      rw [← length_flatten_of_toTable h]
      exact hcount
    apply (fault?_eq_none_iff (Nat.le_of_lt hsize)).mp
    exact (toTable_eq_ok_iff.mp h).1
  · intro h
    have hsize : l.size.toNat < 2 ^ 53 := by
      rw [h.size_eq]
      exact hcount
    refine ⟨l.table, toTable_eq_ok_iff.mpr ⟨?_, rfl⟩⟩
    exact (fault?_eq_none_iff (Nat.le_of_lt hsize)).mpr h
  · intro t h
    obtain ⟨-, rfl⟩ := toTable_eq_ok_iff.mp h
    exact ⟨rfl, rfl, rfl, l.rows_table⟩

/-- A key in its home, the same key one bucket off, and a size that no double holds. -/
theorem exists_toTable_iff_wellFormed_moved :
    let layout (size : UInt64) (bucket : Nat) : Layout :=
      ⟨4, 32, size, (List.replicate 32 []).set bucket [[0x68, 0x65, 0x6c, 0x6c, 0x6f]]⟩
    (layout 1 19).buckets.flatten.length < 2 ^ 53 ∧ (layout 1 19).WellFormed ∧
      (layout 1 18).buckets.flatten.length < 2 ^ 53 ∧ ¬ (layout 1 18).WellFormed ∧
      (layout 0x20000000000001 19).buckets.flatten.length < 2 ^ 53 ∧
      ¬ (layout 0x20000000000001 19).WellFormed := by
  intro layout
  have hhome : (layout 1 19).buckets.flatten.length < 2 ^ 53 := by decide +kernel
  have hmoved : (layout 1 18).buckets.flatten.length < 2 ^ 53 := by decide +kernel
  have hlarge : (layout 0x20000000000001 19).buckets.flatten.length < 2 ^ 53 := by decide +kernel
  refine ⟨hhome, (exists_toTable_iff_wellFormed hhome).1.mp ?_, hmoved, ?_, hlarge, ?_⟩
  · exact ⟨(layout 1 19).table, by decide +kernel⟩
  · rw [← (exists_toTable_iff_wellFormed hmoved).1]
    rintro ⟨t, h⟩
    have hfault : (layout 1 18).fault? = some (.misplaced 18 19) := by decide +kernel
    rw [(toTable_eq_ok_iff.mp h).1] at hfault
    cases hfault
  · rw [← (exists_toTable_iff_wellFormed hlarge).1]
    rintro ⟨t, h⟩
    have hfault : (layout 0x20000000000001 19).fault? = some (.overloaded 0x20000000000001 32) := by
      decide +kernel
    rw [(toTable_eq_ok_iff.mp h).1] at hfault
    cases hfault

end Layout

namespace Table

variable {t : Table}

/-- The table of the layout of `t` is a copy of `t`, if its numbers fit the words of a layout. -/
theorem table_layout (hcapacity : t.capacity < 2 ^ 64) (hsize : t.size < 2 ^ 64) :
    t.layout.table = t.clone := by
  have hcap : (UInt64.ofNat t.capacity).toNat = t.capacity := UInt64.toNat_ofNat_of_lt' hcapacity
  have hsz : (UInt64.ofNat t.size).toNat = t.size := UInt64.toNat_ofNat_of_lt' hsize
  simp only [Layout.table, layout, clone, hcap, hsz, Table.mk.injEq, true_and]
  apply Array.toList_inj.mp
  simp [Function.comp_def, Chain.trimmed]

/-- **The layout of a well-formed table is accepted**, and the table comes back. -/
theorem toTable_layout (h : t.WellFormed) (hcapacity : t.capacity < 2 ^ 64)
    (hsize : t.size ≤ 2 ^ 53) : t.layout.toTable = .ok t.clone := by
  have hcap : t.layout.capacity.toNat = t.capacity := UInt64.toNat_ofNat_of_lt' hcapacity
  have hsize' : t.size < 2 ^ 64 := by omega
  have hsz : t.layout.size.toNat = t.size := UInt64.toNat_ofNat_of_lt' hsize'
  have hlayout : t.layout.WellFormed := by
    rw [Layout.WellFormed, hcap, hsz]
    exact h
  rw [Layout.toTable_eq_ok_iff, Layout.fault?_eq_none_iff (by omega)]
  exact ⟨hlayout, table_layout hcapacity hsize'⟩

end Table

end ChainedSet
