import ChainedSet.Proofs.Table.Action

/-!
# Chains keep the order of insertion

Beside a run goes a list of its keys, oldest first: a new key is appended, one that is taken out is
deleted, and the rest keeps its order. Every chain is the part of that list whose home it is
(`InOrder`), whatever growth has done on the way.

Growth is the case to look at. It lays the keys out in the order of the old *buckets*, which is not
that of insertion. But twice as many buckets split every old bucket in two and mix no two of them
(`scatteredRows_double`), so each new chain gets its keys from one old chain, in order.

What one operation makes of rows that are laid out in an order is said for any table, and only then
for a run: a well-formed table is laid out in the order in which it lists its keys
(`WellFormed.rows_eq`).
-/

namespace ChainedSet

/-! ## Rows whose keys are at home -/

theorem flatten_eq_of_forall_ne {α : Type} {rows : List (List α)} {i : Nat} {row : List α}
    (hrow : rows[i]? = some row) (h : ∀ j other, rows[j]? = some other → j ≠ i → other = []) :
    rows.flatten = row := by
  induction rows generalizing i with
  | nil => simp at hrow
  | cons first rows ih =>
    cases i with
    | zero =>
      obtain rfl : first = row := by simpa using hrow
      have hrest : rows.flatten = [] := by
        rw [List.flatten_eq_nil_iff]
        intro other hother
        obtain ⟨j, hj⟩ := List.mem_iff_getElem?.mp hother
        exact h (j + 1) other (by simpa using hj) (by omega)
      rw [List.flatten_cons, hrest, List.append_nil]
    | succ i =>
      obtain rfl : first = [] := h 0 first rfl (by omega)
      rw [List.flatten_cons, List.nil_append]
      apply ih (by simpa using hrow)
      intro j other hj hne
      exact h (j + 1) other (by simpa using hj) (by omega)

/-- Where every key is at home, keys of one home are looked for in one row. -/
theorem filter_flatten_of_home {seed : UInt64} {capacity : Nat} {rows : List (List Key)}
    (hhome : ∀ bucket row, rows[bucket]? = some row →
      ∀ key ∈ row, Murmur.slot seed capacity key = bucket)
    {bucket : Nat} {row : List Key} (hrow : rows[bucket]? = some row) {p : Key → Bool}
    (hp : ∀ key, p key = true → Murmur.slot seed capacity key = bucket) :
    rows.flatten.filter p = row.filter p := by
  rw [List.filter_flatten]
  apply flatten_eq_of_forall_ne (i := bucket)
  · rw [List.getElem?_map, hrow, Option.map_some]
  · intro other filtered hfiltered hne
    rw [List.getElem?_map] at hfiltered
    obtain ⟨keys, hkeys, rfl⟩ := Option.map_eq_some_iff.mp hfiltered
    rw [List.filter_eq_nil_iff]
    intro key hkey hpkey
    exact hne ((hhome other keys hkeys key hkey).symm.trans (hp key hpkey))

/-- Where the keys of all rows are laid out in a multiple of as many rows, a new row gets its keys
from one old row, the one with the same number modulo the old capacity. -/
theorem filter_flatten_of_dvd {seed : UInt64} {capacity larger : Nat} {rows : List (List Key)}
    (hhome : ∀ bucket row, rows[bucket]? = some row →
      ∀ key ∈ row, Murmur.slot seed capacity key = bucket)
    (hdvd : capacity ∣ larger) {bucket : Nat} {row : List Key}
    (hrow : rows[bucket % capacity]? = some row) :
    rows.flatten.filter (fun key => Murmur.slot seed larger key = bucket) =
      row.filter fun key => Murmur.slot seed larger key = bucket := by
  apply filter_flatten_of_home hhome hrow
  intro key hkey
  rw [decide_eq_true_iff] at hkey
  rw [← hkey]
  exact (Nat.mod_mod_of_dvd _ hdvd).symm

/-- **Growth does not mix chains**: keys that stand in their rows can be laid out in twice as many
rows as if they had come in their old order. -/
theorem scatteredRows_double (seed : UInt64) {capacity : Nat} (h : 0 < capacity)
    (keys : List Key) :
    scatteredRows seed (2 * capacity) (scatteredRows seed capacity keys).flatten =
      scatteredRows seed (2 * capacity) keys := by
  apply List.ext_getElem?
  intro bucket
  by_cases hbucket : bucket < 2 * capacity
  · have hsource := getElem?_scatteredRows seed keys (Nat.mod_lt bucket h)
    rw [getElem?_scatteredRows seed _ hbucket, getElem?_scatteredRows seed _ hbucket,
      filter_flatten_of_dvd slot_of_mem_scatteredRows (Nat.dvd_mul_left capacity 2) hsource,
      List.filter_filter]
    congr 2
    funext key
    -- A key of the new bucket is at home in the old one.
    have hslot (hkey : Murmur.slot seed (2 * capacity) key = bucket) :
        Murmur.slot seed capacity key = bucket % capacity := by
      rw [← Murmur.slot_double_mod, hkey]
    simpa using hslot
  · rw [List.getElem?_eq_none (by simpa using hbucket),
      List.getElem?_eq_none (by simpa using hbucket)]

theorem WellPlaced.scatteredRows_flatten {seed : UInt64} {capacity size : Nat}
    {rows : List (List Key)} (h : WellPlaced seed capacity size rows) :
    scatteredRows seed capacity rows.flatten = rows := by
  apply List.ext_getElem?
  intro bucket
  cases hrow : rows[bucket]? with
  | none =>
    have hlength : capacity ≤ bucket := by
      rw [← h.length_eq]
      exact List.getElem?_eq_none_iff.mp hrow
    exact List.getElem?_eq_none (by simpa using hlength)
  | some row =>
    have hbucket : bucket < capacity := by
      rw [← h.length_eq]
      exact (List.getElem?_eq_some_iff.mp hrow).1
    rw [getElem?_scatteredRows seed _ hbucket, filter_flatten_of_home h.home_eq hrow (by simp)]
    congr 1
    rw [List.filter_eq_self]
    simpa using h.home_eq bucket row hrow

/-- The layout of keys that were inserted in a given order. -/
def Layout.ofOrder (seed : UInt64) (capacity : Nat) (order : List Key) : Layout where
  seed := seed
  capacity := UInt64.ofNat capacity
  size := UInt64.ofNat order.length
  buckets := scatteredRows seed capacity order

namespace Table

/-! ## Tables that are laid out in an order -/

section LaidOut

variable {t : Table} {order : List Key}

theorem keys_chain_of_rows_eq (h : t.rows = scatteredRows t.seed t.capacity order) {bucket : Nat}
    (hbucket : bucket < t.capacity) :
    (t.chain bucket).keys =
      order.filter fun key => Murmur.slot t.seed t.capacity key = bucket := by
  rw [keys_chain, ← getElem?_rows, h, getElem?_scatteredRows t.seed order hbucket, Option.getD_some]

theorem rows_place_of_rows_eq (h : t.rows = scatteredRows t.seed t.capacity order) (key : Key) :
    (t.place key).rows = scatteredRows t.seed t.capacity (order ++ [key]) := by
  rw [rows_place, h, scatteredRows_concat]
  rfl

/-- A new key comes last, whether the table grows or not. -/
theorem rows_insert_of_rows_eq (h : t.rows = scatteredRows t.seed t.capacity order)
    (hpos : 0 < t.capacity) {key : Key} (hkey : t.contains key = false) :
    (t.insert key).state.rows =
      scatteredRows t.seed (t.insert key).state.capacity (order ++ [key]) := by
  rcases t.insert_cases key with ⟨hold, -⟩ | ⟨-, -, hstep⟩ | ⟨-, -, hstep⟩
  · rw [hkey] at hold
    cases hold
  · rw [hstep]
    exact rows_place_of_rows_eq h key
  · rw [hstep]
    show (t.place key).grow.rows = scatteredRows t.seed (2 * t.capacity) (order ++ [key])
    rw [rows_grow, toList_eq_flatten_rows, rows_place_of_rows_eq h key]
    exact scatteredRows_double t.seed hpos _

theorem rows_remove_of_rows_eq (h : t.rows = scatteredRows t.seed t.capacity order) {key : Key}
    (hkey : t.contains key = true) :
    (t.remove key).state.rows = scatteredRows t.seed t.capacity (order.erase key) := by
  rw [rows_remove hkey, h]
  exact (scatteredRows_erase t.seed t.capacity order key).symm

/-- A table is laid out in the order in which it lists its keys. -/
theorem WellFormed.rows_eq (h : t.WellFormed) :
    t.rows = scatteredRows t.seed t.capacity t.toList := by
  rw [toList_eq_flatten_rows]
  exact h.wellPlaced.scatteredRows_flatten.symm

/-- In a larger table the keys of one bucket come from one chain, if every key was at home. -/
theorem filter_toList_of_home (hpos : 0 < t.capacity) (hlength : t.rows.length = t.capacity)
    (hhome : ∀ bucket row, t.rows[bucket]? = some row →
      ∀ key ∈ row, Murmur.slot t.seed t.capacity key = bucket)
    {larger : Nat} (hdvd : t.capacity ∣ larger) (bucket : Nat) :
    t.toList.filter (fun key => Murmur.slot t.seed larger key = bucket) =
      (t.chain (bucket % t.capacity)).keys.filter fun key =>
        Murmur.slot t.seed larger key = bucket := by
  have hlt : bucket % t.capacity < t.rows.length := by
    rw [hlength]
    exact Nat.mod_lt _ hpos
  have hrow : t.rows[bucket % t.capacity]? = some (t.chain (bucket % t.capacity)).keys := by
    rw [keys_chain, ← getElem?_rows, List.getElem?_eq_getElem hlt, Option.getD_some]
  rw [toList_eq_flatten_rows]
  exact filter_flatten_of_dvd hhome hdvd hrow

theorem WellFormed.filter_toList (h : t.WellFormed) {larger : Nat} (hdvd : t.capacity ∣ larger)
    (bucket : Nat) :
    t.toList.filter (fun key => Murmur.slot t.seed larger key = bucket) =
      (t.chain (bucket % t.capacity)).keys.filter fun key =>
        Murmur.slot t.seed larger key = bucket :=
  filter_toList_of_home h.wellPlaced.regular.pos h.wellPlaced.length_eq h.wellPlaced.home_eq hdvd
    bucket

/-- Growth splits every chain in two and keeps the order in both parts. -/
theorem keys_chain_grow_of_home (hpos : 0 < t.capacity) (hlength : t.rows.length = t.capacity)
    (hhome : ∀ bucket row, t.rows[bucket]? = some row →
      ∀ key ∈ row, Murmur.slot t.seed t.capacity key = bucket)
    {bucket : Nat} (hbucket : bucket < 2 * t.capacity) :
    (t.grow.chain bucket).keys =
      (t.chain (bucket % t.capacity)).keys.filter fun key =>
        Murmur.slot t.seed (2 * t.capacity) key = bucket := by
  rw [← filter_toList_of_home hpos hlength hhome (Nat.dvd_mul_left t.capacity 2)]
  exact keys_chain_of_rows_eq (t := t.grow) t.rows_grow hbucket

end LaidOut

/-! ## The keys in order of insertion -/

/-- Adds a key at the end, unless it is there. -/
def appendNew (order : List Key) (key : Key) : List Key :=
  if key ∈ order then order else order ++ [key]

/-- Of keys that come once each, those are appended that are not there yet. -/
theorem foldl_appendNew_of_nodup {keys : List Key} (h : keys.Nodup) (order : List Key) :
    keys.foldl appendNew order = order ++ keys.filter fun key => key ∉ order := by
  induction keys generalizing order with
  | nil => simp
  | cons key keys ih =>
    obtain ⟨hkey, hkeys⟩ := List.nodup_cons.mp h
    rw [List.foldl_cons, ih hkeys, appendNew]
    by_cases hold : key ∈ order
    · rw [if_pos hold, List.filter_cons_of_neg (by simpa using hold)]
    · rw [if_neg hold, List.filter_cons_of_pos (by simpa using hold), List.append_assoc,
        List.singleton_append]
      -- The key that was just appended does not come again.
      congr 2
      apply List.filter_congr
      intro other hother
      have hne : other ≠ key := ne_of_mem_of_not_mem hother hkey
      simp [hne]

/-- The keys after a call, oldest first. -/
def Action.runOrder (order : List Key) : Action → List Key
  | insert key => appendNew order key
  | remove key => order.erase key
  | contains _ => order
  | clear => []
  | extend keys => keys.foldl appendNew order
  | merge other => other.toList.foldl appendNew order

/-- The keys after a run, oldest first. -/
def orderAfter (order : List Key) (actions : List Action) : List Key :=
  actions.foldl Action.runOrder order

/-- The chains of `t` hold the keys of `order`, each chain in that order. -/
structure InOrder (t : Table) (order : List Key) : Prop where
  sound : t.Sound
  rows_eq : t.rows = scatteredRows t.seed t.capacity order

theorem inOrder_withSeed (seed : UInt64) : InOrder (withSeed seed) [] where
  sound := sound_withSeed seed
  rows_eq := by
    rw [rows_withSeed]
    simp [scatteredRows, withSeed]

/-- The keys of a table may be taken to have come in the order in which it lists them. -/
theorem Sound.inOrder_toList {t : Table} (h : t.Sound) : InOrder t t.toList where
  sound := h
  rows_eq := h.wellFormed.rows_eq

namespace InOrder

variable {t : Table} {order : List Key}

theorem perm (h : InOrder t order) : t.toList.Perm order := by
  rw [toList_eq_flatten_rows, h.rows_eq]
  exact flatten_scatteredRows_perm t.seed h.sound.wellFormed.wellPlaced.regular.pos order

theorem size_eq (h : InOrder t order) : t.size = order.length := by
  rw [h.sound.wellFormed.size_eq_length, h.perm.length_eq]

theorem contains_iff (h : InOrder t order) (key : Key) :
    t.contains key = true ↔ key ∈ order := by
  rw [h.sound.wellFormed.contains_iff, h.perm.mem_iff]

theorem layout_eq (h : InOrder t order) :
    t.layout = Layout.ofOrder t.seed t.capacity order := by
  rw [Layout.ofOrder, ← h.size_eq, ← h.rows_eq]
  rfl

theorem keys_getElem? (h : InOrder t order) {bucket : Nat} (hbucket : bucket < t.capacity) :
    t.buckets[bucket]?.map Chain.keys =
      some (order.filter fun key => Murmur.slot t.seed t.capacity key = bucket) := by
  rw [← getElem?_rows, h.rows_eq, getElem?_scatteredRows t.seed order hbucket]

theorem keys_chain (h : InOrder t order) {bucket : Nat} (hbucket : bucket < t.capacity) :
    (t.chain bucket).keys =
      order.filter fun key => Murmur.slot t.seed t.capacity key = bucket :=
  keys_chain_of_rows_eq h.rows_eq hbucket

/-! ## One call -/

theorem insert (h : InOrder t order) (key : Key)
    (hsize : (t.insert key).state.size < 2 ^ 53) :
    InOrder (t.insert key).state (appendNew order key) where
  sound := h.sound.insert key hsize
  rows_eq := by
    rw [appendNew]
    by_cases hkey : key ∈ order
    · rw [if_pos hkey, h.sound.wellFormed.insert_of_mem (h.perm.mem_iff.mpr hkey)]
      exact h.rows_eq
    · have hnew : t.contains key = false := by simpa [← h.contains_iff] using hkey
      rw [if_neg hkey, seed_insert]
      exact rows_insert_of_rows_eq h.rows_eq h.sound.wellFormed.wellPlaced.regular.pos hnew

theorem remove (h : InOrder t order) (key : Key) :
    InOrder (t.remove key).state (order.erase key) where
  sound := h.sound.remove key
  rows_eq := by
    cases hkey : t.contains key with
    | false =>
      have hnot : key ∉ order := by simp [← h.contains_iff, hkey]
      rw [remove_of_not_contains hkey, List.erase_of_not_mem hnot]
      exact h.rows_eq
    | true =>
      rw [seed_remove, capacity_remove]
      exact rows_remove_of_rows_eq h.rows_eq hkey

theorem extend (h : InOrder t order) (keys : List Key)
    (hsize : (t.extend keys).state.size < 2 ^ 53) :
    InOrder (t.extend keys).state (keys.foldl appendNew order) := by
  induction keys generalizing t order with
  | nil => exact h
  | cons key keys ih =>
    rw [state_extend_cons] at hsize ⊢
    have hfirst : (t.insert key).state.size < 2 ^ 53 :=
      Nat.lt_of_le_of_lt ((t.insert key).state.size_le_size_extend keys) hsize
    exact ih (h.insert key hfirst) hsize

/-- **A call changes the chains as it changes the list.** -/
theorem run (h : InOrder t order) (action : Action)
    (hsize : (action.run t).state.size < 2 ^ 53) :
    InOrder (action.run t).state (action.runOrder order) := by
  cases action with
  | insert key =>
    rw [Action.run, Step.state_map] at hsize ⊢
    exact h.insert key hsize
  | remove key =>
    rw [Action.run, Step.state_map]
    exact h.remove key
  | contains key => exact h
  | clear => exact inOrder_withSeed t.seed
  | extend keys => exact h.extend keys hsize
  | merge other => exact h.extend other.toList hsize

theorem after (h : InOrder t order) (actions : List Action)
    (hsize : ∀ s ∈ t.steps actions, s.state.size < 2 ^ 53) :
    InOrder (t.after actions) (orderAfter order actions) := by
  induction actions generalizing t order with
  | nil => exact h
  | cons action actions ih =>
    have hfirst := h.run action (hsize _ (List.mem_cons_self ..))
    exact ih hfirst fun s hs => hsize s (List.mem_cons_of_mem _ hs)

end InOrder

/-! ## Whole runs -/

/-- **Chains are in insertion order, across growth.** A run starts from any table that can be
reached, whose list is that of its keys (empty for a new table). Then in every bucket stand the keys
of the list whose home it is, in the order of the list. So what is stored, and the image that is
written, depends on the seed, the capacity and the list only. -/
theorem Reachable.chains_in_order {t : Table} (ht : t.Reachable) (actions : List Action)
    (hsize : ∀ s ∈ t.steps actions, s.state.size < 2 ^ 53) :
    let u := t.after actions
    let order := orderAfter t.toList actions
    u.seed = t.seed ∧ u.size = order.length ∧ u.buckets.size = u.capacity ∧
      (∀ bucket < u.capacity, u.buckets[bucket]?.map Chain.keys =
        some (order.filter fun key => Murmur.slot t.seed u.capacity key = bucket)) ∧
      u.encode = (Layout.ofOrder t.seed u.capacity order).encode := by
  intro u order
  have hseed : u.seed = t.seed := t.seed_after actions
  have horder : InOrder u order := ht.sound.inOrder_toList.after actions hsize
  refine ⟨hseed, horder.size_eq, ?_, ?_, ?_⟩
  · rw [← length_rows, horder.rows_eq, length_scatteredRows]
  · intro bucket hbucket
    rw [horder.keys_getElem? hbucket, hseed]
  · rw [encode, horder.layout_eq, hseed]

/-- A table that grows and then loses a key, which is inserted again and so stands last. -/
theorem chains_in_order_grown :
    let keys : List Key := (List.range 23).map fun n => [UInt8.ofNat n]
    let actions : List Action := [.extend keys, .remove [5], .insert [1, 1], .insert [5]]
    let u := (withSeed 9).after actions
    let order := orderAfter (withSeed 9).toList actions
    (∀ s ∈ (withSeed 9).steps actions, s.state.size < 2 ^ 53) ∧ u.capacity = 64 ∧
      u.seed = 9 ∧ u.size = order.length ∧ u.buckets.size = u.capacity ∧
      (∀ bucket < u.capacity, u.buckets[bucket]?.map Chain.keys =
        some (order.filter fun key => Murmur.slot 9 u.capacity key = bucket)) ∧
      u.encode = (Layout.ofOrder 9 u.capacity order).encode := by
  intro keys actions u order
  have hsize : ∀ s ∈ (withSeed 9).steps actions, s.state.size < 2 ^ 53 := by decide +kernel
  exact ⟨hsize, by decide +kernel, Reachable.chains_in_order (.withSeed 9) actions hsize⟩

end Table

end ChainedSet
