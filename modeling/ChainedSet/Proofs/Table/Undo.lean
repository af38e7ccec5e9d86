import ChainedSet.Proofs.Table.Order

/-!
# Insertion and removal undo each other

A key that is inserted and then removed leaves no trace in the order of any chain. If the table did
not grow, it is what it was; if it did, it is what growth alone would have made of it
(`WellFormed.rows_remove_insert`): the key came last of all, wherever it then went, and so it goes
last when it is taken out of the order in which the table is laid out.

The other way round, a key that is removed and then inserted moves to the end of its chain, and
nothing else moves (`WellFormed.rows_insert_remove`). The table cannot grow here, since it had as
many keys before.

What may be left of either is the room of a chain, which nothing but the memory of a table depends
on. The main statement is `Reachable.insert_remove_undo`.
-/

namespace ChainedSet.Table

/-- Two tables that are the same but for the room of their chains. -/
structure SameButRoom (t u : Table) : Prop where
  seed_eq : t.seed = u.seed
  capacity_eq : t.capacity = u.capacity
  size_eq : t.size = u.size
  rows_eq : t.rows = u.rows

variable {t : Table} {key : Key}

/-! ## Growth -/

theorem capacity_insert_of_ne (h : (t.insert key).state.capacity ≠ t.capacity) :
    (t.insert key).state.capacity = 2 * t.capacity := by
  rcases t.insert_cases key with ⟨-, hstep⟩ | ⟨-, -, hstep⟩ | ⟨-, -, hstep⟩
  · rw [hstep] at h
    exact absurd rfl h
  · rw [hstep] at h
    exact absurd rfl h
  · rw [hstep]
    rfl

theorem WellFormed.keys_chain_grow (h : t.WellFormed) {bucket : Nat}
    (hbucket : bucket < 2 * t.capacity) :
    (t.grow.chain bucket).keys =
      (t.chain (bucket % t.capacity)).keys.filter fun other =>
        Murmur.slot t.seed (2 * t.capacity) other = bucket :=
  keys_chain_grow_of_home h.wellPlaced.regular.pos h.wellPlaced.length_eq h.wellPlaced.home_eq
    hbucket

/-! ## In and out -/

theorem Sound.size_insert_le (h : t.Sound) (key : Key) :
    (t.insert key).state.size ≤ 2 ^ 53 :=
  Nat.le_trans (t.size_insert_le key) h.size_lt

theorem WellFormed.contains_insert (h : t.WellFormed) (key : Key)
    (hsize : (t.insert key).state.size ≤ 2 ^ 53) : (t.insert key).state.contains key = true := by
  rw [(h.insert key hsize).contains_iff, h.mem_toList_insert]
  exact Or.inl rfl

/-- A key that comes and goes leaves the table laid out in the old order, in the buckets that there
are by then. -/
theorem WellFormed.rows_remove_insert (h : t.WellFormed) (hkey : key ∉ t.toList)
    (hsize : (t.insert key).state.size ≤ 2 ^ 53) :
    ((t.insert key).state.remove key).state.rows =
      scatteredRows t.seed (t.insert key).state.capacity t.toList := by
  have habsent := (h.contains_eq_false_iff key).mpr hkey
  have hadded := rows_insert_of_rows_eq h.rows_eq h.wellPlaced.regular.pos habsent
  rw [← t.seed_insert key] at hadded ⊢
  rw [rows_remove_of_rows_eq hadded (h.contains_insert key hsize), List.erase_append_right _ hkey,
    List.erase_cons_head, List.append_nil]

theorem WellFormed.size_remove_insert (h : t.WellFormed) (hkey : key ∉ t.toList)
    (hsize : (t.insert key).state.size ≤ 2 ^ 53) :
    ((t.insert key).state.remove key).state.size = t.size := by
  rw [size_remove, if_pos (h.contains_insert key hsize), size_insert,
    (h.contains_eq_false_iff key).mpr hkey, if_neg Bool.false_ne_true, Nat.add_sub_cancel]

theorem WellFormed.sameButRoom_remove_insert (h : t.WellFormed) (hkey : key ∉ t.toList)
    (hsize : (t.insert key).state.size ≤ 2 ^ 53)
    (hcapacity : (t.insert key).state.capacity = t.capacity) :
    SameButRoom ((t.insert key).state.remove key).state t where
  seed_eq := by rw [seed_remove, seed_insert]
  capacity_eq := by rw [capacity_remove, hcapacity]
  size_eq := h.size_remove_insert hkey hsize
  rows_eq := by rw [h.rows_remove_insert hkey hsize, hcapacity, ← h.rows_eq]

/-- **Inserting and removing a key that grows the table** makes of the table what growing makes of
it. -/
theorem WellFormed.sameButRoom_remove_insert_grow (h : t.WellFormed) (hkey : key ∉ t.toList)
    (hsize : (t.insert key).state.size ≤ 2 ^ 53)
    (hcapacity : (t.insert key).state.capacity ≠ t.capacity) :
    SameButRoom ((t.insert key).state.remove key).state t.grow where
  seed_eq := by rw [seed_remove, seed_insert, seed_grow]
  capacity_eq := by rw [capacity_remove, capacity_insert_of_ne hcapacity, capacity_grow]
  size_eq := h.size_remove_insert hkey hsize
  rows_eq := by
    rw [h.rows_remove_insert hkey hsize, capacity_insert_of_ne hcapacity, rows_grow]

theorem SameButRoom.keys_chain_eq {u : Table} (h : SameButRoom t u) (bucket : Nat) :
    (t.chain bucket).keys = (u.chain bucket).keys := by
  rw [keys_chain, keys_chain, ← getElem?_rows, ← getElem?_rows, h.rows_eq]

/-! ## Out and in -/

theorem WellFormed.size_remove_of_mem (h : t.WellFormed) (hkey : key ∈ t.toList) :
    (t.remove key).state.size + 1 = t.size := by
  have hsome : 0 < t.size := by
    rw [h.size_eq_length]
    exact List.length_pos_of_mem hkey
  rw [size_remove, if_pos ((h.contains_iff key).mpr hkey)]
  omega

/-- A key that was just taken out can be added again without growth. -/
theorem WellFormed.insert_remove_eq (h : t.WellFormed) (hkey : key ∈ t.toList)
    (hsize : t.size ≤ 2 ^ 53) :
    (t.remove key).state.insert key = ⟨true, (t.remove key).state.place key, []⟩ := by
  rcases (t.remove key).state.insert_cases key with ⟨hold, -⟩ | ⟨-, -, hstep⟩ | ⟨-, hload, -⟩
  · have hmem := ((h.remove key).contains_iff key).mp hold
    exact absurd rfl ((h.mem_toList_remove key key).mp hmem).1
  · exact hstep
  · -- The table has as many keys again as before, and did not overload with them.
    rw [isOverloaded, size_place, capacity_place, capacity_remove, h.size_remove_of_mem hkey,
      Capacity.overloads_iff h.wellPlaced.regular hsize] at hload
    have hfits := h.wellPlaced.load_le
    omega

/-- A key that goes and comes back moves to the end of its chain. -/
theorem rows_place_remove (hkey : t.contains key = true) :
    ((t.remove key).state.place key).rows =
      t.rows.modify (t.home key) fun row => row.erase key ++ [key] := by
  have hhome : (t.remove key).state.home key = t.home key := by
    rw [home, seed_remove, capacity_remove, home]
  rw [rows_place, rows_remove hkey, hhome]
  exact List.modify_modify_eq _ _ _ _

/-- `u` is `t` with a key moved to the end of its chain, whatever the room of the chains. -/
structure IsMovedLast (t : Table) (key : Key) (u : Table) : Prop where
  seed_eq : u.seed = t.seed
  capacity_eq : u.capacity = t.capacity
  size_eq : u.size = t.size
  rows_eq : u.rows = t.rows.modify (t.home key) fun row => row.erase key ++ [key]

theorem WellFormed.isMovedLast_insert_remove (h : t.WellFormed) (hkey : key ∈ t.toList)
    (hsize : t.size ≤ 2 ^ 53) : IsMovedLast t key ((t.remove key).state.insert key).state where
  seed_eq := by rw [seed_insert, seed_remove]
  capacity_eq := by rw [h.insert_remove_eq hkey hsize, capacity_place, capacity_remove]
  size_eq := by rw [h.insert_remove_eq hkey hsize, size_place, h.size_remove_of_mem hkey]
  rows_eq := by
    rw [h.insert_remove_eq hkey hsize]
    exact rows_place_remove ((h.contains_iff key).mpr hkey)

/-! ## Both ways -/

/-- **Insertion and removal undo each other.** A new key that is inserted and removed again leaves
the table as it was, or, if the table grew meanwhile, as growth makes it: every chain split in two, in
its order, and the key nowhere. A key of the table that is removed and inserted again stands last in
its chain; all else, the capacity with it, is as it was. -/
theorem Reachable.insert_remove_undo (h : t.Reachable) (key : Key) :
    (key ∉ t.toList →
      let added := t.insert key
      let undone := added.state.remove key
      added.answer = true ∧ undone.answer = true ∧
        (added.state.capacity = t.capacity → SameButRoom undone.state t) ∧
        (added.state.capacity ≠ t.capacity →
          SameButRoom undone.state t.grow ∧ key ∉ undone.state.toList ∧
          ∀ bucket < 2 * t.capacity, (undone.state.chain bucket).keys =
            (t.chain (bucket % t.capacity)).keys.filter fun other =>
              Murmur.slot t.seed (2 * t.capacity) other = bucket)) ∧
    (key ∈ t.toList →
      let taken := t.remove key
      let redone := taken.state.insert key
      taken.answer = true ∧ redone.answer = true ∧ taken.state.capacity = t.capacity ∧
        IsMovedLast t key redone.state) := by
  have hwellFormed := h.sound.wellFormed
  have hadded := h.sound.size_insert_le key
  have hsize := Nat.le_of_lt h.sound.size_lt
  constructor
  · intro hkey
    have hcontains := hwellFormed.contains_insert key hadded
    refine ⟨?_, ?_, hwellFormed.sameButRoom_remove_insert hkey hadded, ?_⟩
    · rw [answer_insert, (hwellFormed.contains_eq_false_iff key).mpr hkey, Bool.not_false]
    · rw [answer_remove, hcontains]
    · intro hcapacity
      have hgrown := hwellFormed.sameButRoom_remove_insert_grow hkey hadded hcapacity
      refine ⟨hgrown, ?_, ?_⟩
      · rw [(hwellFormed.insert key hadded).mem_toList_remove]
        exact fun hmem => hmem.1 rfl
      · intro bucket hbucket
        rw [hgrown.keys_chain_eq, hwellFormed.keys_chain_grow hbucket]
  · intro hkey
    refine ⟨?_, ?_, t.capacity_remove key, hwellFormed.isMovedLast_insert_remove hkey hsize⟩
    · rw [answer_remove, (hwellFormed.contains_iff key).mpr hkey]
    · rw [hwellFormed.insert_remove_eq hkey hsize]

/-- In a table of 22 keys, which a further one would overload: a new key comes and goes, and a key of
it goes and comes back. -/
theorem insert_remove_undo_full :
    let t := (ofList ((List.range 22).map fun n => [UInt8.ofNat n])).state
    let undone := ((t.insert [50]).state.remove [50]).state
    let redone := ((t.remove [5]).state.insert [5]).state
    t.Reachable ∧ [50] ∉ t.toList ∧ [5] ∈ t.toList ∧ (t.insert [50]).state.capacity ≠ t.capacity ∧
      SameButRoom undone t.grow ∧ [50] ∉ undone.toList ∧
      (∀ bucket < 2 * t.capacity, (undone.chain bucket).keys =
        (t.chain (bucket % t.capacity)).keys.filter fun other =>
          Murmur.slot t.seed (2 * t.capacity) other = bucket) ∧
      IsMovedLast t [5] redone := by
  intro t undone redone
  have ht : t.Reachable := .ofList _ (by decide +kernel)
  have hnew : [50] ∉ t.toList := by decide +kernel
  have hold : [5] ∈ t.toList := by decide +kernel
  have hgrows : (t.insert [50]).state.capacity ≠ t.capacity := by decide +kernel
  obtain ⟨-, -, -, hundone⟩ := (ht.insert_remove_undo [50]).1 hnew
  obtain ⟨hsame, hnowhere, hsplit⟩ := hundone hgrows
  obtain ⟨-, -, -, hredone⟩ := (ht.insert_remove_undo [5]).2 hold
  exact ⟨ht, hnew, hold, hgrows, hsame, hnowhere, hsplit, hredone⟩

end ChainedSet.Table
