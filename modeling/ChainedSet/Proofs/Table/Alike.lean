import ChainedSet.Proofs.Table.Membership

/-!
# Tables that differ in their layout only

Two tables are alike when they hold the same keys in the same number of buckets. Their seeds may
differ, and so do the chains then, and the order in which the keys are listed. Alike tables answer
alike and stay alike under every operation.

Adding many keys is the case to look at. A merge takes the keys in the order in which the other
table lists them, so in two tables that are alike the growths may be due to different keys. But
growth depends on numbers only: capacity and events after a loop are a function of the capacity, the
size and the number of keys that were new (`climb_extend`). Of these, the last one is settled by the
keys as sets, whatever their order.
-/

namespace ChainedSet

namespace Table

variable {t u : Table}

/-! ## Growth in numbers -/

/-- The capacity of a table with `size` keys in `capacity` buckets after some more keys came, and
the growths on the way. -/
def climb (capacity size : Nat) : Nat → Nat × List Event
  | 0 => (capacity, [])
  | more + 1 =>
    if Capacity.overloads (size + 1) capacity then
      let rest := climb (2 * capacity) (size + 1) more
      (rest.1, .grew capacity (2 * capacity) (size + 1) :: rest.2)
    else climb capacity (size + 1) more

theorem climb_succ_of_fits {capacity size : Nat}
    (h : Capacity.overloads (size + 1) capacity = false) (more : Nat) :
    climb capacity size (more + 1) = climb capacity (size + 1) more := by
  simp [climb, h]

theorem climb_succ_of_overloads {capacity size : Nat}
    (h : Capacity.overloads (size + 1) capacity = true) (more : Nat) :
    climb capacity size (more + 1) =
      ((climb (2 * capacity) (size + 1) more).1,
        .grew capacity (2 * capacity) (size + 1) :: (climb (2 * capacity) (size + 1) more).2) := by
  simp [climb, h]

/-- **What growth does and tells depends on numbers only**: on the capacity, the size, and how many
of the keys were new. -/
theorem climb_extend (t : Table) (keys : List Key) :
    ((t.extend keys).state.capacity, (t.extend keys).events) =
      climb t.capacity t.size (t.extend keys).answer := by
  induction keys generalizing t with
  | nil => rfl
  | cons key keys ih =>
    rw [state_extend_cons, events_extend_cons, answer_extend_cons]
    rcases t.insert_cases key with ⟨-, hstep⟩ | ⟨-, hload, hstep⟩ | ⟨-, hload, hstep⟩
    · rw [hstep, Bool.toNat_false, Nat.zero_add, List.nil_append]
      exact ih t
    · have hfits : Capacity.overloads (t.size + 1) t.capacity = false := hload
      rw [hstep, Bool.toNat_true, Nat.add_comm 1, climb_succ_of_fits hfits, List.nil_append]
      exact ih (t.place key)
    · have hover : Capacity.overloads (t.size + 1) t.capacity = true := hload
      rw [hstep, Bool.toNat_true, Nat.add_comm 1, climb_succ_of_overloads hover]
      have hrest := ih (t.place key).grow
      rw [capacity_grow, size_grow, capacity_place, size_place] at hrest
      rw [← hrest]
      rfl

/-! ## Adding keys from a given stock -/

theorem WellFormed.size_insert_le_of_subset (h : t.WellFormed) {stock : List Key} {key : Key}
    (ht : t.toList ⊆ stock) (hkey : key ∈ stock) :
    (t.insert key).state.size ≤ stock.length := by
  rw [size_insert]
  split
  · exact h.size_le_of_subset ht
  · next hnew =>
    have hnodup : (key :: t.toList).Nodup :=
      h.nodup_toList.cons ((h.contains_eq_false_iff key).mp (by simpa using hnew))
    have hlength := (hnodup.subperm (List.cons_subset.mpr ⟨hkey, ht⟩)).length_le
    rwa [List.length_cons, ← h.size_eq_length] at hlength

/-- A table gets no larger than the stock that its keys are taken from. -/
theorem Sound.size_extend_le_of_subset (h : t.Sound) {keys stock : List Key}
    (hstock : stock.length < 2 ^ 53) (ht : t.toList ⊆ stock) (hkeys : keys ⊆ stock) :
    (t.extend keys).state.size ≤ stock.length := by
  induction keys generalizing t with
  | nil => exact h.wellFormed.size_le_of_subset ht
  | cons key keys ih =>
    obtain ⟨hkey, hkeys⟩ := List.cons_subset.mp hkeys
    rw [state_extend_cons]
    have hfirst := h.wellFormed.size_insert_le_of_subset ht hkey
    refine ih (h.insert key (Nat.lt_of_le_of_lt hfirst hstock)) ?_ hkeys
    intro other hother
    rcases (h.wellFormed.mem_toList_insert key other).mp hother with rfl | hold
    · exact hkey
    · exact ht hold

/-! ## Tables that are alike -/

/-- Two tables with the same keys in the same number of buckets. -/
structure Alike (t u : Table) : Prop where
  left : t.Sound
  right : u.Sound
  capacity_eq : t.capacity = u.capacity
  perm : t.toList.Perm u.toList

end Table

/-- Two steps that show the same and leave tables that are alike. -/
structure Step.Alike {α : Type} (s r : Step Table α) : Prop where
  answer_eq : s.answer = r.answer
  events_eq : s.events = r.events
  state : s.state.Alike r.state

theorem Step.Alike.map {α β : Type} {s r : Step Table α} (h : s.Alike r) (f : α → β) :
    (s.map f).Alike (r.map f) :=
  ⟨congrArg f h.answer_eq, h.events_eq, h.state⟩

namespace Table

theorem alike_withSeed (seed seed' : UInt64) : (withSeed seed).Alike (withSeed seed') where
  left := sound_withSeed seed
  right := sound_withSeed seed'
  capacity_eq := rfl
  perm := by simp

namespace Alike

variable {t u : Table}

theorem refl (h : t.Sound) : t.Alike t :=
  ⟨h, h, rfl, .refl _⟩

theorem size_eq (h : t.Alike u) : t.size = u.size := by
  rw [h.left.wellFormed.size_eq_length, h.right.wellFormed.size_eq_length, h.perm.length_eq]

theorem contains_eq (h : t.Alike u) (key : Key) : t.contains key = u.contains key := by
  rw [Bool.eq_iff_iff, h.left.wellFormed.contains_iff, h.right.wellFormed.contains_iff,
    h.perm.mem_iff]

theorem isEmpty_eq (h : t.Alike u) : t.isEmpty = u.isEmpty := by
  rw [isEmpty, isEmpty, h.size_eq]

theorem loadFactor_eq (h : t.Alike u) : t.loadFactor = u.loadFactor := by
  rw [loadFactor, loadFactor, h.size_eq, h.capacity_eq]

/-! ### Operations -/

/-- **Keys may be added in any order, and any number of times each.** -/
theorem extend_of_mem_iff (h : t.Alike u) {keys keys' : List Key}
    (hkeys : ∀ key, key ∈ keys ↔ key ∈ keys') (hsize : (t.extend keys).state.size < 2 ^ 53) :
    (t.extend keys).Alike (u.extend keys') := by
  have hleft := h.left.extend keys hsize
  have hmem := h.left.mem_toList_extend keys hsize
  -- The other run takes its keys from those that the first one ends with.
  have hsize' : (u.extend keys').state.size < 2 ^ 53 := by
    have hstock : (t.extend keys).state.toList.length < 2 ^ 53 := by
      rwa [← hleft.wellFormed.size_eq_length]
    refine Nat.lt_of_le_of_lt (h.right.size_extend_le_of_subset hstock ?_ ?_) hstock
    · intro key hkey
      exact (hmem key).mpr (Or.inl (h.perm.mem_iff.mpr hkey))
    · intro key hkey
      exact (hmem key).mpr (Or.inr ((hkeys key).mpr hkey))
  have hright := h.right.extend keys' hsize'
  have hperm : (t.extend keys).state.toList.Perm (u.extend keys').state.toList := by
    apply hleft.wellFormed.perm_of_mem_iff hright.wellFormed
    intro key
    rw [hmem, h.right.mem_toList_extend keys' hsize', h.perm.mem_iff, hkeys]
  -- As many keys at the start and at the end, so as many new ones, and so the same growths.
  have hanswer : (t.extend keys).answer = (u.extend keys').answer := by
    have ht := t.size_extend keys
    have hu := u.size_extend keys'
    rw [hleft.wellFormed.size_eq_length] at ht
    rw [hright.wellFormed.size_eq_length, ← hperm.length_eq, ← h.size_eq] at hu
    omega
  have hclimb : ((t.extend keys).state.capacity, (t.extend keys).events) =
      ((u.extend keys').state.capacity, (u.extend keys').events) := by
    rw [climb_extend, climb_extend, h.capacity_eq, h.size_eq, hanswer]
  obtain ⟨hcapacity, hevents⟩ := Prod.mk.inj hclimb
  exact ⟨hanswer, hevents, hleft, hright, hcapacity, hperm⟩

theorem extend (h : t.Alike u) {keys keys' : List Key} (hkeys : keys.Perm keys')
    (hsize : (t.extend keys).state.size < 2 ^ 53) :
    (t.extend keys).Alike (u.extend keys') :=
  h.extend_of_mem_iff (fun _ => hkeys.mem_iff) hsize

theorem merge (h : t.Alike u) {other other' : Table} (hother : other.Alike other')
    (hsize : (t.merge other).state.size < 2 ^ 53) :
    (t.merge other).Alike (u.merge other') := by
  rw [Table.merge] at hsize ⊢
  exact h.extend hother.perm hsize

theorem insert (h : t.Alike u) (key : Key) (hsize : (t.insert key).state.size < 2 ^ 53) :
    (t.insert key).Alike (u.insert key) := by
  have hloop : (t.extend [key]).Alike (u.extend [key]) := by
    apply h.extend (.refl _)
    rwa [state_extend_singleton]
  refine ⟨?_, ?_, ?_⟩
  · rw [answer_insert, answer_insert, h.contains_eq]
  · rw [← events_extend_singleton, ← events_extend_singleton, hloop.events_eq]
  · rw [← state_extend_singleton, ← state_extend_singleton]
    exact hloop.state

theorem remove (h : t.Alike u) (key : Key) : (t.remove key).Alike (u.remove key) := by
  have hleft := h.left.remove key
  have hright := h.right.remove key
  refine ⟨?_, ?_, hleft, hright, ?_, ?_⟩
  · rw [answer_remove, answer_remove, h.contains_eq]
  · rw [events_remove, events_remove]
  · rw [capacity_remove, capacity_remove, h.capacity_eq]
  · apply hleft.wellFormed.perm_of_mem_iff hright.wellFormed
    intro other
    rw [h.left.wellFormed.mem_toList_remove, h.right.wellFormed.mem_toList_remove,
      h.perm.mem_iff]

theorem lookup (h : t.Alike u) (key : Key) : (t.lookup key).Alike (u.lookup key) :=
  ⟨h.contains_eq key, rfl, h⟩

theorem clear (h : t.Alike u) : t.clear.Alike u.clear := by
  refine ⟨rfl, ?_, alike_withSeed t.seed u.seed⟩
  rw [Table.clear, Table.clear, h.size_eq, h.capacity_eq]

theorem clone (h : t.Alike u) : t.clone.Alike u.clone where
  left := h.left.clone
  right := h.right.clone
  capacity_eq := h.capacity_eq
  perm := by
    rw [toList_clone, toList_clone]
    exact h.perm

/-- A loop over calls that keep tables alike. -/
theorem forEach {act : Table → Key → Step Table Bool}
    (hact : ∀ {t u : Table}, t.Alike u → ∀ key, (act t key).Alike (act u key))
    (h : t.Alike u) (keys : List Key) :
    (Step.forEach act t keys).Alike (Step.forEach act u keys) := by
  induction keys generalizing t u with
  | nil => exact ⟨rfl, rfl, h⟩
  | cons key keys ih =>
    have hfirst := hact h key
    have hrest := ih hfirst.state
    rw [Step.forEach_cons, Step.forEach_cons]
    refine ⟨?_, ?_, hrest.state⟩
    · exact congrArg₂ (fun yes n => yes.toNat + n) hfirst.answer_eq hrest.answer_eq
    · exact congrArg₂ (· ++ ·) hfirst.events_eq hrest.events_eq

end Alike

end Table

end ChainedSet
