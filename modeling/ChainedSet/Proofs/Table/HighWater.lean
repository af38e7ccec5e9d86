import Mathlib.Order.Bounds.Defs
import ChainedSet.Proofs.Table.Action

/-!
# The capacity tells the high-water mark

Keys that are taken out leave the capacity as it is, and keys that come back do not change it below
the old peak. So from a fresh table on, the capacity is the least regular one that the largest size
so far fits into, and the growths that were told are the doublings up to it, each at the first size
that did not fit any more (`Fresh.capacity_of_peak`).

`HighWater` is what a single insertion keeps. A table can only overload when it stands at its peak:
then the peak rises by one, and there is a single size at which this can happen.
-/

namespace ChainedSet

theorem Capacity.Regular.two_mul_le {capacity other : Nat} (h : Regular capacity)
    (hother : Regular other) (hlt : capacity < other) : 2 * capacity ≤ other := by
  obtain ⟨j, rfl⟩ := h
  obtain ⟨k, rfl⟩ := hother
  have hjk : j < k := by
    by_contra hle
    have hpow : 2 ^ k ≤ 2 ^ j := Nat.pow_le_pow_right (by omega) (by omega)
    exact absurd hlt (Nat.not_lt.mpr (Nat.mul_le_mul_left initialCapacity hpow))
  calc 2 * (initialCapacity * 2 ^ j) = initialCapacity * 2 ^ (j + 1) := by ring
    _ ≤ initialCapacity * 2 ^ k :=
      Nat.mul_le_mul_left _ (Nat.pow_le_pow_right (by omega) hjk)

namespace Table

/-- The growths up to the `k`-th doubling, each at the first size that is too large. -/
def growths (k : Nat) : List Event :=
  (List.range k).map fun j =>
    .grew (Capacity.initialCapacity * 2 ^ j) (Capacity.initialCapacity * 2 ^ (j + 1))
      (7 * (Capacity.initialCapacity * 2 ^ j) / 10 + 1)

/-- The largest size of a run so far. -/
def peak (t : Table) (actions : List Action) : Nat :=
  (t.steps actions).foldl (fun largest s => max largest s.state.size) t.size

/-- The events of a run, in order. -/
def told (t : Table) (actions : List Action) : List Event :=
  (t.steps actions).flatMap Step.events

/-- A table that was just made, or just cleared. -/
inductive Fresh : Table → Prop
  | withSeed (seed : UInt64) : Fresh (withSeed seed)
  | clear (t : Table) : Fresh t.clear.state

/-- What the largest size so far says of a table, and of the events since it was fresh. -/
structure HighWater (t : Table) (peak : Nat) (events : List Event) : Prop where
  size_le : t.size ≤ peak
  isLeast : IsLeast {capacity | Capacity.Regular capacity ∧ 10 * peak ≤ 7 * capacity} t.capacity
  exists_growths : ∃ k, t.capacity = Capacity.initialCapacity * 2 ^ k ∧ events = growths k

theorem Fresh.highWater {t : Table} (h : Fresh t) : HighWater t t.size [] := by
  obtain ⟨seed, rfl⟩ : ∃ seed, t = Table.withSeed seed := by
    cases h with
    | withSeed seed => exact ⟨seed, rfl⟩
    | clear t => exact ⟨t.seed, rfl⟩
  refine ⟨Nat.le_refl _, ⟨⟨Capacity.regular_initialCapacity, Nat.zero_le _⟩, ?_⟩, 0, rfl, rfl⟩
  rintro capacity ⟨hregular, -⟩
  exact hregular.initialCapacity_le

namespace HighWater

variable {t u : Table} {peak : Nat} {events : List Event}

theorem regular (h : HighWater t peak events) : Capacity.Regular t.capacity :=
  h.isLeast.1.1

theorem load_le (h : HighWater t peak events) : 10 * t.size ≤ 7 * t.capacity := by
  have hpeak := h.isLeast.1.2
  have hsize := h.size_le
  omega

/-- A table of the same capacity that is not overloaded either. -/
theorem keep (h : HighWater t peak events) (hcapacity : u.capacity = t.capacity)
    (hload : 10 * u.size ≤ 7 * t.capacity) : HighWater u (max peak u.size) events where
  size_le := Nat.le_max_right _ _
  isLeast := by
    rw [hcapacity]
    refine ⟨⟨h.regular, ?_⟩, ?_⟩
    · have hpeak := h.isLeast.1.2
      omega
    · rintro capacity ⟨hregular, hfits⟩
      apply h.isLeast.2
      exact ⟨hregular, by omega⟩
  exists_growths := by
    rw [hcapacity]
    exact h.exists_growths

/-! ## One call -/

theorem insert (h : HighWater t peak events) (key : Key)
    (hsize : (t.insert key).state.size < 2 ^ 53) :
    HighWater (t.insert key).state (max peak (t.insert key).state.size)
      (events ++ (t.insert key).events) := by
  rcases t.insert_cases key with ⟨-, hstep⟩ | ⟨-, hload, hstep⟩ | ⟨-, hload, hstep⟩
  · rw [hstep, List.append_nil]
    exact h.keep rfl h.load_le
  · rw [hstep] at hsize ⊢
    rw [List.append_nil]
    exact h.keep rfl ((Capacity.overloads_eq_false_iff h.regular (Nat.le_of_lt hsize)).mp hload)
  · rw [hstep] at hsize ⊢
    have hover : 7 * t.capacity < 10 * (t.size + 1) :=
      (Capacity.overloads_iff h.regular (Nat.le_of_lt hsize)).mp hload
    -- The old peak still fitted, so the table stood at it, and there is one size to overload at.
    have hpeak := h.isLeast.1.2
    have hle := h.size_le
    have hfirst : t.size + 1 = 7 * t.capacity / 10 + 1 := by omega
    have hinitial := h.regular.initialCapacity_le
    rw [Capacity.initialCapacity] at hinitial
    obtain ⟨k, hk, hevents⟩ := h.exists_growths
    have hdouble : 2 * t.capacity = Capacity.initialCapacity * 2 ^ (k + 1) := by
      rw [hk]
      ring
    show HighWater (t.place key).grow (max peak (t.size + 1))
      (events ++ [.grew t.capacity (2 * t.capacity) (t.size + 1)])
    refine ⟨Nat.le_max_right _ _, ⟨⟨h.regular.double, ?_⟩, ?_⟩, k + 1, hdouble, ?_⟩
    · show 10 * max peak (t.size + 1) ≤ 7 * (2 * t.capacity)
      omega
    · rintro capacity ⟨hregular, hfits⟩
      exact h.regular.two_mul_le hregular (by omega)
    · rw [hfirst, hdouble, hk, hevents, growths, growths, List.range_succ, List.map_append]
      rfl

theorem remove (h : HighWater t peak events) (key : Key) :
    HighWater (t.remove key).state (max peak (t.remove key).state.size) events := by
  apply h.keep (t.capacity_remove key)
  have hload := h.load_le
  have hle := t.size_remove_le key
  omega

theorem extend (h : HighWater t peak events) (keys : List Key)
    (hsize : (t.extend keys).state.size < 2 ^ 53) :
    HighWater (t.extend keys).state (max peak (t.extend keys).state.size)
      (events ++ (t.extend keys).events) := by
  induction keys generalizing t peak events with
  | nil =>
    rw [extend_nil, List.append_nil]
    exact h.keep rfl h.load_le
  | cons key keys ih =>
    rw [state_extend_cons] at hsize ⊢
    have hmono := (t.insert key).state.size_le_size_extend keys
    have hrest := ih (h.insert key (Nat.lt_of_le_of_lt hmono hsize)) hsize
    rwa [Nat.max_assoc, Nat.max_eq_right hmono, List.append_assoc, ← events_extend_cons] at hrest

theorem run (h : HighWater t peak events) {action : Action} (hclear : action ≠ .clear)
    (hsize : (action.run t).state.size < 2 ^ 53) :
    HighWater (action.run t).state (max peak (action.run t).state.size)
      (events ++ (action.run t).events) := by
  cases action with
  | insert key =>
    rw [Action.run, Step.state_map, Step.events_map] at *
    exact h.insert key hsize
  | remove key =>
    rw [Action.run, Step.state_map, Step.events_map, events_remove, List.append_nil]
    exact h.remove key
  | contains key =>
    rw [Action.run, Step.state_map, Step.events_map, lookup, List.append_nil]
    exact h.keep rfl h.load_le
  | clear => exact absurd rfl hclear
  | extend keys =>
    rw [Action.run, Step.state_map, Step.events_map] at *
    exact h.extend keys hsize
  | merge other =>
    rw [Action.run, Step.state_map, Step.events_map, merge] at *
    exact h.extend other.toList hsize

theorem after (h : HighWater t peak events) {actions : List Action}
    (hclear : Action.clear ∉ actions) (hsize : ∀ s ∈ t.steps actions, s.state.size < 2 ^ 53) :
    HighWater (t.after actions)
      ((t.steps actions).foldl (fun largest s => max largest s.state.size) peak)
      (events ++ t.told actions) := by
  induction actions generalizing t peak events with
  | nil =>
    rw [told, steps, List.flatMap_nil, List.append_nil]
    exact h
  | cons action actions ih =>
    rw [List.mem_cons, not_or] at hclear
    have hfirst := h.run (Ne.symm hclear.1) (hsize _ (List.mem_cons_self ..))
    have hrest := ih hfirst hclear.2 fun s hs => hsize s (List.mem_cons_of_mem _ hs)
    rw [List.append_assoc] at hrest
    exact hrest

end HighWater

/-! ## Whole runs -/

/-- **The capacity is a function of the high-water mark.** Since a table was made or last cleared,
its capacity is the least regular one that the largest size so far fits into, and the events told
are the growths up to it, none missing and none twice. -/
theorem Fresh.capacity_of_peak {t : Table} (h : Fresh t) {actions : List Action}
    (hspan : Action.clear ∉ actions)
    (hsize : ∀ s ∈ t.steps actions, s.state.size < 2 ^ 53) :
    IsLeast {capacity | Capacity.Regular capacity ∧ 10 * t.peak actions ≤ 7 * capacity}
        (t.after actions).capacity ∧
      ∃ k, (t.after actions).capacity = Capacity.initialCapacity * 2 ^ k ∧
        t.told actions = growths k := by
  have hwater := h.highWater.after hspan hsize
  exact ⟨hwater.isLeast, hwater.exists_growths⟩

/-- A cleared table that doubles twice in one merge, loses a key, and fills up to its peak again. -/
theorem capacity_of_peak_merged :
    let source := (ofList ((List.range 46).map fun n => [UInt8.ofNat n])).state
    let cleared := source.clear.state
    let actions : List Action := [.merge source, .remove [0], .insert [1], .insert [0]]
    Action.clear ∉ actions ∧ (∀ s ∈ cleared.steps actions, s.state.size < 2 ^ 53) ∧
      IsLeast {capacity | Capacity.Regular capacity ∧ 10 * cleared.peak actions ≤ 7 * capacity}
        (cleared.after actions).capacity ∧
      ∃ k, (cleared.after actions).capacity = Capacity.initialCapacity * 2 ^ k ∧
        cleared.told actions = growths k := by
  intro source cleared actions
  have hspan : Action.clear ∉ actions := by simp [actions]
  have hsize : ∀ s ∈ cleared.steps actions, s.state.size < 2 ^ 53 := by decide +kernel
  exact ⟨hspan, hsize, (Fresh.clear source).capacity_of_peak hspan hsize⟩

end Table

end ChainedSet
