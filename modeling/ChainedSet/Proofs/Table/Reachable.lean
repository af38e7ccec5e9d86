import ChainedSet.Proofs.Layout.Acceptance
import ChainedSet.Table.Image

/-!
# Reachable tables

`Table.Reachable` is every set that a program can come to hold: new, made of a list, read from an
image or from the four fields of a layout, and from there on changed, copied and merged at will.
The one restriction is that no set on the way has `2 ^ 53` keys or more, so that load factors are
exact. All of them are well-formed, and their numbers fit the words of a layout (`Sound`).
-/

namespace ChainedSet.Table

/-! ## What every operation keeps -/

/-- A well-formed table whose numbers are in range. -/
structure Sound (t : Table) : Prop where
  wellFormed : t.WellFormed
  size_lt : t.size < 2 ^ 53
  capacity_lt : t.capacity < 2 ^ 64

theorem sound_withSeed (seed : UInt64) : (withSeed seed).Sound where
  wellFormed := wellFormed_withSeed seed
  size_lt := Nat.two_pow_pos 53
  capacity_lt := by
    show Capacity.initialCapacity < 2 ^ 64
    decide

/-- What is accepted has numbers in range, as its layout has. -/
theorem sound_of_toTable {l : Layout} {t : Table} (h : l.toTable = .ok t)
    (hsize : t.size < 2 ^ 53) : t.Sound where
  wellFormed := Layout.wellFormed_of_toTable h (Nat.le_of_lt hsize)
  size_lt := hsize
  capacity_lt := by
    obtain ⟨-, rfl⟩ := Layout.toTable_eq_ok_iff.mp h
    exact l.capacity.toNat_lt

namespace Sound

variable {t : Table}

/-- A table only grows while it has fewer buckets than `10 / 7 * 2 ^ 53`. -/
theorem insert (h : t.Sound) (key : Key) (hsize : (t.insert key).state.size < 2 ^ 53) :
    (t.insert key).state.Sound where
  wellFormed := h.wellFormed.insert key (Nat.le_of_lt hsize)
  size_lt := hsize
  capacity_lt := by
    have hcap := h.capacity_lt
    rcases t.insert_cases key with ⟨-, hstep⟩ | ⟨-, -, hstep⟩ | ⟨-, hload, hstep⟩
    · rwa [hstep]
    · rwa [hstep]
    · rw [hstep] at hsize ⊢
      have hover : 7 * t.capacity < 10 * (t.size + 1) :=
        (Capacity.overloads_iff h.wellFormed.wellPlaced.regular (Nat.le_of_lt hsize)).mp hload
      have hsize' : t.size + 1 < 2 ^ 53 := hsize
      show 2 * t.capacity < 2 ^ 64
      omega

theorem remove (h : t.Sound) (key : Key) : (t.remove key).state.Sound where
  wellFormed := h.wellFormed.remove key
  size_lt := Nat.lt_of_le_of_lt (t.size_remove_le key) h.size_lt
  capacity_lt := by
    rw [capacity_remove]
    exact h.capacity_lt

theorem clone (h : t.Sound) : t.clone.Sound where
  wellFormed := h.wellFormed.clone
  size_lt := h.size_lt
  capacity_lt := h.capacity_lt

theorem extend (h : t.Sound) (keys : List Key) (hsize : (t.extend keys).state.size < 2 ^ 53) :
    (t.extend keys).state.Sound :=
  extend_induction keys h hsize fun _ key hs => hs.insert key

/-- The layout of a sound table is accepted, and a copy of the table comes back. -/
theorem toTable_layout (h : t.Sound) : t.layout.toTable = .ok t.clone :=
  Table.toTable_layout h.wellFormed h.capacity_lt (Nat.le_of_lt h.size_lt)

end Sound

/-- A copy has the same keys in every bucket, in the same order. -/
theorem map_keys_clone (t : Table) :
    t.clone.buckets.map Chain.keys = t.buckets.map Chain.keys := by
  show (t.buckets.map Chain.trimmed).map Chain.keys = t.buckets.map Chain.keys
  rw [Array.map_map]
  exact Array.map_congr_left fun chain _ => chain.keys_trimmed

/-! ## Reachable tables -/

/-- The sets that a program can come to hold, as long as none has `2 ^ 53` keys or more. -/
inductive Reachable : Table → Prop
  | withSeed (seed : UInt64) : Reachable (withSeed seed)
  | ofList (keys : List Key) :
      (ofList keys).state.size < 2 ^ 53 → Reachable (ofList keys).state
  | decode {t : Table} (bytes : List UInt8) :
      Table.decode bytes = .ok t → t.size < 2 ^ 53 → Reachable t
  | ofLayout {t : Table} (l : Layout) : l.toTable = .ok t → t.size < 2 ^ 53 → Reachable t
  | insert {t : Table} (key : Key) :
      Reachable t → (t.insert key).state.size < 2 ^ 53 → Reachable (t.insert key).state
  | remove {t : Table} (key : Key) : Reachable t → Reachable (t.remove key).state
  | lookup {t : Table} (key : Key) : Reachable t → Reachable (t.lookup key).state
  | clear {t : Table} : Reachable t → Reachable t.clear.state
  | clone {t : Table} : Reachable t → Reachable t.clone
  | extend {t : Table} (keys : List Key) :
      Reachable t → (t.extend keys).state.size < 2 ^ 53 → Reachable (t.extend keys).state
  | merge {t other : Table} :
      Reachable t → Reachable other → (t.merge other).state.size < 2 ^ 53 →
        Reachable (t.merge other).state

/-- A decoded table is the table of the layout that was read. -/
theorem toTable_of_decode {bytes : List UInt8} {t : Table} (h : Table.decode bytes = .ok t) :
    ∃ l, Layout.decode bytes = .ok l ∧ l.toTable = .ok t :=
  Layout.toTable_of_bind h

/-- **Every reachable table is well-formed**, with numbers in range. -/
theorem Reachable.sound {t : Table} (h : t.Reachable) : t.Sound := by
  induction h with
  | withSeed seed => exact sound_withSeed seed
  | ofList keys hsize => exact (sound_withSeed _).extend keys hsize
  | decode bytes hdecode hsize =>
    obtain ⟨l, -, htable⟩ := toTable_of_decode hdecode
    exact sound_of_toTable htable hsize
  | ofLayout l htable hsize => exact sound_of_toTable htable hsize
  | insert key _ hsize ih => exact ih.insert key hsize
  | remove key _ ih => exact ih.remove key
  | lookup key _ ih => exact ih
  | clear _ _ => exact sound_withSeed _
  | clone _ ih => exact ih.clone
  | extend keys _ hsize ih => exact ih.extend keys hsize
  | merge _ _ hsize ih _ => exact ih.extend _ hsize

end ChainedSet.Table
