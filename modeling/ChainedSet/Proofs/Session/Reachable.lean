import ChainedSet.Proofs.Table.Reachable
import ChainedSet.Session.Store

/-!
# Runs of a session

A run starts without any sets and performs commands on sets under names, in any order and with any
arguments; besides, a set may be restored from any four fields, whatever form they came in.
`Store.Reachable` is every state that a run leads to in which no set ever has `2 ^ 53` keys or
more. A command only ever puts a reachable table under its name (`reachable_run`), so every set of
every such state is well-formed (`Store.Reachable.wellFormed_get`).
-/

namespace ChainedSet.Session

/-! ## Names -/

namespace Store

theorem lookup_filter_ne {name other : String} (h : other ≠ name)
    (tables : List (String × Table)) :
    (tables.filter fun entry => entry.1 != name).lookup other = tables.lookup other := by
  induction tables with
  | nil => rfl
  | cons entry tables ih =>
    obtain ⟨key, t⟩ := entry
    by_cases hkey : key = name
    · have hskip : (other == key) = false := by simp [hkey, h]
      rw [List.filter_cons_of_neg (by simp [hkey]), List.lookup_cons, hskip, ih]
    · simp [hkey, List.lookup_cons, ih]

/-- A name stands for the set that was last put under it. -/
theorem get_set (s : Store) (name : String) (t : Table) (other : String) :
    (s.set name t).get other = if other = name then t else s.get other := by
  rw [get, get, set, List.lookup_cons]
  by_cases h : other = name
  · simp [h]
  · have hskip : (other == name) = false := by simp [h]
    rw [hskip, lookup_filter_ne h, if_neg h]

end Store

/-! ## Commands -/

theorem exists_toTable_of_ofJson {text : String} {t : Table} (h : Table.ofJson text = .ok t) :
    ∃ l : Layout, l.toTable = .ok t := by
  rw [Table.ofJson] at h
  split at h
  · cases h
  · obtain ⟨l, -, htable⟩ := Layout.toTable_of_bind h
    exact ⟨l, htable⟩

/-- A set that is replaced by a table from elsewhere, or stays when there is none, is reachable if
such tables are. -/
theorem reachable_ofDecoded {t : Table} (ht : t.Reachable) {bytes : List UInt8}
    {events : List Event}
    (hsize : (Outcome.ofDecoded t events (Table.decode bytes)).state.size < 2 ^ 53) :
    (Outcome.ofDecoded t events (Table.decode bytes)).state.Reachable := by
  cases hdecode : Table.decode bytes with
  | error e => exact ht
  | ok u =>
    rw [hdecode] at hsize
    exact .decode bytes hdecode hsize

theorem reachable_ofImported {t : Table} (ht : t.Reachable) {read : Except ImportError Table}
    (hread : ∀ u, read = .ok u → ∃ l : Layout, l.toTable = .ok u)
    (hsize : (Outcome.ofImported t read).state.size < 2 ^ 53) :
    (Outcome.ofImported t read).state.Reachable := by
  cases read with
  | error e => exact ht
  | ok u =>
    obtain ⟨l, htable⟩ := hread u rfl
    exact .ofLayout l htable hsize

/-- **A command leaves a reachable table**, one case per command. -/
theorem reachable_run {s : Store} (hs : ∀ name, (s.get name).Reachable) {t : Table}
    (ht : t.Reachable) (command : Command) (hsize : (command.run s t).state.size < 2 ^ 53) :
    (command.run s t).state.Reachable := by
  cases command with
  | create seed => exact .withSeed seed
  | insert key =>
    rw [Command.run, Outcome.ofStep, Step.state_map] at hsize ⊢
    exact ht.insert key hsize
  | remove key =>
    rw [Command.run, Outcome.ofStep, Step.state_map]
    exact ht.remove key
  | insertEach keys => exact ht.extend keys hsize
  | removeEach keys => exact Step.forEach_induction keys ht fun _ key hu => hu.remove key
  | containsEach keys => exact Step.forEach_induction keys ht fun _ key hu => hu.lookup key
  | clear => exact ht.clear
  | merge source => exact ht.merge (hs source) hsize
  | clone source => exact (hs source).clone
  | extend keys => exact ht.extend keys hsize
  | collect keys => exact .ofList keys hsize
  | decode bytes => exact reachable_ofDecoded ht hsize
  | reload source =>
    simp only [Command.run, reloadFrom] at hsize ⊢
    cases hencode : (s.get source).encode with
    | error e => exact ht
    | ok bytes =>
      rw [hencode] at hsize
      exact reachable_ofDecoded ht hsize
  | ofJson text => exact reachable_ofImported ht (fun _ => exists_toTable_of_ofJson) hsize
  | ofWords bytes =>
    refine reachable_ofImported ht (fun u hu => ?_) hsize
    obtain ⟨l, -, htable⟩ := Layout.toTable_of_bind hu
    exact ⟨l, htable⟩
  | contains _ | stats | filterStats | sizeBytes | dump | debug | encode | digest | toJson
  | toWords => exact ht

/-! ## Runs -/

namespace Store

/-- The states that a run leads to, as long as no set has `2 ^ 53` keys or more. -/
inductive Reachable : Store → Prop
  | empty : Reachable empty
  | perform {s : Store} (name : String) (command : Command) :
      Reachable s → (s.perform name command).1.size < 2 ^ 53 →
        Reachable (s.perform name command).2
  | restore {s : Store} {t : Table} (name : String) (l : Layout) :
      Reachable s → l.toTable = .ok t → t.size < 2 ^ 53 → Reachable (s.set name t)

namespace Reachable

theorem get {s : Store} (h : s.Reachable) (name : String) : (s.get name).Reachable := by
  induction h generalizing name with
  | empty => exact .withSeed _
  | perform target command _ hsize ih =>
    rw [Store.perform, get_set]
    split
    · exact reachable_run ih (ih target) command hsize
    · exact ih name
  | restore target l _ htable hsize ih =>
    rw [get_set]
    split
    · exact .ofLayout l htable hsize
    · exact ih name

/-- **Every set of every state that a run leads to is well-formed**: its capacity is the initial one
times a power of two, it has as many buckets, every key is in its home, none is stored twice, its
size is the number of its keys, and it is not overloaded. -/
theorem wellFormed_get {s : Store} (h : s.Reachable) (name : String) : (s.get name).WellFormed :=
  (h.get name).sound.wellFormed

end Reachable

/-- A set that grew, merged into one of another seed, from which a key is then taken out. -/
theorem wellFormed_get_merged :
    let keys : List Key := (List.range 23).map fun n => [UInt8.ofNat n]
    let sources := ((empty.perform "a" (.insertEach keys)).2.perform "b" (.create 7)).2
    let merged := ((sources.perform "b" (.merge "a")).2.perform "b" (.remove [5])).2
    merged.Reachable ∧ (merged.get "b").capacity = 64 ∧ (merged.get "b").WellFormed := by
  intro keys sources merged
  have hsources : sources.Reachable :=
    .perform "b" _ (.perform "a" _ .empty (by decide +kernel)) (by decide +kernel)
  have hmerged : merged.Reachable :=
    .perform "b" _ (.perform "b" _ hsources (by decide +kernel)) (by decide +kernel)
  exact ⟨hmerged, by decide +kernel, hmerged.wellFormed_get "b"⟩

end Store

end ChainedSet.Session
