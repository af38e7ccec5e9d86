import Mathlib.Data.List.Forall2
import ChainedSet.Proofs.Session.Reachable
import ChainedSet.Proofs.Table.Alike

/-!
# The seed never shows

Two runs of one program, in which the new sets are given different seeds. The keys are spread over
the buckets in different ways then, and are listed and merged in different orders. Still the reports
agree, command by command, but for the seed itself where a report names it
(`Store.reports_agree_of_sameButSeeds`).

The two stores hold sets that are alike under every name, and a command keeps that, one case per
command (`Store.Alike.run`).
-/

namespace ChainedSet.Session

/-! ## Programs that differ in their seeds -/

/-- The same command up to the seed of a new set, where the command is about keys and numbers. Those
that show the chains or their memory, or that write or read a set as bytes or text, are left out. -/
inductive Command.SameButSeed : Command → Command → Prop
  | create (seed seed' : UInt64) : SameButSeed (.create seed) (.create seed')
  | insert (key : Key) : SameButSeed (.insert key) (.insert key)
  | remove (key : Key) : SameButSeed (.remove key) (.remove key)
  | contains (key : Key) : SameButSeed (.contains key) (.contains key)
  | insertEach (keys : List Key) : SameButSeed (.insertEach keys) (.insertEach keys)
  | removeEach (keys : List Key) : SameButSeed (.removeEach keys) (.removeEach keys)
  | containsEach (keys : List Key) : SameButSeed (.containsEach keys) (.containsEach keys)
  | clear : SameButSeed .clear .clear
  | merge (source : String) : SameButSeed (.merge source) (.merge source)
  | clone (source : String) : SameButSeed (.clone source) (.clone source)
  | extend (keys : List Key) : SameButSeed (.extend keys) (.extend keys)
  | collect (keys : List Key) : SameButSeed (.collect keys) (.collect keys)
  | stats : SameButSeed .stats .stats
  | filterStats : SameButSeed .filterStats .filterStats

/-- Commands on the same names, each the same up to the seed of a new set. -/
def SameButSeeds : List (String × Command) → List (String × Command) → Prop :=
  List.Forall₂ fun entry entry' => entry.1 = entry'.1 ∧ entry.2.SameButSeed entry'.2

/-! ## What is heard, but for the seed -/

/-- A reply in which the seed is blotted out. -/
def Reply.withoutSeed : Reply → Reply
  | stats numbers => stats { numbers with seed := 0 }
  | reply => reply

/-- A report in which the seed is blotted out. -/
def Report.withoutSeed (r : Report) : Report :=
  { r with outcome := r.outcome.map Reply.withoutSeed }

/-- An outcome in which the seed is blotted out. -/
def Outcome.withoutSeed (o : Outcome) : Outcome :=
  o.map fun answer => answer.map Reply.withoutSeed

theorem alike_ofStep {α : Type} {s r : Step Table α} (h : s.Alike r) (reply : α → Reply) :
    (Outcome.ofStep s reply).withoutSeed.Alike (Outcome.ofStep r reply).withoutSeed :=
  (h.map _).map _

theorem alike_reply {t u : Table} (h : t.Alike u) {reply reply' : Reply}
    (hreply : reply.withoutSeed = reply'.withoutSeed) :
    (Outcome.reply t reply).withoutSeed.Alike (Outcome.reply u reply').withoutSeed :=
  ⟨congrArg Except.ok hreply, rfl, h⟩

theorem withoutSeed_stats {t u : Table} (h : t.Alike u) :
    (Reply.stats (.ofTable t)).withoutSeed = (Reply.stats (.ofTable u)).withoutSeed := by
  simp only [Reply.withoutSeed, Stats.ofTable, h.size_eq, h.isEmpty_eq, h.capacity_eq,
    h.loadFactor_eq]

theorem filterStats_eq {t u : Table} (h : t.Alike u) : FilterStats.of t = FilterStats.of u := by
  simp only [FilterStats.of, MembershipFilter.size, MembershipFilter.isEmpty,
    MembershipFilter.falsePositiveRate, h.size_eq]

/-! ## Two stores -/

namespace Store

/-- The store that commands leave. -/
def after (s : Store) (commands : List (String × Command)) : Store :=
  commands.foldl (fun s entry => (s.perform entry.1 entry.2).2) s

/-- Under every name, two sets that are alike. -/
def Alike (s s' : Store) : Prop := ∀ name, (s.get name).Alike (s'.get name)

theorem alike_empty : empty.Alike empty := fun _ => Table.alike_withSeed _ _

namespace Alike

variable {s s' : Store}

theorem set (h : s.Alike s') (name : String) {t u : Table} (ht : t.Alike u) :
    (s.set name t).Alike (s'.set name u) := by
  intro other
  rw [get_set, get_set]
  split
  · exact ht
  · exact h other

/-- **A command shows the same on sets that are alike, and leaves them alike.** -/
theorem run (h : s.Alike s') {t u : Table} (ht : t.Alike u) {command command' : Command}
    (hcommand : command.SameButSeed command') (hsize : (command.run s t).state.size < 2 ^ 53) :
    (command.run s t).withoutSeed.Alike (command'.run s' u).withoutSeed := by
  cases hcommand with
  | create seed seed' => exact ⟨rfl, rfl, Table.alike_withSeed seed seed'⟩
  | insert key =>
    rw [Command.run, Outcome.ofStep, Step.state_map] at hsize
    exact alike_ofStep (ht.insert key hsize) _
  | remove key => exact alike_ofStep (ht.remove key) _
  | contains key => exact alike_ofStep (ht.lookup key) _
  | insertEach keys => exact alike_ofStep (ht.extend (.refl keys) hsize) _
  | removeEach keys => exact alike_ofStep (Table.Alike.forEach Table.Alike.remove ht keys) _
  | containsEach keys => exact alike_ofStep (Table.Alike.forEach Table.Alike.lookup ht keys) _
  | clear => exact alike_ofStep ht.clear _
  | merge source => exact alike_ofStep (ht.merge (h source) hsize) _
  | clone source => exact ⟨rfl, rfl, (h source).clone⟩
  | extend keys => exact alike_ofStep (ht.extend (.refl keys) hsize) _
  | collect keys =>
    exact alike_ofStep ((Table.alike_withSeed _ _).extend (.refl keys) hsize) _
  | stats => exact alike_reply ht (withoutSeed_stats ht)
  | filterStats => exact alike_reply ht (by rw [filterStats_eq ht])

theorem withoutSeed_perform (s : Store) (name : String) (command : Command) :
    (s.perform name command).1.withoutSeed =
      let result := (command.run s (s.get name)).withoutSeed
      ⟨result.answer, result.state.size, result.state.capacity, result.events⟩ := rfl

theorem perform (h : s.Alike s') (name : String) {command command' : Command}
    (hcommand : command.SameButSeed command')
    (hsize : (s.perform name command).1.size < 2 ^ 53) :
    (s.perform name command).1.withoutSeed = (s'.perform name command').1.withoutSeed ∧
      (s.perform name command).2.Alike (s'.perform name command').2 := by
  have hrun := h.run (h name) hcommand hsize
  constructor
  · simp only [withoutSeed_perform, hrun.answer_eq, hrun.state.size_eq, hrun.state.capacity_eq,
      hrun.events_eq]
  · exact h.set name hrun.state

/-- The reports of two runs, and the stores that they leave. -/
theorem performAll (h : s.Alike s') {program program' : List (String × Command)}
    (hprogram : SameButSeeds program program')
    (hsize : ∀ r ∈ s.performAll program, r.size < 2 ^ 53) :
    (s.performAll program).map Report.withoutSeed =
        (s'.performAll program').map Report.withoutSeed ∧
      (s.after program).Alike (s'.after program') := by
  induction hprogram generalizing s s' with
  | nil => exact ⟨rfl, h⟩
  | @cons entry entry' rest rest' hentry _ ih =>
    obtain ⟨name, command⟩ := entry
    obtain ⟨name', command'⟩ := entry'
    obtain ⟨rfl, hcommand⟩ := hentry
    obtain ⟨hreport, hstores⟩ := h.perform name hcommand (hsize _ (List.mem_cons_self ..))
    obtain ⟨hreports, hafter⟩ := ih hstores fun r hr => hsize r (List.mem_cons_of_mem _ hr)
    exact ⟨congrArg₂ List.cons hreport hreports, hafter⟩

end Alike

/-! ## Two runs -/

/-- **The seed never shows in the answers.** Two programs that differ in the seeds of new sets hear
the same: every answer, count, size, capacity and load factor, and every event, step by step. In
the end the sets under each name hold the same keys in the same number of buckets, if in another
order. That no set gets `2 ^ 53` keys is only asked of one of the runs. -/
theorem reports_agree_of_sameButSeeds {program program' : List (String × Command)}
    (h : SameButSeeds program program')
    (hsize : ∀ r ∈ empty.performAll program, r.size < 2 ^ 53) :
    (empty.performAll program).map Report.withoutSeed =
        (empty.performAll program').map Report.withoutSeed ∧
      (empty.after program).Alike (empty.after program') :=
  alike_empty.performAll h hsize

/-- Two sets that are merged into each other, where the first one grows on the way. The layouts of
the two runs do differ. -/
theorem reports_agree_merged :
    let keys (first : Nat) : List Key := (List.range 20).map fun n => [UInt8.ofNat (first + n)]
    let program (seed seed' : UInt64) : List (String × Command) :=
      [("a", .create seed), ("b", .create seed'), ("a", .extend (keys 0)), ("b", .extend (keys 10)),
        ("a", .merge "b"), ("a", .remove [5]), ("a", .stats), ("c", .clone "a"), ("b", .clear)]
    SameButSeeds (program 1 2) (program 3 4) ∧
      (∀ r ∈ empty.performAll (program 1 2), r.size < 2 ^ 53) ∧
      ((empty.after (program 1 2)).get "a").toList ≠ ((empty.after (program 3 4)).get "a").toList ∧
      (empty.performAll (program 1 2)).map Report.withoutSeed =
        (empty.performAll (program 3 4)).map Report.withoutSeed ∧
      (empty.after (program 1 2)).Alike (empty.after (program 3 4)) := by
  intro keys program
  have hprogram : SameButSeeds (program 1 2) (program 3 4) := by
    repeat' constructor
  have hsize : ∀ r ∈ empty.performAll (program 1 2), r.size < 2 ^ 53 := by decide +kernel
  exact ⟨hprogram, hsize, by decide +kernel, reports_agree_of_sameButSeeds hprogram hsize⟩

end Store

end ChainedSet.Session
