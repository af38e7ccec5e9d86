import Mathlib.Data.Finset.Basic
import Mathlib.Data.Finset.Dedup
import ChainedSet.Proofs.Table.Action

/-!
# A table is a finite set

Two runs of the same calls, one on a table and one on the finite set of its keys. The answers agree
and so does everything that can be seen of the states (`Holds`): the number of keys, what a lookup
says of any key, and the list of all keys, in which each stands once. `steps_refine_sets` says so of
every run, however often the table grows on the way; `Sound.holds_run` is the step it rests on.
-/

namespace ChainedSet.Table

/-! ## Finite sets of keys -/

/-- The answer to a call on a finite set of keys, and the set after it. -/
def Action.runSet (A : Finset Key) : Action → Option Bool × Finset Key
  | insert key => (some (decide (key ∉ A)), Insert.insert key A)
  | remove key => (some (decide (key ∈ A)), A.erase key)
  | contains key => (some (decide (key ∈ A)), A)
  | clear => (none, ∅)
  | extend keys => (none, A ∪ keys.toFinset)
  | merge other => (none, A ∪ other.toList.toFinset)

/-- The answers and sets of a run, one for each call. -/
def setSteps (A : Finset Key) : List Action → List (Option Bool × Finset Key)
  | [] => []
  | action :: actions => action.runSet A :: setSteps (action.runSet A).2 actions

/-- All that can be seen of `t` is that it holds the keys of `A`. -/
structure Holds (t : Table) (A : Finset Key) : Prop where
  size_eq : t.size = A.card
  isEmpty_iff : t.isEmpty = true ↔ A = ∅
  contains_iff : ∀ key, t.contains key = true ↔ key ∈ A
  nodup : t.toList.Nodup
  mem_toList_iff : ∀ key, key ∈ t.toList ↔ key ∈ A

/-- The tables that a run may start from, with the keys that they start with. -/
inductive Origin : Table → Finset Key → Prop
  | withSeed (seed : UInt64) : Origin (withSeed seed) ∅
  | decode {t : Table} (bytes : List UInt8) :
      Table.decode bytes = .ok t → Origin t t.toList.toFinset
  | ofLayout {t : Table} (l : Layout) : l.toTable = .ok t → Origin t t.toList.toFinset

/-! ## One call -/

theorem WellFormed.holds {t : Table} (h : t.WellFormed) {A : Finset Key}
    (hkeys : ∀ key, key ∈ t.toList ↔ key ∈ A) : t.Holds A := by
  have hset : t.toList.toFinset = A := by
    ext key
    rw [List.mem_toFinset, hkeys]
  have hsize : t.size = A.card := by
    rw [h.size_eq_length, ← hset, List.toFinset_card_of_nodup h.nodup_toList]
  exact {
    size_eq := hsize
    isEmpty_iff := by rw [isEmpty, beq_iff_eq, hsize, Finset.card_eq_zero]
    contains_iff := fun key => (h.contains_iff key).trans (hkeys key)
    nodup := h.nodup_toList
    mem_toList_iff := hkeys }

/-- Keys that are added one by one are all in the table in the end. -/
theorem Sound.mem_toList_extend {t : Table} (h : t.Sound) (keys : List Key)
    (hsize : (t.extend keys).state.size < 2 ^ 53) (other : Key) :
    other ∈ (t.extend keys).state.toList ↔ other ∈ t.toList ∨ other ∈ keys := by
  induction keys generalizing t with
  | nil => simp
  | cons key keys ih =>
    rw [state_extend_cons] at hsize ⊢
    have hfirst : (t.insert key).state.size < 2 ^ 53 :=
      Nat.lt_of_le_of_lt ((t.insert key).state.size_le_size_extend keys) hsize
    rw [ih (h.insert key hfirst) hsize, h.wellFormed.mem_toList_insert, List.mem_cons]
    tauto

/-- **One call does to a table what it does to the set of its keys.** -/
theorem Sound.holds_run {t : Table} (h : t.Sound) {A : Finset Key} (hA : t.Holds A)
    (action : Action) (hsize : (action.run t).state.size < 2 ^ 53) :
    (action.run t).answer = (action.runSet A).1 ∧
      (action.run t).state.Holds (action.runSet A).2 := by
  have hstate := (h.run action hsize).wellFormed
  have hcontains : ∀ key, t.contains key = decide (key ∈ A) := fun key =>
    Bool.eq_iff_iff.mpr ((hA.contains_iff key).trans decide_eq_true_iff.symm)
  cases action with
  | insert key =>
    rw [Action.run, Step.state_map] at hsize hstate ⊢
    refine ⟨by simp [answer_insert, hcontains, Action.runSet], hstate.holds fun other => ?_⟩
    rw [h.wellFormed.mem_toList_insert, hA.mem_toList_iff]
    exact Finset.mem_insert.symm
  | remove key =>
    rw [Action.run, Step.state_map] at hsize hstate ⊢
    refine ⟨by simp [answer_remove, hcontains, Action.runSet], hstate.holds fun other => ?_⟩
    rw [h.wellFormed.mem_toList_remove, hA.mem_toList_iff]
    exact Finset.mem_erase.symm
  | contains key => exact ⟨by simp [Action.run, lookup, hcontains, Action.runSet], hA⟩
  | clear =>
    refine ⟨rfl, hstate.holds fun other => ?_⟩
    simp [Action.run, clear, Action.runSet]
  | extend keys =>
    refine ⟨rfl, hstate.holds fun other => ?_⟩
    rw [Action.run, Step.state_map] at hsize ⊢
    rw [h.mem_toList_extend keys hsize, hA.mem_toList_iff]
    simp [Action.runSet]
  | merge other =>
    refine ⟨rfl, hstate.holds fun key => ?_⟩
    rw [Action.run, Step.state_map] at hsize ⊢
    rw [merge, h.mem_toList_extend other.toList hsize, hA.mem_toList_iff]
    simp [Action.runSet]

/-! ## Whole runs -/

theorem Origin.sound_and_holds {t : Table} {A : Finset Key} (h : Origin t A)
    (hsize : t.size < 2 ^ 53) : t.Sound ∧ t.Holds A := by
  cases h with
  | withSeed seed =>
    have hsound := sound_withSeed seed
    exact ⟨hsound, hsound.wellFormed.holds (by simp)⟩
  | decode bytes hdecode =>
    have hsound := (Reachable.decode bytes hdecode hsize).sound
    exact ⟨hsound, hsound.wellFormed.holds fun key => List.mem_toFinset.symm⟩
  | ofLayout l htable =>
    have hsound := (Reachable.ofLayout l htable hsize).sound
    exact ⟨hsound, hsound.wellFormed.holds fun key => List.mem_toFinset.symm⟩

/-- The steps of a run from a sound table agree with those on the set of its keys. -/
theorem Sound.forall₂_steps {t : Table} (h : t.Sound) {A : Finset Key} (hA : t.Holds A)
    (actions : List Action) (hsize : ∀ s ∈ t.steps actions, s.state.size < 2 ^ 53) :
    List.Forall₂ (fun s r => s.answer = r.1 ∧ s.state.Holds r.2)
      (t.steps actions) (setSteps A actions) := by
  induction actions generalizing t A with
  | nil => exact .nil
  | cons action actions ih =>
    have hfirst := hsize _ (List.mem_cons_self ..)
    have hstep := h.holds_run hA action hfirst
    exact .cons hstep (ih (h.run action hfirst) hstep.2
      fun s hs => hsize s (List.mem_cons_of_mem _ hs))

/-- **A table is exactly the finite set of its keys**, over every run: at the start and after each
call it shows the keys of the set, and each answer is the answer on the set. -/
theorem steps_refine_sets {t : Table} {A : Finset Key} (h : Origin t A) (actions : List Action)
    (hstart : t.size < 2 ^ 53) (hsize : ∀ s ∈ t.steps actions, s.state.size < 2 ^ 53) :
    t.Holds A ∧
      List.Forall₂ (fun s r => s.answer = r.1 ∧ s.state.Holds r.2)
        (t.steps actions) (setSteps A actions) := by
  obtain ⟨hsound, hA⟩ := h.sound_and_holds hstart
  exact ⟨hA, hsound.forall₂_steps hA actions hsize⟩

/-- A run that grows the table, removes a key, and merges in a table of another seed. -/
theorem steps_refine_sets_growing :
    let keys : List Key := (List.range 23).map fun n => [UInt8.ofNat n]
    let actions : List Action := [.extend keys, .insert [5], .remove [5], .contains [5],
      .merge (ofList [[5], [6, 7], []]).state, .contains [5], .clear]
    (withSeed 9).size < 2 ^ 53 ∧ (∀ s ∈ (withSeed 9).steps actions, s.state.size < 2 ^ 53) ∧
      (withSeed 9).Holds ∅ ∧
      List.Forall₂ (fun s r => s.answer = r.1 ∧ s.state.Holds r.2)
        ((withSeed 9).steps actions) (setSteps ∅ actions) := by
  intro keys actions
  have hstart : (withSeed 9).size < 2 ^ 53 := by decide +kernel
  have hsize : ∀ s ∈ (withSeed 9).steps actions, s.state.size < 2 ^ 53 := by decide +kernel
  exact ⟨hstart, hsize, steps_refine_sets (.withSeed 9) actions hstart hsize⟩

end ChainedSet.Table
