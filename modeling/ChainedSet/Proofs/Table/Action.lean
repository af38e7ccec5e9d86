import ChainedSet.Proofs.Table.Reachable

/-!
# Runs on one set

What a program does with one set, as data: an `Action` is one call of an operation, and `steps` are
the steps of a list of them, each from the state that the one before left. Sets that are merged in
come from elsewhere and may be any table. Every state of a run that starts soundly and stays below
`2 ^ 53` keys is sound (`Sound.steps`).
-/

namespace ChainedSet.Table

/-- A call of an operation on a set. -/
inductive Action where
  | insert (key : Key)
  | remove (key : Key)
  | contains (key : Key)
  | clear
  | extend (keys : List Key)
  | merge (other : Table)

/-- The step that a call makes; only the first three kinds of call have an answer. -/
def Action.run (t : Table) : Action → Step Table (Option Bool)
  | insert key => (t.insert key).map some
  | remove key => (t.remove key).map some
  | contains key => (t.lookup key).map some
  | clear => t.clear.map fun _ => none
  | extend keys => (t.extend keys).map fun _ => none
  | merge other => (t.merge other).map fun _ => none

/-- The steps of a run, one for each call. -/
def steps (t : Table) : List Action → List (Step Table (Option Bool))
  | [] => []
  | action :: actions => action.run t :: steps (action.run t).state actions

/-- The set that a run leaves. -/
def after (t : Table) (actions : List Action) : Table :=
  actions.foldl (fun u action => (action.run u).state) t

@[simp] theorem after_nil (t : Table) : t.after [] = t := rfl

@[simp] theorem after_cons (t : Table) (action : Action) (actions : List Action) :
    t.after (action :: actions) = (action.run t).state.after actions := rfl

theorem after_append (t : Table) (first rest : List Action) :
    t.after (first ++ rest) = (t.after first).after rest :=
  List.foldl_append

@[simp] theorem seed_run (t : Table) (action : Action) : (action.run t).state.seed = t.seed := by
  cases action with
  | insert key => rw [Action.run, Step.state_map, seed_insert]
  | remove key => rw [Action.run, Step.state_map, seed_remove]
  | contains key => rfl
  | clear => rfl
  | extend keys => rw [Action.run, Step.state_map, seed_extend]
  | merge other => rw [Action.run, Step.state_map, merge, seed_extend]

@[simp] theorem seed_after (t : Table) (actions : List Action) :
    (t.after actions).seed = t.seed := by
  induction actions generalizing t with
  | nil => rfl
  | cons action actions ih => rw [after_cons, ih, seed_run]

namespace Sound

variable {t : Table}

theorem run (h : t.Sound) (action : Action) (hsize : (action.run t).state.size < 2 ^ 53) :
    (action.run t).state.Sound := by
  cases action with
  | insert key =>
    rw [Action.run, Step.state_map] at hsize ⊢
    exact h.insert key hsize
  | remove key =>
    rw [Action.run, Step.state_map]
    exact h.remove key
  | contains key => exact h
  | clear => exact sound_withSeed t.seed
  | extend keys => exact h.extend keys hsize
  | merge other => exact h.extend other.toList hsize

/-- All states of a run are sound. -/
theorem steps (h : t.Sound) (actions : List Action)
    (hsize : ∀ s ∈ t.steps actions, s.state.size < 2 ^ 53) :
    ∀ s ∈ t.steps actions, s.state.Sound := by
  induction actions generalizing t with
  | nil =>
    intro s hs
    cases hs
  | cons action actions ih =>
    have hfirst := h.run action (hsize _ (List.mem_cons_self ..))
    intro s hs
    rcases List.mem_cons.mp hs with rfl | hs
    · exact hfirst
    · exact ih hfirst (fun s hs => hsize s (List.mem_cons_of_mem _ hs)) s hs

end Sound

end ChainedSet.Table
