import ChainedSet.Proofs.Table.Rows

/-!
# Operations

What one operation does to a table, said once: `insert_cases` lists the three outcomes of adding a
key, `remove_of_contains` and `remove_of_not_contains` the two of taking one out. A loop over keys
is its first step and then the loop over the rest (`Step.forEach_cons`).
-/

namespace ChainedSet

namespace Step

variable {σ κ α β : Type}

@[simp] theorem answer_map (f : α → β) (s : Step σ α) : (s.map f).answer = f s.answer := rfl

@[simp] theorem state_map (f : α → β) (s : Step σ α) : (s.map f).state = s.state := rfl

@[simp] theorem events_map (f : α → β) (s : Step σ α) : (s.map f).events = s.events := rfl

/-! ## Loops -/

/-- What was counted and told before a loop only comes first. -/
theorem foldl_forEach (act : σ → κ → Step σ Bool) (args : List κ) (done : Step σ Nat) :
    args.foldl
      (fun done arg =>
        let s := act done.state arg
        ⟨done.answer + s.answer.toNat, s.state, done.events ++ s.events⟩) done =
      ⟨done.answer + (forEach act done.state args).answer, (forEach act done.state args).state,
        done.events ++ (forEach act done.state args).events⟩ := by
  induction args generalizing done with
  | nil => simp [forEach]
  | cons arg args ih =>
    simp only [forEach, List.foldl_cons] at ih ⊢
    rw [ih, ih ⟨0 + _, _, _⟩]
    simp only [Nat.add_assoc, Nat.zero_add, List.nil_append, List.append_assoc]

theorem forEach_cons (act : σ → κ → Step σ Bool) (state : σ) (arg : κ) (args : List κ) :
    forEach act state (arg :: args) =
      let rest := forEach act (act state arg).state args
      ⟨(act state arg).answer.toNat + rest.answer, rest.state,
        (act state arg).events ++ rest.events⟩ := by
  rw [forEach, List.foldl_cons, foldl_forEach]
  simp only [Nat.zero_add, List.nil_append]

/-- What every step keeps, a loop keeps. -/
theorem forEach_induction {act : σ → κ → Step σ Bool} {motive : σ → Prop} {state : σ}
    (args : List κ) (start : motive state)
    (step : ∀ s arg, motive s → motive (act s arg).state) :
    motive (forEach act state args).state := by
  induction args generalizing state with
  | nil => exact start
  | cons arg args ih =>
    rw [forEach_cons]
    exact ih (step state arg start)

end Step

namespace Table

/-! ## Adding a key -/

/-- **Insertion has three outcomes**: the key is there already, or it is added and fits, or it is
added and the table grows. -/
theorem insert_cases (t : Table) (key : Key) :
    (t.contains key = true ∧ t.insert key = ⟨false, t, []⟩) ∨
    (t.contains key = false ∧ (t.place key).isOverloaded = false ∧
      t.insert key = ⟨true, t.place key, []⟩) ∨
    (t.contains key = false ∧ (t.place key).isOverloaded = true ∧
      t.insert key = ⟨true, (t.place key).grow, [(t.place key).growth]⟩) := by
  rw [insert]
  cases t.contains key with
  | true => exact Or.inl ⟨rfl, rfl⟩
  | false =>
    right
    cases hload : (t.place key).isOverloaded with
    | false => exact Or.inl ⟨rfl, rfl, by simp [hload]⟩
    | true => exact Or.inr ⟨rfl, rfl, by simp [hload]⟩

theorem answer_insert (t : Table) (key : Key) : (t.insert key).answer = !t.contains key := by
  rcases t.insert_cases key with ⟨hkey, h⟩ | ⟨hkey, -, h⟩ | ⟨hkey, -, h⟩ <;> simp [h, hkey]

theorem size_insert (t : Table) (key : Key) :
    (t.insert key).state.size = if t.contains key then t.size else t.size + 1 := by
  rcases t.insert_cases key with ⟨hkey, h⟩ | ⟨hkey, -, h⟩ | ⟨hkey, -, h⟩ <;> simp [h, hkey]

@[simp] theorem seed_insert (t : Table) (key : Key) : (t.insert key).state.seed = t.seed := by
  rcases t.insert_cases key with ⟨-, h⟩ | ⟨-, -, h⟩ | ⟨-, -, h⟩ <;> simp [h]

theorem size_le_size_insert (t : Table) (key : Key) : t.size ≤ (t.insert key).state.size := by
  rw [size_insert]
  split <;> omega

theorem size_insert_le (t : Table) (key : Key) : (t.insert key).state.size ≤ t.size + 1 := by
  rw [size_insert]
  split <;> omega

/-- Adding keys never loses any, so no table on the way is larger than the last. -/
theorem size_le_size_extend (t : Table) (keys : List Key) :
    t.size ≤ (t.extend keys).state.size :=
  Step.forEach_induction (motive := fun s : Table => t.size ≤ s.size) keys (Nat.le_refl _)
    fun s key h => Nat.le_trans h (s.size_le_size_insert key)

@[simp] theorem seed_extend (t : Table) (keys : List Key) :
    (t.extend keys).state.seed = t.seed :=
  Step.forEach_induction (motive := fun s : Table => s.seed = t.seed) keys rfl
    fun s key h => (s.seed_insert key).trans h

@[simp] theorem extend_nil (t : Table) : t.extend [] = ⟨0, t, []⟩ := rfl

theorem state_extend_nil (t : Table) : (t.extend []).state = t := rfl

theorem events_extend_nil (t : Table) : (t.extend []).events = [] := rfl

theorem answer_extend_cons (t : Table) (key : Key) (keys : List Key) :
    (t.extend (key :: keys)).answer =
      (t.insert key).answer.toNat + ((t.insert key).state.extend keys).answer := by
  rw [extend, Step.forEach_cons]
  rfl

theorem state_extend_cons (t : Table) (key : Key) (keys : List Key) :
    (t.extend (key :: keys)).state = ((t.insert key).state.extend keys).state := by
  rw [extend, Step.forEach_cons]
  rfl

theorem size_extend (t : Table) (keys : List Key) :
    (t.extend keys).state.size = t.size + (t.extend keys).answer := by
  induction keys generalizing t with
  | nil => rfl
  | cons key keys ih =>
    rw [state_extend_cons, answer_extend_cons, ih, size_insert, answer_insert]
    cases t.contains key with
    | true => simp
    | false => simp [Nat.add_assoc]

theorem size_extend_le (t : Table) (keys : List Key) :
    (t.extend keys).state.size ≤ t.size + keys.length := by
  induction keys generalizing t with
  | nil => simp
  | cons key keys ih =>
    have hfirst := t.size_insert_le key
    have hrest := ih (t.insert key).state
    rw [state_extend_cons, List.length_cons]
    omega

theorem events_extend_cons (t : Table) (key : Key) (keys : List Key) :
    (t.extend (key :: keys)).events =
      (t.insert key).events ++ ((t.insert key).state.extend keys).events := by
  rw [extend, Step.forEach_cons]
  rfl

theorem state_extend_singleton (t : Table) (key : Key) :
    (t.extend [key]).state = (t.insert key).state := by
  rw [state_extend_cons, state_extend_nil]

theorem events_extend_singleton (t : Table) (key : Key) :
    (t.extend [key]).events = (t.insert key).events := by
  rw [events_extend_cons, events_extend_nil, List.append_nil]

/-- What an insertion keeps as long as the table has fewer than `bound` keys, adding keys one by one
keeps if fewer are there at the end. -/
theorem extend_induction {motive : Table → Prop} {bound : Nat} {t : Table} (keys : List Key)
    (start : motive t) (hsize : (t.extend keys).state.size < bound)
    (step : ∀ s key, motive s → (insert s key).state.size < bound →
      motive (insert s key).state) :
    motive (t.extend keys).state := by
  induction keys generalizing t with
  | nil => exact start
  | cons key keys ih =>
    rw [state_extend_cons] at hsize ⊢
    -- The rest only adds keys, so the bound on the last table holds for the first one too.
    have hfirst : (t.insert key).state.size < bound :=
      Nat.lt_of_le_of_lt ((t.insert key).state.size_le_size_extend keys) hsize
    exact ih (step t key start hfirst) hsize

/-! ## Taking a key out -/

theorem remove_of_contains {t : Table} {key : Key} (h : t.contains key = true) :
    t.remove key =
      ⟨true, { t with size := t.size - 1, buckets := t.buckets.modify (t.home key) (·.erase key) },
        []⟩ := by
  simp [remove, h]

theorem remove_of_not_contains {t : Table} {key : Key} (h : t.contains key = false) :
    t.remove key = ⟨false, t, []⟩ := by
  simp [remove, h]

theorem answer_remove (t : Table) (key : Key) : (t.remove key).answer = t.contains key := by
  cases h : t.contains key with
  | true => rw [remove_of_contains h]
  | false => rw [remove_of_not_contains h]

@[simp] theorem seed_remove (t : Table) (key : Key) : (t.remove key).state.seed = t.seed := by
  cases h : t.contains key with
  | true => rw [remove_of_contains h]
  | false => rw [remove_of_not_contains h]

@[simp] theorem capacity_remove (t : Table) (key : Key) :
    (t.remove key).state.capacity = t.capacity := by
  cases h : t.contains key with
  | true => rw [remove_of_contains h]
  | false => rw [remove_of_not_contains h]

theorem events_remove (t : Table) (key : Key) : (t.remove key).events = [] := by
  cases h : t.contains key with
  | true => rw [remove_of_contains h]
  | false => rw [remove_of_not_contains h]

theorem size_remove (t : Table) (key : Key) :
    (t.remove key).state.size = if t.contains key then t.size - 1 else t.size := by
  cases h : t.contains key with
  | true => rw [remove_of_contains h]; simp
  | false => rw [remove_of_not_contains h]; simp

theorem size_remove_le (t : Table) (key : Key) : (t.remove key).state.size ≤ t.size := by
  rw [size_remove]
  split <;> omega

theorem rows_remove {t : Table} {key : Key} (h : t.contains key = true) :
    (t.remove key).state.rows = t.rows.modify (t.home key) (·.erase key) := by
  rw [remove_of_contains h]
  exact map_keys_modify _ _ _ _ fun c => Chain.keys_erase c key

end Table

end ChainedSet
