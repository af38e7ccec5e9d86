import ChainedSet.Proofs.Checked.Basic
import ChainedSet.Proofs.Table.Action

/-!
# Operations that can fail

The operations on a set once more, as a machine performs them: buckets are looked up by number, a
key is taken out at the position where it was found, and the numbers of the set are words. On a
well-formed set of fewer than `2 ^ 53` keys none of this fails, and the step is the one that the
operation makes (`insert_eq_ok`, `remove_eq_ok`, `contains_eq_ok`), so a whole run has the steps
that it has without the checks (`steps_eq_ok`).

Why the checks pass: a capacity is never zero and there are as many buckets as it says, a key that
is found in its bucket is one of those that the size counts, and a set that grows has fewer than
`10 / 7 * 2 ^ 53` buckets.
-/

namespace ChainedSet

/-! ## Calls -/

namespace Table

/-- A call on a set: one that may change it, or a question about all of it. -/
inductive Call where
  | act (action : Action)
  | iter
  | loadFactor

/-- What a call answers. -/
inductive Answer where
  | outcome (found : Option Bool)
  | keys (keys : List Key)
  | load (load : Binary64)

/-- The step that a call makes. -/
def Call.run (t : Table) : Call → Step Table Answer
  | act action => (action.run t).map .outcome
  | iter => ⟨.keys t.toList, t, []⟩
  | loadFactor => ⟨.load t.loadFactor, t, []⟩

/-- The steps of a run of calls. -/
def callSteps (t : Table) : List Call → List (Step Table Answer)
  | [] => []
  | call :: calls => call.run t :: callSteps (call.run t).state calls

theorem Sound.call {t : Table} (h : t.Sound) (call : Call)
    (hsize : (call.run t).state.size < 2 ^ 53) : (call.run t).state.Sound := by
  cases call with
  | act action => exact h.run action hsize
  | iter => exact h
  | loadFactor => exact h

end Table

namespace Checked

/-! ## Buckets -/

/-- Changes the bucket with a given number. -/
def update (buckets : Array Chain) (bucket : Nat) (change : Chain → Except Fault Chain) :
    Except Fault (Array Chain) := do
  let chain ← index buckets.toList bucket
  let changed ← change chain
  return buckets.setIfInBounds bucket changed

/-- Takes out the key at a position. -/
def removeAt (position : Nat) (chain : Chain) : Except Fault Chain :=
  if position < chain.keys.length then
    .ok ⟨chain.keys.eraseIdx position, chain.room,
      Nat.le_trans (List.length_eraseIdx_le ..) chain.length_le_room⟩
  else .error (.outOfBounds position chain.keys.length)

theorem update_eq_ok {buckets : Array Chain} {bucket : Nat} {change : Chain → Except Fault Chain}
    {chain : Chain} (f : Chain → Chain) (hchain : buckets[bucket]? = some chain)
    (hchange : change chain = .ok (f chain)) :
    update buckets bucket change = .ok (buckets.modify bucket f) := by
  have hmodify : buckets.setIfInBounds bucket (f chain) = buckets.modify bucket f := by
    apply Array.ext_getElem?
    intro i
    rw [Array.getElem?_setIfInBounds, Array.getElem?_modify]
    by_cases hi : bucket = i
    · subst hi
      obtain ⟨hlt, hget⟩ := Array.getElem?_eq_some_iff.mp hchain
      simp [hlt, hget]
    · simp [hi]
  rw [update, index_eq_ok (by rw [Array.getElem?_toList, hchain]), ok_bind, hchange, ok_bind,
    hmodify]
  rfl

theorem removeAt_eq_ok {chain : Chain} {key : Key} {position : Nat}
    (h : chain.keys.idxOf? key = some position) :
    removeAt position chain = .ok (chain.erase key) := by
  have hlt : position < chain.keys.length := by
    obtain ⟨hlt, -⟩ := List.findIdx?_eq_some_iff_getElem.mp h
    exact hlt
  rw [removeAt, if_pos hlt]
  simp only [Chain.erase, List.erase_eq_eraseIdx, h]

theorem getElem?_home {t : Table} (h : t.WellFormed) (key : Key) :
    t.buckets[t.home key]? = some (t.chain (t.home key)) :=
  Table.getElem?_buckets (h.home_lt_size key)

theorem index_home {t : Table} (h : t.WellFormed) (key : Key) :
    index t.buckets.toList (t.home key) = .ok (t.chain (t.home key)) :=
  index_eq_ok (by rw [Array.getElem?_toList, getElem?_home h])

theorem slot_home {t : Table} (h : t.WellFormed) (key : Key) :
    slot t.seed t.capacity key = .ok (t.home key) :=
  slot_eq_ok h.wellPlaced.regular.pos _ _

/-! ## Adding a key -/

/-- Puts keys into buckets, one after the other. -/
def lay (seed : UInt64) (capacity : Nat) (buckets : Array Chain) :
    List Key → Except Fault (Array Chain)
  | [] => .ok buckets
  | key :: keys => do
    let home ← slot seed capacity key
    let buckets ← update buckets home fun chain => .ok (chain.push key)
    lay seed capacity buckets keys

/-- Adds a key at the end of the chain of a bucket. -/
def place (t : Table) (home : Nat) (key : Key) : Except Fault Table := do
  let buckets ← update t.buckets home fun chain => .ok (chain.push key)
  let size ← add t.size 1
  return { t with size, buckets }

def grow (t : Table) : Except Fault Table := do
  let capacity ← mul t.capacity 2
  let buckets ← lay t.seed capacity (Array.replicate capacity .empty) t.toList
  return { t with capacity, buckets }

def insert (t : Table) (key : Key) : Except Fault (Step Table Bool) := do
  let home ← slot t.seed t.capacity key
  let chain ← index t.buckets.toList home
  if chain.contains key then return ⟨false, t, []⟩
  else
    let added ← place t home key
    if added.isOverloaded then
      let grown ← grow added
      return ⟨true, grown, [.grew added.capacity grown.capacity added.size]⟩
    else return ⟨true, added, []⟩

/-- Adds keys one after the other; how many were new. -/
def extend (t : Table) : List Key → Except Fault (Step Table Nat)
  | [] => return ⟨0, t, []⟩
  | key :: keys => do
    let first ← insert t key
    let rest ← extend first.state keys
    return ⟨first.answer.toNat + rest.answer, rest.state, first.events ++ rest.events⟩

theorem lay_eq_ok {seed : UInt64} {capacity : Nat} (h : 0 < capacity) {buckets : Array Chain}
    (hsize : buckets.size = capacity) (keys : List Key) :
    lay seed capacity buckets keys =
      .ok (keys.foldl
        (fun buckets key => buckets.modify (Murmur.slot seed capacity key) (·.push key))
        buckets) := by
  induction keys generalizing buckets with
  | nil => rfl
  | cons key keys ih =>
    have hhome : Murmur.slot seed capacity key < buckets.size := by
      rw [hsize]
      exact Murmur.slot_lt h seed key
    rw [lay, slot_eq_ok h, ok_bind,
      update_eq_ok (·.push key) (Array.getElem?_eq_getElem hhome) rfl, ok_bind,
      ih (by rw [Array.size_modify, hsize])]
    rfl

theorem grow_eq_ok {t : Table} (hpos : 0 < t.capacity) (h : 2 * t.capacity < 2 ^ 64) :
    grow t = .ok t.grow := by
  rw [grow, mul_eq_ok (by omega), ok_bind, Nat.mul_comm, lay_eq_ok (by omega) Array.size_replicate]
  rfl

theorem place_eq_ok {t : Table} (h : t.Sound) (key : Key) :
    place t (t.home key) key = .ok (t.place key) := by
  have hsize := h.size_lt
  rw [place, update_eq_ok (·.push key) (getElem?_home h.wellFormed key) rfl, ok_bind,
    add_eq_ok (by omega)]
  rfl

/-- **Adding a key does not fail**, and neither does the growth that it may lead to. -/
theorem insert_eq_ok {t : Table} (h : t.Sound) {key : Key}
    (hsize : (t.insert key).state.size < 2 ^ 53) : insert t key = .ok (t.insert key) := by
  have hcapacity := (h.insert key hsize).capacity_lt
  rw [insert, slot_home h.wellFormed, ok_bind, index_home h.wellFormed, ok_bind]
  show (if t.contains key then _ else _) = _
  rcases t.insert_cases key with ⟨hkey, hstep⟩ | ⟨hkey, hload, hstep⟩ | ⟨hkey, hload, hstep⟩
  · rw [if_pos hkey, hstep]
    rfl
  · rw [if_neg (by simp [hkey]), place_eq_ok h, ok_bind, if_neg (by simp [hload]), hstep]
    rfl
  · -- The bound on capacities is that of the larger table, the one after the growth.
    rw [hstep] at hcapacity
    rw [if_neg (by simp [hkey]), place_eq_ok h, ok_bind, if_pos hload,
      grow_eq_ok (t := t.place key) h.wellFormed.wellPlaced.regular.pos hcapacity, hstep]
    rfl

theorem extend_eq_ok {t : Table} (h : t.Sound) {keys : List Key}
    (hsize : (t.extend keys).state.size < 2 ^ 53) : extend t keys = .ok (t.extend keys) := by
  induction keys generalizing t with
  | nil => rfl
  | cons key keys ih =>
    have hrest := hsize
    rw [Table.state_extend_cons] at hrest
    have hfirst : (t.insert key).state.size < 2 ^ 53 :=
      Nat.lt_of_le_of_lt ((t.insert key).state.size_le_size_extend keys) hrest
    rw [extend, insert_eq_ok h hfirst, ok_bind, ih (h.insert key hfirst) hrest]
    show _ = Except.ok (Step.forEach Table.insert t (key :: keys))
    rw [Step.forEach_cons]
    rfl

/-! ## Looking for a key and taking it out -/

def contains (t : Table) (key : Key) : Except Fault Bool := do
  let home ← slot t.seed t.capacity key
  let chain ← index t.buckets.toList home
  return chain.contains key

def remove (t : Table) (key : Key) : Except Fault (Step Table Bool) := do
  let home ← slot t.seed t.capacity key
  let chain ← index t.buckets.toList home
  match chain.keys.idxOf? key with
  | none => return ⟨false, t, []⟩
  | some position =>
    let buckets ← update t.buckets home (removeAt position)
    let size ← sub t.size 1
    return ⟨true, { t with size, buckets }, []⟩

theorem contains_eq_ok {t : Table} (h : t.WellFormed) (key : Key) :
    contains t key = .ok (t.contains key) := by
  rw [contains, slot_home h, ok_bind, index_home h]
  rfl

/-- **Taking a key out does not fail**: one that is found is counted by the size. -/
theorem remove_eq_ok {t : Table} (h : t.WellFormed) (key : Key) :
    remove t key = .ok (t.remove key) := by
  rw [remove, slot_home h, ok_bind, index_home h, ok_bind]
  cases hposition : (t.chain (t.home key)).keys.idxOf? key with
  | none =>
    have hkey : t.contains key = false := by
      simpa [Table.contains, Chain.contains] using List.idxOf?_eq_none_iff.mp hposition
    rw [Table.remove_of_not_contains hkey]
    rfl
  | some position =>
    have hkey : t.contains key = true := by
      rw [Table.contains, Chain.contains, List.contains_iff_mem]
      apply Decidable.of_not_not
      intro hnot
      rw [List.idxOf?_eq_none_iff.mpr hnot] at hposition
      cases hposition
    have hpos : 1 ≤ t.size := by
      rw [h.size_eq_length]
      exact List.length_pos_of_mem ((h.contains_iff key).mp hkey)
    rw [Table.remove_of_contains hkey]
    dsimp only
    rw [update_eq_ok (·.erase key) (getElem?_home h key) (removeAt_eq_ok hposition), ok_bind,
      sub_eq_ok hpos]
    rfl

-- Without buckets there is no place to look for a key.
example : remove ⟨4, 0, 0, #[]⟩ [0x61] = .error .noBuckets := rfl

/-! ## Runs -/

/-- The step of a call that may change the set. -/
def act (t : Table) : Table.Action → Except Fault (Step Table (Option Bool))
  | .insert key => do
    let s ← insert t key
    return s.map some
  | .remove key => do
    let s ← remove t key
    return s.map some
  | .contains key => do
    let found ← contains t key
    return ⟨some found, t, []⟩
  | .clear => return t.clear.map fun _ => none
  | .extend keys => do
    let s ← extend t keys
    return s.map fun _ => none
  | .merge other => do
    let s ← extend t other.toList
    return s.map fun _ => none

def run (t : Table) : Table.Call → Except Fault (Step Table Table.Answer)
  | .act action => do
    let s ← act t action
    return s.map .outcome
  | .iter => return ⟨.keys t.toList, t, []⟩
  | .loadFactor => return ⟨.load t.loadFactor, t, []⟩

def steps (t : Table) : List Table.Call → Except Fault (List (Step Table Table.Answer))
  | [] => return []
  | call :: calls => do
    let s ← run t call
    let rest ← steps s.state calls
    return s :: rest

theorem act_eq_ok {t : Table} (h : t.Sound) (action : Table.Action)
    (hsize : (action.run t).state.size < 2 ^ 53) : act t action = .ok (action.run t) := by
  cases action with
  | insert key =>
    rw [Table.Action.run, Step.state_map] at hsize
    rw [act, insert_eq_ok h hsize]
    rfl
  | remove key =>
    rw [act, remove_eq_ok h.wellFormed]
    rfl
  | contains key =>
    rw [act, contains_eq_ok h.wellFormed]
    rfl
  | clear => rfl
  | extend keys =>
    rw [Table.Action.run, Step.state_map] at hsize
    rw [act, extend_eq_ok h hsize]
    rfl
  | merge other =>
    rw [Table.Action.run, Step.state_map] at hsize
    rw [act, extend_eq_ok h hsize]
    rfl

theorem run_eq_ok {t : Table} (h : t.Sound) (call : Table.Call)
    (hsize : (call.run t).state.size < 2 ^ 53) : run t call = .ok (call.run t) := by
  cases call with
  | act action =>
    rw [run, act_eq_ok h action hsize]
    rfl
  | iter => rfl
  | loadFactor => rfl

/-- **No call of a run fails**, as long as the set stays below `2 ^ 53` keys. -/
theorem steps_eq_ok {t : Table} (h : t.Sound) (calls : List Table.Call)
    (hsize : ∀ s ∈ t.callSteps calls, s.state.size < 2 ^ 53) :
    steps t calls = .ok (t.callSteps calls) := by
  induction calls generalizing t with
  | nil => rfl
  | cons call calls ih =>
    have hfirst := hsize _ (List.mem_cons_self ..)
    have hrest := ih (h.call call hfirst) fun s hs => hsize s (List.mem_cons_of_mem _ hs)
    rw [steps, run_eq_ok h call hfirst, ok_bind, hrest]
    rfl

end Checked

end ChainedSet
