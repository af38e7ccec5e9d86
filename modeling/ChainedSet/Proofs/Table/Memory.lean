import ChainedSet.Proofs.Image.Lengths
import ChainedSet.Proofs.Table.Action

/-!
# Memory

A table takes memory for itself, for an entry per bucket, for an entry per key that its chains have
room for, and for the bytes of its keys (`sizeBytes_eq`). How much room a chain has depends on all
that was ever done to it: adding a key may double it, taking one out keeps it, and it starts again
from nothing when the table grows or is cleared, and from the number of keys when the table is
copied or read back. But a chain never has more keys than room, and so what the keys need at least
is never more than what is counted. A copy, and a table that was read back, take exactly that.

Taking a key out frees its bytes and nothing else. Adding one takes its bytes, and as many entries
as its chain gets more room for. The main statement is `Built.memory_accounted`. It is about tables
that were built here (`Built`), since only of their chains it is known how they came to their room.
-/

namespace ChainedSet

/-- Where one entry of a list is changed, a total changes by what it changes for that entry. -/
theorem sum_map_modify {α : Type} (f : α → Nat) (g : α → α) {l : List α} {i : Nat} {a : α}
    (h : l[i]? = some a) : ((l.modify i g).map f).sum + f a = (l.map f).sum + f (g a) := by
  obtain ⟨hi, hget⟩ := List.getElem?_eq_some_iff.mp h
  obtain ⟨before, b, after, rfl, hlength, hmodify⟩ := List.exists_of_modify g hi
  obtain rfl : b = a := by
    subst hlength
    simpa using hget
  rw [hmodify]
  simp only [List.map_append, List.map_cons, List.sum_append, List.sum_cons]
  omega

/-! ## Chains -/

namespace Chain

theorem room_le_room_push (c : Chain) (key : Key) : c.room ≤ (c.push key).room := by
  show c.room ≤ if c.keys.length = c.room then max 4 (2 * c.room) else c.room
  split <;> omega

/-- A key that is added takes its bytes, and entries if the chain had no room for it. -/
theorem sizeBytes_push (c : Chain) (key : Key) :
    (c.push key).sizeBytes =
      c.sizeBytes + key.length + entryBytes * ((c.push key).room - c.room) := by
  obtain ⟨more, hmore⟩ := Nat.exists_eq_add_of_le (c.room_le_room_push key)
  rw [sizeBytes, sizeBytes, hmore, Nat.add_sub_cancel_left, keys_push, List.flatten_append,
    List.flatten_singleton, List.length_append, Nat.mul_add]
  omega

/-- A key that is taken out frees its bytes, and no entry. -/
theorem sizeBytes_erase {c : Chain} {key : Key} (h : key ∈ c.keys) :
    (c.erase key).sizeBytes + key.length = c.sizeBytes := by
  have hbytes : c.keys.flatten.length = key.length + (c.keys.erase key).flatten.length := by
    rw [(List.perm_cons_erase h).flatten.length_eq, List.flatten_cons, List.length_append]
  show entryBytes * c.room + (c.keys.erase key).flatten.length + key.length =
    entryBytes * c.room + c.keys.flatten.length
  omega

/-- What chains take in all is entries for what they have room for, and the bytes of their keys. -/
theorem sum_sizeBytes (chains : List Chain) :
    (chains.map sizeBytes).sum =
      entryBytes * (chains.map room).sum + ((chains.flatMap keys).map List.length).sum := by
  induction chains with
  | nil => rfl
  | cons c chains ih =>
    simp only [List.map_cons, List.sum_cons, List.flatMap_cons, List.map_append, List.sum_append,
      ih, sizeBytes, List.length_flatten, Nat.mul_add]
    omega

end Chain

namespace Table

variable {t : Table} {key : Key}

/-! ## Tables -/

/-- How many keys the chains have room for. -/
def room (t : Table) : Nat := (t.buckets.toList.map Chain.room).sum

/-- The bytes of the keys. -/
def keyBytes (t : Table) : Nat := (t.toList.map List.length).sum

theorem sizeBytes_eq_sum (t : Table) :
    t.sizeBytes =
      headerBytes + Chain.entryBytes * t.capacity + (t.buckets.toList.map Chain.sizeBytes).sum := by
  rw [sizeBytes, ← Array.foldl_toList, foldl_add_eq_sum]

theorem sizeBytes_eq (t : Table) :
    t.sizeBytes =
      headerBytes + Chain.entryBytes * t.capacity + Chain.entryBytes * t.room + t.keyBytes := by
  rw [sizeBytes_eq_sum, Chain.sum_sizeBytes, Nat.add_assoc _ _ t.keyBytes]
  rfl

theorem length_toList_le_room (t : Table) : t.toList.length ≤ t.room := by
  rw [toList, List.length_flatMap, room]
  exact List.sum_le_sum fun c _ => c.length_le_room

@[simp] theorem keyBytes_clone (t : Table) : t.clone.keyBytes = t.keyBytes := by
  rw [keyBytes, toList_clone, keyBytes]

/-- A copy has room for its keys and no more. -/
@[simp] theorem room_clone (t : Table) : t.clone.room = t.toList.length := by
  rw [toList, List.length_flatMap, room, clone, Array.toList_map, List.map_map]
  rfl

/-- A chain that is changed changes the memory of the table as it changes its own. -/
theorem sizeBytes_modify {bucket : Nat} (h : bucket < t.buckets.size) (size : Nat)
    (f : Chain → Chain) :
    { t with size := size, buckets := t.buckets.modify bucket f }.sizeBytes
        + (t.chain bucket).sizeBytes =
      t.sizeBytes + (f (t.chain bucket)).sizeBytes := by
  have hentry : t.buckets.toList[bucket]? = some (t.chain bucket) := by
    rw [Array.getElem?_toList, getElem?_buckets h]
  have hsum := sum_map_modify Chain.sizeBytes f hentry
  rw [sizeBytes_eq_sum, sizeBytes_eq_sum]
  simp only [Array.toList_modify]
  omega

/-! ## One key more or less -/

theorem chain_place_home (h : t.home key < t.buckets.size) :
    (t.place key).chain (t.home key) = (t.chain (t.home key)).push key := by
  have hlt : t.home key < (t.place key).buckets.size := by rwa [size_buckets_place]
  apply Option.some.inj
  rw [← getElem?_buckets hlt]
  show (t.buckets.modify (t.home key) (·.push key))[t.home key]? = _
  rw [Array.getElem?_modify, if_pos rfl, getElem?_buckets h, Option.map_some]

theorem chain_place_of_ne {bucket : Nat} (h : bucket ≠ t.home key) :
    (t.place key).chain bucket = t.chain bucket := by
  rw [chain, chain, Array.getD_eq_getD_getElem?, Array.getD_eq_getD_getElem?]
  show (t.buckets.modify (t.home key) (·.push key))[bucket]?.getD _ = _
  rw [Array.getElem?_modify, if_neg h.symm]

/-- A new key is put into its home, and nothing else happens unless the table grows. -/
theorem state_insert_eq_place (hpos : 0 < t.capacity) (hnew : (t.insert key).answer = true)
    (hcapacity : (t.insert key).state.capacity = t.capacity) :
    (t.insert key).state = t.place key := by
  rcases t.insert_cases key with ⟨-, hstep⟩ | ⟨-, -, hstep⟩ | ⟨-, -, hstep⟩
  · rw [hstep] at hnew
    cases hnew
  · rw [hstep]
  · rw [hstep, capacity_grow, capacity_place] at hcapacity
    omega

theorem WellFormed.sizeBytes_place (h : t.WellFormed) (key : Key) :
    (t.place key).sizeBytes =
      t.sizeBytes + key.length +
        Chain.entryBytes *
          (((t.chain (t.home key)).push key).room - (t.chain (t.home key)).room) := by
  have hplace : (t.place key).sizeBytes + (t.chain (t.home key)).sizeBytes =
      t.sizeBytes + ((t.chain (t.home key)).push key).sizeBytes :=
    sizeBytes_modify (h.home_lt_size key) (t.size + 1) (·.push key)
  rw [Chain.sizeBytes_push] at hplace
  omega

theorem WellFormed.sizeBytes_remove (h : t.WellFormed) (hkey : t.contains key = true) :
    (t.remove key).state.sizeBytes + key.length = t.sizeBytes := by
  have hremove : (t.remove key).state.sizeBytes + (t.chain (t.home key)).sizeBytes =
      t.sizeBytes + ((t.chain (t.home key)).erase key).sizeBytes := by
    rw [remove_of_contains hkey]
    exact sizeBytes_modify (h.home_lt_size key) (t.size - 1) (·.erase key)
  rw [← Chain.sizeBytes_erase (List.contains_iff_mem.mp hkey)] at hremove
  omega

/-! ## Tables that were built here -/

/-- The sets that a program builds up itself, out of nothing or from an image, as long as none has
`2 ^ 53` keys or more. They are not made from the four fields of a layout: whoever made its chains
may have left any room in them. -/
inductive Built : Table → Prop
  | withSeed (seed : UInt64) : Built (withSeed seed)
  | decode {t : Table} (bytes : List UInt8) :
      Table.decode bytes = .ok t → t.size < 2 ^ 53 → Built t
  | run {t : Table} (action : Action) :
      Built t → (action.run t).state.size < 2 ^ 53 → Built (action.run t).state
  | clone {t : Table} : Built t → Built t.clone

theorem Built.sound (h : t.Built) : t.Sound := by
  induction h with
  | withSeed seed => exact sound_withSeed seed
  | decode bytes hdecode hsize =>
    obtain ⟨l, -, htable⟩ := toTable_of_decode hdecode
    exact sound_of_toTable htable hsize
  | run action _ hsize ih => exact ih.run action hsize
  | clone _ ih => exact ih.clone

/-- What is read from the image of a table is a copy of it. -/
theorem Sound.decode_eq_clone (h : t.Sound) {bytes : List UInt8} (henc : t.encode = .ok bytes) :
    Table.decode bytes = .ok t.clone :=
  decode_eq_ok_iff.mpr ⟨t.layout, henc, h.toTable_layout⟩

theorem Sound.sizeBytes_clone (h : t.Sound) :
    t.clone.sizeBytes = 48 + 24 * t.capacity + 24 * t.size + (t.toList.map List.length).sum := by
  rw [sizeBytes_eq, room_clone, keyBytes_clone, ← h.wellFormed.size_eq_length]
  rfl

/-- **The memory that is counted is never less than what is needed, and a table that is read back
takes no more.** A table counts at least an entry per bucket, an entry per key and the bytes of its
keys. A copy of it, and the table that its image holds, count exactly that. Taking a key out counts
its bytes less. Adding one without growth counts its bytes more, and an entry for each further key
that its chain, and no other, has room for afterwards. -/
theorem Built.memory_accounted (h : t.Built) :
    let least := 48 + 24 * t.capacity + 24 * t.size + (t.toList.map List.length).sum
    least ≤ t.sizeBytes ∧ t.clone.sizeBytes = least ∧
      (∀ bytes, t.encode = .ok bytes →
        ∃ u : Table, Table.decode bytes = .ok u ∧ u.sizeBytes = least) ∧
      (∀ key, (t.remove key).answer = true →
        (t.remove key).state.sizeBytes + key.length = t.sizeBytes) ∧
      ∀ key, (t.insert key).answer = true → (t.insert key).state.capacity = t.capacity →
        let before := (t.chain (t.home key)).room
        let after := ((t.insert key).state.chain (t.home key)).room
        before ≤ after ∧
          (t.insert key).state.sizeBytes = t.sizeBytes + key.length + 24 * (after - before) ∧
          ∀ bucket, bucket ≠ t.home key → (t.insert key).state.chain bucket = t.chain bucket := by
  intro least
  have hsound := h.sound
  have hwellFormed := hsound.wellFormed
  refine ⟨?_, hsound.sizeBytes_clone, ?_, ?_, ?_⟩
  · have hroom := t.length_toList_le_room
    rw [← hwellFormed.size_eq_length] at hroom
    rw [sizeBytes_eq]
    exact Nat.add_le_add_right (Nat.add_le_add_left (Nat.mul_le_mul_left 24 hroom) _) _
  · intro bytes henc
    exact ⟨t.clone, hsound.decode_eq_clone henc, hsound.sizeBytes_clone⟩
  · intro key hanswer
    rw [answer_remove] at hanswer
    exact hwellFormed.sizeBytes_remove hanswer
  · intro key hnew hcapacity before after
    have hstate := state_insert_eq_place hwellFormed.wellPlaced.regular.pos hnew hcapacity
    have hafter : after = ((t.chain (t.home key)).push key).room := by
      show ((t.insert key).state.chain (t.home key)).room = _
      rw [hstate, chain_place_home (hwellFormed.home_lt_size key)]
    rw [hafter, hstate]
    refine ⟨Chain.room_le_room_push _ key, hwellFormed.sizeBytes_place key, ?_⟩
    intro bucket hbucket
    exact chain_place_of_ne hbucket

/-- A table that grew and lost a key, whose chains have room to spare: what it counts, what a copy
of it and a table read back count, and what it counts with a key less, and with one more that is the
first of its chain. -/
theorem memory_accounted_spare :
    let keys : List Key := (List.range 23).map fun n => List.replicate n 7
    let grown := ((Action.extend keys).run (withSeed 9)).state
    let t := ((Action.remove [7, 7]).run grown).state
    t.Built ∧ t.sizeBytes = 3755 ∧ t.clone.sizeBytes = 2363 ∧
      (∃ bytes, t.encode = .ok bytes ∧
        ∃ u : Table, Table.decode bytes = .ok u ∧ u.sizeBytes = 2363) ∧
      (t.remove [7]).state.sizeBytes = 3754 ∧
      (t.insert [0, 1]).state.sizeBytes = 3755 + 2 + 24 * 4 := by
  intro keys grown t
  have ht : t.Built := .run _ (.run _ (.withSeed 9) (by decide +kernel)) (by decide +kernel)
  have hbytes : t.sizeBytes = 3755 := by decide +kernel
  have hleast : 48 + 24 * t.capacity + 24 * t.size + (t.toList.map List.length).sum = 2363 := by
    decide +kernel
  have hok : t.encode.isOk = true := by decide +kernel
  obtain ⟨-, hclone, hreload, hremove, hinsert⟩ := ht.memory_accounted
  refine ⟨ht, hbytes, hclone.trans hleast, ?_, ?_, ?_⟩
  · cases henc : t.encode with
    | error e =>
      rw [henc] at hok
      cases hok
    | ok bytes =>
      obtain ⟨u, hdecode, hu⟩ := hreload bytes henc
      exact ⟨bytes, rfl, u, hdecode, hu.trans hleast⟩
  · have hless := hremove [7] (by decide +kernel)
    rw [hbytes] at hless
    exact Nat.succ_injective hless
  · have hroom : ((t.insert [0, 1]).state.chain (t.home [0, 1])).room -
        (t.chain (t.home [0, 1])).room = 4 := by decide +kernel
    obtain ⟨-, hmore, -⟩ := hinsert [0, 1] (by decide +kernel) (by decide +kernel)
    rw [hmore, hroom, hbytes]
    rfl

end Table

end ChainedSet
