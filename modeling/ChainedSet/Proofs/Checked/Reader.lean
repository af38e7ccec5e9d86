import ChainedSet.Proofs.Checked.Basic
import ChainedSet.Wire.Cursor

/-!
# Reading that can fail

A reader has all of its bytes and a position in them, and is changed in place by its reads. What is
left of its bytes is a difference and the end of a field is a sum, both of which have to fit a word,
and a field is a part of the bytes, which has to be inside. A read may be refused, as a cursor
refuses it, or have a fault, which a cursor has no notion of.

Where a reader and a cursor stand at the same place (`Reader.At`), every read by the one does what a
read by the other does. This is said in two ways. `Takes` accounts for one field: where too few
bytes are left it is refused, which leaves the reader as it was, and otherwise it moves past so many
bytes and hands out what they stand for. `Follows` says of any number of reads that both refuse for
the same reason, or hand out the same and stand at the same place again.
-/

namespace ChainedSet.Checked

open Wire

/-- A position in bytes. -/
structure Reader where
  data : List UInt8
  position : Nat

/-- Work on a reader in place, which may be refused and may, apart from that, have a fault. What has
been done to the reader before it is refused stays done. -/
abbrev InPlace (α : Type) := ExceptT DecodeError (StateT Reader (Except Fault)) α

namespace InPlace

variable {α β : Type}

/-- What is done to a reader: the outcome, and the reader afterwards. -/
def runOn (x : InPlace α) (reader : Reader) : Except Fault (Except DecodeError α × Reader) :=
  x.run.run reader

/-! ## Reads -/

/-- How many bytes are ahead. -/
def remaining : InPlace Nat := do
  let r : Reader ← get
  sub r.data.length r.position

/-- The next `n` bytes. The position that a short read asks for is not looked for among the bytes,
so it may stop at the largest word. -/
def take (n : Nat) : InPlace (List UInt8) := do
  let left ← remaining
  let r : Reader ← get
  if left < n then
    throw (.bufferTooShort (min (r.position + n) 0xffffffffffffffff) r.data.length)
  else
    let stop ← (add r.position n : Except Fault Nat)
    let bytes ← (slice r.data r.position stop : Except Fault (List UInt8))
    set (⟨r.data, stop⟩ : Reader)
    return bytes

/-- A field of fixed width. -/
def array (width : Nat) : InPlace (List UInt8) := do
  let bytes ← take width
  copy width bytes

/-- A number of one byte. -/
def byte : InPlace UInt8 := do
  let field ← array 1
  index field 0

/-- A number of fixed width. -/
def word (width : Nat) : InPlace UInt64 := do
  let field ← array width
  return LittleEndian.decode field

/-- A length prefix. -/
def length : InPlace Nat := do
  let n ← word 4
  return n.toNat

/-- Reads `n` times in a row. -/
def many (read : InPlace α) : Nat → InPlace (List α)
  | 0 => return []
  | n + 1 => do
    let a ← read
    let results ← many read n
    return a :: results

/-! ## One step after the other -/

theorem runOn_pure (a : α) (r : Reader) : (pure a : InPlace α).runOn r = .ok (.ok a, r) := rfl

theorem runOn_throw (e : DecodeError) (r : Reader) :
    (throw e : InPlace α).runOn r = .ok (.error e, r) := rfl

theorem runOn_get (r : Reader) : (get : InPlace Reader).runOn r = .ok (.ok r, r) := rfl

theorem runOn_bind_of_ok {x : InPlace α} {r s : Reader} {a : α} (h : x.runOn r = .ok (.ok a, s))
    (f : α → InPlace β) : (x >>= f).runOn r = (f a).runOn s := by
  show (x.run r >>= _) = _
  rw [show x.run r = .ok (.ok a, s) from h]
  rfl

theorem runOn_bind_of_error {x : InPlace α} {r s : Reader} {e : DecodeError}
    (h : x.runOn r = .ok (.error e, s)) (f : α → InPlace β) :
    (x >>= f).runOn r = .ok (.error e, s) := by
  show (x.run r >>= _) = _
  rw [show x.run r = .ok (.error e, s) from h]
  rfl

/-- A check that passes leaves the reader alone. -/
theorem runOn_checked {x : Except Fault α} {a : α} (h : x = .ok a) (r : Reader) :
    (liftM x : InPlace α).runOn r = .ok (.ok a, r) := by
  rw [h]
  rfl

end InPlace

/-! ## Readers and cursors -/

/-- The reader and the cursor stand at the same place in the same bytes, which are as many as an
array can have. -/
structure Reader.At (r : Reader) (c : Cursor) : Prop where
  position_eq : r.position = c.position
  length_eq : r.data.length = c.total
  drop_eq : r.data.drop r.position = c.rest
  length_lt : r.data.length < 2 ^ 63

theorem Reader.at_ofBytes {bytes : List UInt8} (h : bytes.length < 2 ^ 63) :
    At ⟨bytes, 0⟩ (.ofBytes bytes) :=
  ⟨rfl, rfl, rfl, h⟩

namespace Reader.At

variable {r : Reader} {c : Cursor}

theorem position_le (h : r.At c) : r.position ≤ r.data.length := by
  have := c.total_eq
  have := h.position_eq
  have := h.length_eq
  omega

theorem runOn_remaining (h : r.At c) :
    InPlace.remaining.runOn r = .ok (.ok c.remaining, r) := by
  have hsub : sub r.data.length r.position = .ok c.remaining := by
    rw [sub_eq_ok h.position_le, h.length_eq, h.position_eq]
    rfl
  exact (InPlace.runOn_bind_of_ok (InPlace.runOn_get r) _).trans (InPlace.runOn_checked hsub r)

/-- The bytes ahead of the cursor are inside the reader's, and their end is a word. -/
theorem add_le_length (h : r.At c) {n : Nat} (hn : n ≤ c.remaining) :
    r.position + n ≤ r.data.length ∧ r.position + n < 2 ^ 64 := by
  have := h.position_eq
  have := h.length_eq
  have := h.length_lt
  have := c.total_eq
  rw [Cursor.remaining_eq] at hn
  omega

theorem advance (h : r.At c) {n : Nat} (hn : n ≤ c.remaining) :
    At ⟨r.data, (c.advance n hn).position⟩ (c.advance n hn) where
  position_eq := rfl
  length_eq := h.length_eq
  drop_eq := by
    show r.data.drop (c.position + n) = c.rest.drop n
    rw [← List.drop_drop, ← h.position_eq, h.drop_eq]
  length_lt := h.length_lt

end Reader.At

/-! ## One field -/

/-- The work reads one field of `n` bytes and hands out their value. If they are not there, it is
refused and the reader stays where it was. -/
structure Takes {α : Type} (n : Nat) (value : List UInt8 → α) (x : InPlace α) : Prop where
  of_lt : ∀ r c, r.At c → c.remaining < n →
    x.runOn r =
      .ok (.error (.bufferTooShort (min (c.position + n) 0xffffffffffffffff) c.total), r)
  of_le : ∀ r c, r.At c → ∀ hn : n ≤ c.remaining,
    x.runOn r = .ok (.ok (value (c.rest.take n)), ⟨r.data, (c.advance n hn).position⟩)

/-- What is made of a field without touching the reader is the value of the same bytes. -/
theorem Takes.bind {α β : Type} {n : Nat} {value : List UInt8 → α} {value' : List UInt8 → β}
    {x : InPlace α} {f : α → InPlace β} (h : Takes n value x)
    (hf : ∀ bytes, bytes.length = n → ∀ r,
      (f (value bytes)).runOn r = .ok (.ok (value' bytes), r)) :
    Takes n value' (x >>= f) where
  of_lt r c hat hn := InPlace.runOn_bind_of_error (h.of_lt r c hat hn) f
  of_le r c hat hn := by
    rw [InPlace.runOn_bind_of_ok (h.of_le r c hat hn)]
    exact hf _ (Cursor.length_take_rest hn) _

/-- **A read is inside the bytes**, and its end is a word. -/
theorem take_takes (n : Nat) : Takes n id (InPlace.take n) where
  of_lt r c h hn := by
    rw [InPlace.take, InPlace.runOn_bind_of_ok h.runOn_remaining,
      InPlace.runOn_bind_of_ok (InPlace.runOn_get r), if_pos hn, h.position_eq, h.length_eq]
    exact InPlace.runOn_throw _ r
  of_le r c h hn := by
    obtain ⟨hinside, hword⟩ := h.add_le_length hn
    rw [InPlace.take, InPlace.runOn_bind_of_ok h.runOn_remaining,
      InPlace.runOn_bind_of_ok (InPlace.runOn_get r), if_neg (Nat.not_lt.mpr hn),
      InPlace.runOn_bind_of_ok (InPlace.runOn_checked (add_eq_ok hword) r),
      InPlace.runOn_bind_of_ok (InPlace.runOn_checked (slice_eq_ok hinside) r), h.drop_eq,
      h.position_eq]
    rfl

/-- As many bytes as were asked for can be copied into a field of that width. -/
theorem array_takes (width : Nat) : Takes width id (InPlace.array width) :=
  (take_takes width).bind fun _ hlength r => InPlace.runOn_checked (copy_eq_ok hlength) r

theorem word_takes (width : Nat) : Takes width LittleEndian.decode (InPlace.word width) :=
  (array_takes width).bind fun _ _ _ => rfl

theorem length_takes :
    Takes 4 (fun bytes => (LittleEndian.decode bytes).toNat) InPlace.length :=
  (word_takes 4).bind fun _ _ _ => rfl

theorem byte_takes : Takes 1 (fun bytes => bytes.headD 0) InPlace.byte := by
  refine (array_takes 1).bind fun bytes hlength r => ?_
  obtain ⟨b, rfl⟩ := List.length_eq_one_iff.mp hlength
  exact InPlace.runOn_checked (index_eq_ok rfl) r

/-! ## Any number of reads -/

/-- Work in place has no fault, and comes to what a computation comes to that cannot have one. -/
inductive Agrees {α β : Type} (R : α → Reader → β → Prop)
    (outcome : Except Fault (Except DecodeError α × Reader)) (y : Except DecodeError β) : Prop
  | error (e : DecodeError) (r : Reader) :
    outcome = .ok (.error e, r) → y = .error e → Agrees R outcome y
  | ok (a : α) (r : Reader) (b : β) :
    outcome = .ok (.ok a, r) → y = .ok b → R a r b → Agrees R outcome y

namespace Agrees

variable {α β γ δ : Type} {R : α → Reader → β → Prop} {S : γ → Reader → δ → Prop}
  {r : Reader} {x : InPlace α} {y : Except DecodeError β}

theorem pure {a : α} {b : β} (h : R a r b) :
    Agrees R ((Pure.pure a : InPlace α).runOn r) (Pure.pure b) :=
  .ok a r b rfl rfl h

theorem throw (e : DecodeError) :
    Agrees R ((MonadExcept.throw e : InPlace α).runOn r) (MonadExcept.throw e) :=
  .error e r rfl rfl

theorem bind {f : α → InPlace γ} {g : β → Except DecodeError δ} (h : Agrees R (x.runOn r) y)
    (hrest : ∀ a s b, R a s b → Agrees S ((f a).runOn s) (g b)) :
    Agrees S ((x >>= f).runOn r) (y >>= g) := by
  rcases h with ⟨e, s, hx, rfl⟩ | ⟨a, s, b, hx, rfl, hab⟩
  · exact .error e s (InPlace.runOn_bind_of_error hx f) rfl
  · rw [InPlace.runOn_bind_of_ok hx]
    exact hrest a s b hab

/-- What is refused is refused on both sides. -/
theorem guard {p q : Prop} [Decidable p] [Decidable q] (hpq : p ↔ q) {e e' : DecodeError}
    (he : e = e') (h : Agrees R (x.runOn r) y) :
    Agrees R ((if p then MonadExcept.throw e else x).runOn r)
      (if q then MonadExcept.throw e' else y) := by
  by_cases hq : q
  · rw [if_pos hq, if_pos (hpq.mpr hq), he]
    exact .throw e'
  · rw [if_neg hq, if_neg fun hp => hq (hpq.mp hp)]
    exact h

/-- How many bytes are ahead can be asked at any time. -/
theorem remaining {c : Cursor} {f : Nat → InPlace γ} {z : Except DecodeError δ} (h : r.At c)
    (hrest : Agrees S ((f c.remaining).runOn r) z) :
    Agrees S ((InPlace.remaining >>= f).runOn r) z := by
  rw [InPlace.runOn_bind_of_ok h.runOn_remaining]
  exact hrest

end Agrees

/-- Work in place does what a read by a cursor does, with results that match. -/
def Follows {α β : Type} (R : α → β → Prop) (x : InPlace α)
    (cursorRead : Cursor → Except DecodeError (β × Cursor)) : Prop :=
  ∀ r c, r.At c → Agrees (fun a s result => R a result.1 ∧ s.At result.2) (x.runOn r) (cursorRead c)

variable {α β : Type} {R : α → β → Prop}

/-- One field follows a cursor that makes of the same bytes what matches their value. -/
theorem Takes.follows {n : Nat} {value : List UInt8 → α} {x : InPlace α} (h : Takes n value x)
    {value' : List UInt8 → β}
    (hvalue : ∀ bytes, bytes.length = n → R (value bytes) (value' bytes)) :
    Follows R x fun c => do
      let (bytes, c) ← c.take n
      return (value' bytes, c) := by
  intro r c hat
  show Agrees _ _ (c.take n >>= _)
  rcases Nat.lt_or_ge c.remaining n with hlt | hle
  · rw [Cursor.take_of_lt hlt]
    exact .error _ r (h.of_lt r c hat hlt) rfl
  · rw [Cursor.take_of_le hle]
    exact .ok _ _ _ (h.of_le r c hat hle) rfl
      ⟨hvalue _ (Cursor.length_take_rest hle), hat.advance hle⟩

theorem take_follows (n : Nat) : Follows Eq (InPlace.take n) (Cursor.take n) := by
  intro r c h
  rw [← bind_pure (c.take n)]
  exact (take_takes n).follows (fun _ _ => rfl) r c h

theorem byte_follows : Follows (fun b w => w = b.toUInt64) InPlace.byte (Cursor.word 1) := by
  refine byte_takes.follows fun bytes hlength => ?_
  obtain ⟨b, rfl⟩ := List.length_eq_one_iff.mp hlength
  simp [LittleEndian.decode]

theorem word_follows (width : Nat) : Follows Eq (InPlace.word width) (Cursor.word width) :=
  (word_takes width).follows fun _ _ => rfl

theorem length_follows : Follows Eq InPlace.length Cursor.length := by
  intro r c h
  refine (word_follows 4 r c h).bind ?_
  rintro n r ⟨_, c⟩ ⟨rfl, h⟩
  exact .pure ⟨rfl, h⟩

/-- **Reads in a row** follow a cursor if each of them does. -/
theorem many_follows {x : InPlace α} {cursorRead : Cursor → Except DecodeError (α × Cursor)}
    (hread : Follows Eq x cursorRead) (n : Nat) :
    Follows Eq (InPlace.many x n) (Cursor.many cursorRead n) := by
  induction n with
  | zero =>
    intro r c h
    exact .pure ⟨rfl, h⟩
  | succ n ih =>
    intro r c h
    rw [Cursor.many_succ]
    refine (hread r c h).bind ?_
    rintro a r ⟨_, c⟩ ⟨rfl, h⟩
    refine (ih r c h).bind ?_
    rintro results r ⟨_, c⟩ ⟨rfl, h⟩
    exact .pure ⟨rfl, h⟩

end ChainedSet.Checked
