import ChainedSet.Proofs.Wire.Form

/-!
# Reading input that goes on

The same read from an input and from a longer one, that is, with more bytes after it. A read that
succeeds does so again, with the same result. A read that is short asks for bytes up to a certain
one; it stays short, for the same reason, until the input has that byte. Input that is foreign from
the start stays foreign. Only what a guard on the bytes that are left refuses may be read after all.

`Persists` says this of two outcomes and `Steady` of a read, whatever the cursor and the further
bytes. Both go from parts to the whole: through a chain of reads (`Steady.bind`), through reads in a
row (`Steady.many`), and through a guard that more bytes can only satisfy (`Persists.guard`).
-/

namespace ChainedSet

/-- The input is of another format, or of another version of the format. -/
inductive DecodeError.IsForeign : DecodeError → Prop
  | invalidHeader : IsForeign .invalidHeader
  | unsupportedVersion (version : Nat) : IsForeign (.unsupportedVersion version)

namespace Wire

/-! ## Cursors -/

namespace Cursor

variable {c : Cursor} {more : List UInt8}

/-- The cursor at the same position of an input that goes on. -/
def prolong (c : Cursor) (more : List UInt8) : Cursor where
  position := c.position
  total := c.total + more.length
  rest := c.rest ++ more
  total_eq := by rw [List.length_append, ← Nat.add_assoc, c.total_eq]

@[simp] theorem remaining_prolong (c : Cursor) (more : List UInt8) :
    (c.prolong more).remaining = c.remaining + more.length := by
  rw [remaining_eq, remaining_eq, prolong, List.length_append]

theorem prolong_ofBytes (bytes more : List UInt8) :
    (ofBytes bytes).prolong more = ofBytes (bytes ++ more) :=
  eq_of_rest_eq rfl List.length_append.symm

theorem position_add_remaining (c : Cursor) : c.position + c.remaining = c.total := by
  rw [remaining_eq, c.total_eq]

/-- Bytes that are there are the same bytes when more follow. -/
theorem take_prolong {n : Nat} (h : n ≤ c.remaining) :
    (c.prolong more).take n = .ok (c.rest.take n, (c.advance n h).prolong more) := by
  have hle : n ≤ (c.prolong more).remaining := by
    rw [remaining_prolong]
    omega
  rw [remaining_eq] at h
  have hbytes : (c.rest ++ more).take n = c.rest.take n := List.take_append_of_le_length h
  have hrest : (c.rest ++ more).drop n = c.rest.drop n ++ more := List.drop_append_of_le_length h
  rw [take_of_le hle, Except.ok.injEq, Prod.mk.injEq]
  exact ⟨hbytes, eq_of_rest_eq hrest rfl⟩

end Cursor

/-! ## Outcomes -/

/-- What the outcome on an input of `total` bytes says of the outcome on one that has `more` bytes
after these. A success says what `P` says. A corruption says nothing, and is one of those in `F`. -/
inductive Persists {α β : Type} (P : α → Except DecodeError β → Prop) (F : Corruption → Prop)
    (total more : Nat) : Except DecodeError α → Except DecodeError β → Prop
  | ok {a : α} {y : Except DecodeError β} : P a y → Persists P F total more (.ok a) y
  | short {stop : Nat} {y : Except DecodeError β} :
      total < stop →
      (total + more < stop →
        y = .error (.bufferTooShort (min stop 0xffffffffffffffff) (total + more))) →
      Persists P F total more (.error (.bufferTooShort (min stop 0xffffffffffffffff) total)) y
  | foreign {e : DecodeError} : e.IsForeign → Persists P F total more (.error e) (.error e)
  | corrupted {fault : Corruption} {y : Except DecodeError β} :
      F fault → Persists P F total more (.error (.corrupted fault)) y

namespace Persists

variable {α β γ δ : Type} {P : α → Except DecodeError β → Prop}
  {Q : γ → Except DecodeError δ → Prop} {F G : Corruption → Prop} {total more : Nat}

theorem mono {x : Except DecodeError α} {y : Except DecodeError β} (h : Persists P F total more x y)
    (hF : ∀ fault, F fault → G fault) : Persists P G total more x y := by
  cases h with
  | ok hP => exact .ok hP
  | short hlt hy => exact .short hlt hy
  | foreign he => exact .foreign he
  | corrupted hfault => exact .corrupted (hF _ hfault)

theorem of_ok {a : α} {y : Except DecodeError β} (h : Persists P F total more (.ok a) y) :
    P a y := by
  cases h with
  | ok hP => exact hP

/-- The byte that a short read asks for is not there, and as long as it is not, the longer input is
short of it too. -/
theorem of_short {e found : Nat} {y : Except DecodeError β}
    (h : Persists P F total more (.error (.bufferTooShort e found)) y) :
    ∃ stop, e = min stop 0xffffffffffffffff ∧ found = total ∧ total < stop ∧
      (total + more < stop → y = .error (.bufferTooShort e (total + more))) := by
  cases h with
  | short hlt hy => exact ⟨_, rfl, rfl, hlt, hy⟩
  | foreign he => cases he

theorem of_foreign {e : DecodeError} {y : Except DecodeError β}
    (h : Persists P F total more (.error e) y) (he : e.IsForeign) : y = .error e := by
  cases h with
  | short _ _ => cases he
  | foreign _ => rfl
  | corrupted _ => cases he

/-- What fails at once fails as a whole, so only what follows a success has to be looked at. -/
theorem bind {x : Except DecodeError α} {y : Except DecodeError β} {f : α → Except DecodeError γ}
    {g : β → Except DecodeError δ} (h : Persists P F total more x y)
    (hrest : ∀ a y, P a y → Persists Q F total more (f a) (y >>= g)) :
    Persists Q F total more (x >>= f) (y >>= g) := by
  cases h with
  | ok hP => exact hrest _ _ hP
  | short hlt hy =>
    refine .short hlt fun hmore => ?_
    rw [hy hmore]
    rfl
  | foreign he => exact .foreign he
  | corrupted hfault => exact .corrupted hfault

/-- A guard that stops a read on the longer input would have stopped it on the shorter one. -/
theorem guard {p q : Prop} [Decidable p] [Decidable q] (hpq : q → p) {fault fault' : Corruption}
    (hfault : F fault) {x : Except DecodeError α} {y : Except DecodeError β}
    (h : Persists P F total more x y) :
    Persists P F total more (if p then throw (.corrupted fault) else x)
      (if q then throw (.corrupted fault') else y) := by
  by_cases hp : p
  · rw [if_pos hp]
    exact .corrupted hfault
  · rw [if_neg hp, if_neg fun hq => hp (hpq hq)]
    exact h

/-- What is foreign is foreign whatever comes after it. -/
theorem guardForeign {p : Prop} [Decidable p] {e : DecodeError} (he : e.IsForeign)
    {x : Except DecodeError α} {y : Except DecodeError β} (h : Persists P F total more x y) :
    Persists P F total more (if p then throw e else x) (if p then throw e else y) := by
  by_cases hp : p
  · rw [if_pos hp, if_pos hp]
    exact .foreign he
  · rw [if_neg hp, if_neg hp]
    exact h

end Persists

/-! ## Reads -/

/-- A read that more bytes after the input do not change, apart from what they allow. -/
def Steady {α : Type} (F : Corruption → Prop) (read : Cursor → Except DecodeError (α × Cursor)) :
    Prop :=
  ∀ c more, Persists (fun r y => r.2.total = c.total ∧ y = .ok (r.1, r.2.prolong more)) F
    c.total more.length (read c) (read (c.prolong more))

namespace Steady

variable {α β γ : Type} {F G : Corruption → Prop} {read : Cursor → Except DecodeError (α × Cursor)}

theorem mono (h : Steady F read) (hF : ∀ fault, F fault → G fault) : Steady G read :=
  fun c more => (h c more).mono hF

/-- After a read that succeeds, both inputs are read on from the same position. -/
theorem bind (h : Steady F read) {c : Cursor} {more : List UInt8}
    {Q : β → Except DecodeError γ → Prop} {f : α × Cursor → Except DecodeError β}
    {g : α × Cursor → Except DecodeError γ}
    (hrest : ∀ a d, d.total = c.total →
      Persists Q F c.total more.length (f (a, d)) (g (a, d.prolong more))) :
    Persists Q F c.total more.length (read c >>= f) (read (c.prolong more) >>= g) := by
  refine (h c more).bind ?_
  rintro ⟨a, d⟩ _ ⟨htotal, rfl⟩
  exact hrest a d htotal

/-- **A read of bytes** is short as long as the input ends before the last of them. -/
theorem take (n : Nat) : Steady F (Cursor.take n) := by
  intro c more
  have hend := c.position_add_remaining
  rcases Nat.lt_or_ge c.remaining n with hlt | hle
  · rw [Cursor.take_of_lt hlt]
    refine .short (by omega) fun hmore => ?_
    have hlt' : (c.prolong more).remaining < n := by
      rw [Cursor.remaining_prolong]
      omega
    exact Cursor.take_of_lt hlt'
  · rw [Cursor.take_of_le hle, Cursor.take_prolong hle]
    exact .ok ⟨rfl, rfl⟩

theorem word (width : Nat) : Steady F (Cursor.word width) := by
  intro c more
  exact (take width).bind fun bytes d hd => .ok ⟨hd, rfl⟩

theorem length : Steady F Cursor.length := by
  intro c more
  exact (word 4).bind fun n d hd => .ok ⟨hd, rfl⟩

/-- **Reads in a row** are steady if each of them is. -/
theorem many (h : Steady F read) (n : Nat) : Steady F (Cursor.many read n) := by
  induction n with
  | zero =>
    intro c more
    exact .ok ⟨rfl, rfl⟩
  | succ n ih =>
    intro c more
    rw [Cursor.many_succ, Cursor.many_succ]
    refine h.bind fun a d hd => ?_
    rw [← hd]
    exact ih.bind fun results e he => .ok ⟨he, rfl⟩

end Steady

end Wire

end ChainedSet
