import ChainedSet.Proofs.Wire.Form

/-!
# Scripts of reads

What a whole list of reads does to a byte string, failures included. `Read.Exact` is the account of
one read: it fails if and only if it asks for more bytes than are ahead, it then says where it would
have ended and leaves the cursor alone; otherwise it hands out what the next bytes stand for, and
these are behind the cursor afterwards. What bytes stand for is said without a decoder
(`Read.Yields`).

From one read to a list of reads there are three steps. Wherever the reads have led, the cursor
still stands in the same byte string (`Cursor.StandsIn.after`), so each of them is exact. The reads
that succeed take consecutive slices (`Read.exists_slices`). And they take the same slices without
the others (`Read.runAll_kept`).
-/

namespace ChainedSet.Wire

/-! ## Cursors in a byte string -/

/-- The cursor is somewhere in `data`: the bytes ahead are those after its position. -/
structure Cursor.StandsIn (c : Cursor) (data : List UInt8) : Prop where
  length_eq : c.total = data.length
  rest_eq : c.rest = data.drop c.position

namespace Cursor.StandsIn

variable {c : Cursor} {data : List UInt8}

theorem ofBytes (data : List UInt8) : (Cursor.ofBytes data).StandsIn data := ⟨rfl, rfl⟩

theorem position_le (h : c.StandsIn data) : c.position ≤ data.length := by
  have := c.total_eq
  have := h.length_eq
  omega

theorem remaining_eq (h : c.StandsIn data) : c.remaining = data.length - c.position := by
  rw [remaining, h.length_eq]

theorem advance (h : c.StandsIn data) {n : Nat} (hn : n ≤ c.remaining) :
    (c.advance n hn).StandsIn data where
  length_eq := h.length_eq
  rest_eq := by
    show c.rest.drop n = data.drop (c.position + n)
    rw [h.rest_eq, List.drop_drop]

end Cursor.StandsIn

namespace Read

/-! ## One read -/

/-- What a read hands out for the bytes that it takes: the bytes, or the number whose digits to base
256 they are, the least significant first. -/
inductive Yields : Read → List UInt8 → Field → Prop
  | bytes (bs : List UInt8) : Yields (.bytes bs.length) bs (.bytes bs)
  | number {r : Read} {bs : List UInt8} {w : UInt64} (hr : ∀ n, r ≠ .bytes n)
      (hlength : bs.length = r.width) (hw : w.toNat = Nat.ofDigits 256 (bs.map UInt8.toNat)) :
      Yields r bs (.number w)

/-- The account of one read in `data`: what it hands out, and where the cursor is then. -/
structure Exact (data : List UInt8) (r : Read) (c : Cursor)
    (outcome : Except DecodeError Field × Cursor) : Prop where
  fails_iff : (∃ e, outcome.1 = .error e) ↔ c.remaining < r.width
  of_error : ∀ e, outcome.1 = .error e →
    e = .bufferTooShort (min (c.position + r.width) 0xffffffffffffffff) data.length ∧
      outcome.2 = c
  of_ok : ∀ field, outcome.1 = .ok field →
    r.Yields ((data.drop c.position).take r.width) field ∧
      outcome.2.position = c.position + r.width

variable {r : Read} {c : Cursor} {data : List UInt8}

theorem run_of_le (h : r.width ≤ c.remaining) :
    r.run c = (.ok (r.interpret (c.rest.take r.width)), c.advance r.width h) := by
  rw [run, Cursor.take_of_le h]

theorem run_of_lt (h : c.remaining < r.width) :
    r.run c =
      (.error (.bufferTooShort (min (c.position + r.width) 0xffffffffffffffff) c.total), c) := by
  rw [run, Cursor.take_of_lt h]

theorem width_le_of_not_bytes (hr : ∀ n, r ≠ .bytes n) : r.width ≤ 8 := by
  cases r with
  | bytes n => exact absurd rfl (hr n)
  | _ => decide

theorem interpret_of_not_bytes (hr : ∀ n, r ≠ .bytes n) (bs : List UInt8) :
    r.interpret bs = .number (LittleEndian.decode bs) := by
  cases r with
  | bytes n => exact absurd rfl (hr n)
  | _ => rfl

theorem yields_interpret {bs : List UInt8} (h : bs.length = r.width) :
    r.Yields bs (r.interpret bs) := by
  by_cases hr : ∀ n, r ≠ .bytes n
  · rw [interpret_of_not_bytes hr]
    exact .number hr h (LittleEndian.toNat_decode (h ▸ width_le_of_not_bytes hr))
  · push Not at hr
    obtain ⟨n, rfl⟩ := hr
    obtain rfl : bs.length = n := h
    exact .bytes bs

/-- **A read is exact**, wherever in the byte string. -/
theorem exact_run (h : c.StandsIn data) : Exact data r c (r.run c) := by
  rcases Nat.lt_or_ge c.remaining r.width with hlt | hle
  · rw [run_of_lt hlt, h.length_eq]
    refine ⟨⟨fun _ => hlt, fun _ => ⟨_, rfl⟩⟩, ?_, ?_⟩
    · rintro e ⟨⟩
      exact ⟨rfl, rfl⟩
    · rintro field ⟨⟩
  · rw [run_of_le hle]
    refine ⟨⟨?_, fun hlt => absurd hle (Nat.not_le.mpr hlt)⟩, ?_, ?_⟩
    · rintro ⟨e, ⟨⟩⟩
    · rintro e ⟨⟩
    · rintro field ⟨⟩
      rw [← h.rest_eq]
      exact ⟨yields_interpret (Cursor.length_take_rest hle), rfl⟩

/-! ## Lists of reads -/

/-- The cursor after a list of reads. -/
def after (reads : List Read) (c : Cursor) : Cursor := reads.foldl (fun c r => (r.run c).2) c

/-- The reads that succeed, each with its outcome. -/
def kept (reads : List Read) (c : Cursor) : List (Read × Except DecodeError Field × Cursor) :=
  (reads.zip (runAll reads c)).filter fun entry => entry.2.1.isOk

@[simp] theorem after_nil (c : Cursor) : after [] c = c := rfl

@[simp] theorem after_cons (r : Read) (reads : List Read) (c : Cursor) :
    after (r :: reads) c = after reads (r.run c).2 := rfl

theorem getElem?_runAll {reads : List Read} {i : Nat} (h : reads[i]? = some r) :
    (runAll reads c)[i]? = some (r.run (after (reads.take i) c)) := by
  induction reads generalizing i c with
  | nil => simp at h
  | cons s reads ih =>
    cases i with
    | zero =>
      obtain rfl : s = r := by simpa using h
      rfl
    | succ i => exact ih h

theorem kept_cons_of_le {reads : List Read} (h : r.width ≤ c.remaining) :
    kept (r :: reads) c = (r, r.run c) :: kept reads (c.advance r.width h) := by
  have hok : (r.run c).1.isOk = true := by rw [run_of_le h]; rfl
  rw [kept, runAll, List.zip_cons_cons, List.filter_cons, if_pos hok, run_of_le h]
  rfl

theorem kept_cons_of_lt {reads : List Read} (h : c.remaining < r.width) :
    kept (r :: reads) c = kept reads c := by
  have herror : ¬(r.run c).1.isOk = true := by rw [run_of_lt h]; nofun
  rw [kept, runAll, List.zip_cons_cons, List.filter_cons, if_neg herror, run_of_lt h]
  rfl

end Read

/-- **Reads stay in the byte string.** -/
theorem Cursor.StandsIn.run {c : Cursor} {data : List UInt8} (h : c.StandsIn data) (r : Read) :
    (r.run c).2.StandsIn data := by
  rcases Nat.lt_or_ge c.remaining r.width with hlt | hle
  · rwa [Read.run_of_lt hlt]
  · rw [Read.run_of_le hle]
    exact h.advance hle

theorem Cursor.StandsIn.after {c : Cursor} {data : List UInt8} (h : c.StandsIn data)
    (reads : List Read) : (Read.after reads c).StandsIn data := by
  induction reads generalizing c with
  | nil => exact h
  | cons r reads ih => exact ih (h.run r)

namespace Read

/-- **The reads that succeed take consecutive slices**, up to where the cursor is in the end. -/
theorem exists_slices (reads : List Read) (c : Cursor) :
    ∃ slices : List (List UInt8),
      List.Forall₂ (fun entry slice => ∃ field, entry.2.1 = .ok field ∧ entry.1.Yields slice field)
        (kept reads c) slices ∧
      slices.flatten ++ (after reads c).rest = c.rest := by
  induction reads generalizing c with
  | nil => exact ⟨[], .nil, rfl⟩
  | cons r reads ih =>
    rcases Nat.lt_or_ge c.remaining r.width with hlt | hle
    · rw [kept_cons_of_lt hlt, after_cons, run_of_lt hlt]
      exact ih c
    · obtain ⟨slices, hslices, hflatten⟩ := ih (c.advance r.width hle)
      have hyields := yields_interpret (Cursor.length_take_rest hle)
      rw [kept_cons_of_le hle, after_cons, run_of_le hle]
      refine ⟨c.rest.take r.width :: slices, .cons ⟨_, rfl, hyields⟩ hslices, ?_⟩
      rw [List.flatten_cons, List.append_assoc, hflatten]
      exact List.take_append_drop _ _

/-- **Failing reads can be left out.** -/
theorem runAll_kept (reads : List Read) (c : Cursor) :
    runAll ((kept reads c).map Prod.fst) c = (kept reads c).map Prod.snd := by
  induction reads generalizing c with
  | nil => rfl
  | cons r reads ih =>
    rcases Nat.lt_or_ge c.remaining r.width with hlt | hle
    · rw [kept_cons_of_lt hlt]
      exact ih c
    · rw [kept_cons_of_le hle, List.map_cons, List.map_cons, runAll, run_of_le hle]
      exact congrArg _ (ih _)

end Read

end ChainedSet.Wire
