import Mathlib.Computability.Language
import ChainedSet.Proofs.LittleEndian
import ChainedSet.Wire.Item

/-!
# Forms

The form of a field is the language of the byte strings that stand for it: a single one for most
fields, none for a length that is too big. Fields in a row have the product of their forms.
`c.Spans form d` says that the bytes from the cursor `c` up to the cursor `d` are in a form.

Both directions of a format are measured against the same forms. What items are written as is a
word of the product of their forms (`Item.encodeAll_eq_ok_iff`), and a read succeeds, with a given
result and cursor, exactly if what it took is in the form of its result (`Cursor.take_eq_ok_iff` and
the others). So a reader built from these reads accepts what the writer writes and nothing else, as
soon as the two go through the same forms in the same order.
-/

namespace ChainedSet.Wire

/-- A chain of computations succeeds if each link does. -/
theorem bind_eq_ok_iff {ε α β : Type} {x : Except ε α} {f : α → Except ε β} {b : β} :
    x >>= f = .ok b ↔ ∃ a, x = .ok a ∧ f a = .ok b := by
  cases x <;> simp [bind, Except.bind]

theorem pure_eq_ok_iff {ε α : Type} {a b : α} : (pure a : Except ε α) = .ok b ↔ a = b := by
  simp [pure, Except.pure]

/-- A guard lets a computation through that it does not stop. -/
theorem guard_eq_ok_iff {ε α β : Type} {p : Prop} [Decidable p] {e : ε} {x : Except ε β} {b : β} :
    (if p then (throw e : Except ε α) >>= fun _ => x else x) = .ok b ↔ ¬p ∧ x = .ok b := by
  by_cases h : p <;> simp [h, throw, throwThe, MonadExceptOf.throw, bind, Except.bind]

/-! ## Forms of items -/

namespace Item

/-- The bytes that stand for an item. -/
def form (item : Item) : Language UInt8 := {bytes | item.encode = .ok bytes}

theorem mem_form {item : Item} {bytes : List UInt8} :
    bytes ∈ item.form ↔ item.encode = .ok bytes := Iff.rfl

theorem mem_form_bytes {bs bytes : List UInt8} : bytes ∈ (Item.bytes bs).form ↔ bs = bytes := by
  rw [mem_form, encode, Except.ok.injEq]

theorem form_u8 (n : UInt8) :
    (u8 n).form = (Item.bytes (LittleEndian.encode 1 n.toUInt64)).form := by
  rw [LittleEndian.encode, LittleEndian.encode, UInt8.toUInt8_toUInt64]
  rfl

theorem form_u64 (n : UInt64) : (u64 n).form = (Item.bytes (LittleEndian.encode 8 n)).form := rfl

theorem mem_form_u64 {w : UInt64} {bytes : List UInt8} :
    bytes ∈ (u64 w).form ↔ LittleEndian.encode 8 w = bytes := by
  rw [form_u64, mem_form_bytes]

theorem mem_form_length {field : LengthField} {n : Nat} {bytes : List UInt8} :
    bytes ∈ (Item.length field n).form ↔
      n < lengthBound ∧ LittleEndian.encode 4 (UInt64.ofNat n) = bytes := by
  rw [mem_form, encode]
  split
  · next hn => rw [and_iff_right hn, Except.ok.injEq]
  · next hn =>
    constructor
    · intro h
      cases h
    · rintro ⟨hlt, -⟩
      exact absurd hlt hn

theorem encodeAll_cons (item : Item) (items : List Item) :
    encodeAll (item :: items) = do
      let part ← item.encode
      let parts ← encodeAll items
      return part ++ parts := by
  simp only [encodeAll, List.mapM_cons, bind_assoc, pure_bind, List.flatten_cons]

/-- **What items are written as** is a word of the product of their forms, and each such word is. -/
theorem encodeAll_eq_ok_iff {items : List Item} {bytes : List UInt8} :
    encodeAll items = .ok bytes ↔ bytes ∈ (items.map form).prod := by
  induction items generalizing bytes with
  | nil => simp [encodeAll, pure, Except.pure, bind, Except.bind, eq_comm]
  | cons item items ih =>
    simp only [encodeAll_cons, bind_eq_ok_iff, pure_eq_ok_iff, ih, List.map_cons, List.prod_cons,
      Language.mem_mul, mem_form]

theorem prod_form_flatMap {α : Type} (items : α → List Item) (results : List α) :
    ((results.flatMap items).map form).prod =
      (results.map fun a => ((items a).map form).prod).prod := by
  induction results with
  | nil => rfl
  | cons a results ih =>
    rw [List.flatMap_cons, List.map_append, List.prod_append, ih, List.map_cons, List.prod_cons]

/-- Values in a row stand for one byte string, if each of them stands for one where it fits. -/
theorem mem_prod_iff {α : Type} {form : α → Language UInt8} {fits : α → Prop}
    {image : α → List UInt8} (hform : ∀ a bytes, bytes ∈ form a ↔ fits a ∧ image a = bytes)
    {results : List α} {bytes : List UInt8} :
    bytes ∈ (results.map form).prod ↔
      (∀ a ∈ results, fits a) ∧ results.flatMap image = bytes := by
  induction results generalizing bytes with
  | nil => simp [eq_comm]
  | cons a results ih =>
    rw [List.map_cons, List.prod_cons, Language.mem_mul, List.forall_mem_cons, List.flatMap_cons]
    constructor
    · rintro ⟨first, hfirst, rest, hrest, rfl⟩
      obtain ⟨hfits, rfl⟩ := (hform a first).mp hfirst
      obtain ⟨hall, rfl⟩ := ih.mp hrest
      exact ⟨⟨hfits, hall⟩, rfl⟩
    · rintro ⟨⟨hfits, hall⟩, rfl⟩
      exact ⟨_, (hform a _).mpr ⟨hfits, rfl⟩, _, ih.mpr ⟨hall, rfl⟩, rfl⟩

/-- What begins with a length takes four bytes at least. -/
theorem length_le_of_mem_form_length_mul {field : LengthField} {n : Nat} {g : Language UInt8}
    {bytes : List UInt8} (h : bytes ∈ (Item.length field n).form * g) : 4 ≤ bytes.length := by
  obtain ⟨xs, hxs, ys, -, rfl⟩ := Language.mem_mul.mp h
  obtain ⟨-, rfl⟩ := mem_form_length.mp hxs
  rw [List.length_append, LittleEndian.length_encode]
  exact Nat.le_add_right 4 _

/-- Values that take so many bytes each take that many times as many in a row. -/
theorem mul_length_le_of_mem_prod {α : Type} {form : α → Language UInt8} {n : Nat}
    (hform : ∀ a, ∀ bytes ∈ form a, n ≤ bytes.length) {results : List α} :
    ∀ bytes ∈ (results.map form).prod, results.length * n ≤ bytes.length := by
  induction results with
  | nil => simp
  | cons a results ih =>
    intro bytes hbytes
    rw [List.map_cons, List.prod_cons] at hbytes
    obtain ⟨xs, hxs, ys, hys, rfl⟩ := Language.mem_mul.mp hbytes
    have hfirst := hform a xs hxs
    have hrest := ih ys hys
    rw [List.length_cons, List.length_append, Nat.succ_mul]
    omega

end Item

/-! ## Bytes between two cursors -/

namespace Cursor

/-- Cursors into the same string with the same bytes ahead are in the same place. -/
theorem eq_of_rest_eq {c d : Cursor} (hrest : c.rest = d.rest) (htotal : c.total = d.total) :
    c = d := by
  obtain ⟨position, total, rest, hc⟩ := c
  obtain ⟨position', total', rest', hd⟩ := d
  obtain rfl : rest = rest' := hrest
  obtain rfl : total = total' := htotal
  obtain rfl : position = position' := by omega
  rfl

/-- The bytes from `c` up to `d` are in a form. -/
def Spans (c : Cursor) (form : Language UInt8) (d : Cursor) : Prop :=
  ∃ bytes ∈ form, c.rest = bytes ++ d.rest ∧ c.total = d.total

variable {c d : Cursor}

/-- Where there are bytes ahead there is a cursor right after them. -/
theorem exists_rest_eq {bytes rest : List UInt8} (hrest : c.rest = bytes ++ rest) :
    ∃ m : Cursor, m.rest = rest ∧ m.total = c.total := by
  have hle : bytes.length ≤ c.remaining := by simp [remaining_eq, hrest]
  exact ⟨c.advance bytes.length hle, by simp [advance, hrest], rfl⟩

theorem spans_one_iff : c.Spans 1 d ↔ c = d := by
  constructor
  · rintro ⟨bytes, hbytes, hrest, htotal⟩
    obtain rfl := (Language.mem_one bytes).mp hbytes
    exact eq_of_rest_eq hrest htotal
  · rintro rfl
    exact ⟨[], Language.nil_mem_one, rfl, rfl⟩

theorem spans_mul_iff {f g : Language UInt8} :
    c.Spans (f * g) d ↔ ∃ m, c.Spans f m ∧ m.Spans g d := by
  constructor
  · rintro ⟨_, hbytes, hrest, htotal⟩
    obtain ⟨xs, hxs, ys, hys, rfl⟩ := Language.mem_mul.mp hbytes
    obtain ⟨m, hmrest, hmtotal⟩ := exists_rest_eq (hrest.trans (List.append_assoc xs ys _))
    exact ⟨m, ⟨xs, hxs, by rw [hrest, hmrest, List.append_assoc], hmtotal.symm⟩,
      ys, hys, hmrest, hmtotal.trans htotal⟩
  · rintro ⟨m, ⟨xs, hxs, hxrest, hxtotal⟩, ys, hys, hyrest, hytotal⟩
    refine ⟨xs ++ ys, Language.append_mem_mul hxs hys, ?_, hxtotal.trans hytotal⟩
    rw [hxrest, hyrest, List.append_assoc]

theorem Spans.le_remaining {n : Nat} {form : Language UInt8} (h : c.Spans form d)
    (hform : ∀ bytes ∈ form, n ≤ bytes.length) : n ≤ c.remaining := by
  obtain ⟨bytes, hbytes, hrest, -⟩ := h
  have := hform bytes hbytes
  rw [remaining_eq, hrest, List.length_append]
  omega

/-- **A whole string is in a form** if the bytes from its start up to its end are. -/
theorem mem_iff_spans_ofBytes {form : Language UInt8} {bytes : List UInt8} :
    bytes ∈ form ↔ ∃ d, (ofBytes bytes).Spans form d ∧ d.remaining = 0 := by
  constructor
  · intro hbytes
    obtain ⟨d, hrest, htotal⟩ := exists_rest_eq (c := ofBytes bytes) (List.append_nil bytes).symm
    refine ⟨d, ⟨bytes, hbytes, ?_, htotal.symm⟩, ?_⟩
    · rw [hrest, List.append_nil]
      rfl
    · rw [remaining_eq, hrest, List.length_nil]
  · rintro ⟨d, ⟨xs, hxs, hrest, -⟩, hend⟩
    have hnil : d.rest = [] := List.eq_nil_of_length_eq_zero ((remaining_eq d).symm.trans hend)
    have heq : bytes = xs := by rwa [hnil, List.append_nil] at hrest
    rwa [heq]

/-! ## Reads -/

/-- **A read of bytes** takes as many as it is told to. -/
theorem take_eq_ok_iff {n : Nat} {bytes : List UInt8} :
    c.take n = .ok (bytes, d) ↔ bytes.length = n ∧ c.Spans (Item.bytes bytes).form d := by
  constructor
  · intro h
    rcases Nat.lt_or_ge c.remaining n with hlt | hle
    · rw [take_of_lt hlt] at h
      cases h
    · rw [take_of_le hle] at h
      cases h
      have hlen : n ≤ c.rest.length := remaining_eq c ▸ hle
      exact ⟨List.length_take_of_le hlen, _, Item.mem_form_bytes.mpr rfl,
        (List.take_append_drop n c.rest).symm, rfl⟩
  · rintro ⟨rfl, xs, hxs, hrest, htotal⟩
    obtain rfl := Item.mem_form_bytes.mp hxs
    have hle : bytes.length ≤ c.remaining := by simp [remaining_eq, hrest]
    have hend : c.advance bytes.length hle = d :=
      eq_of_rest_eq (by simp [advance, hrest]) htotal
    rw [take_of_le hle, hend, hrest, List.take_left']
    rfl

/-- **A read of a number** finds one that fits the width. -/
theorem word_eq_ok_iff {width : Nat} {w : UInt64} (hwidth : width ≤ 8) :
    c.word width = .ok (w, d) ↔
      w.toNat < 256 ^ width ∧ c.Spans (Item.bytes (LittleEndian.encode width w)).form d := by
  simp only [word, bind_eq_ok_iff, pure_eq_ok_iff, Prod.exists, Prod.mk.injEq, take_eq_ok_iff]
  constructor
  · rintro ⟨bytes, _, ⟨rfl, hspans⟩, rfl, rfl⟩
    -- A field of fixed width has one form only, so the bytes are those that `w` is written as.
    refine ⟨LittleEndian.toNat_decode_lt hwidth, ?_⟩
    rwa [LittleEndian.encode_decode hwidth]
  · rintro ⟨hw, hspans⟩
    exact ⟨_, _, ⟨LittleEndian.length_encode width w, hspans⟩,
      LittleEndian.decode_encode hwidth hw, rfl⟩

theorem word_eight_eq_ok_iff {w : UInt64} :
    c.word 8 = .ok (w, d) ↔ c.Spans (Item.u64 w).form d := by
  rw [word_eq_ok_iff (Nat.le_refl 8), Item.form_u64]
  exact and_iff_right w.toNat_lt

theorem word_one_eq_ok_iff {n : UInt8} :
    c.word 1 = .ok (n.toUInt64, d) ↔ c.Spans (Item.u8 n).form d := by
  rw [word_eq_ok_iff (by decide), Item.form_u8]
  exact and_iff_right (by simpa using n.toNat_lt)

/-- **A read of a length** finds one that four bytes can hold, whatever it is the length of. -/
theorem length_eq_ok_iff (field : LengthField) {n : Nat} :
    c.length = .ok (n, d) ↔ c.Spans (Item.length field n).form d := by
  simp only [length, bind_eq_ok_iff, pure_eq_ok_iff, Prod.exists, Prod.mk.injEq,
    word_eq_ok_iff (show 4 ≤ 8 by decide)]
  constructor
  · rintro ⟨w, _, ⟨hw, bytes, hbytes, hrest, htotal⟩, rfl, rfl⟩
    refine ⟨bytes, Item.mem_form_length.mpr ⟨hw, ?_⟩, hrest, htotal⟩
    rw [UInt64.ofNat_toNat]
    exact Item.mem_form_bytes.mp hbytes
  · rintro ⟨bytes, hbytes, hrest, htotal⟩
    obtain ⟨hn, henc⟩ := Item.mem_form_length.mp hbytes
    have hword : (UInt64.ofNat n).toNat = n :=
      UInt64.toNat_ofNat_of_lt' (Nat.lt_of_lt_of_le hn (by decide))
    exact ⟨_, _, ⟨by rwa [hword], bytes, Item.mem_form_bytes.mpr henc, hrest, htotal⟩, hword, rfl⟩

/-- A reader of values that are written in the given forms. -/
def Reads {α : Type} (read : Cursor → Except DecodeError (α × Cursor))
    (form : α → Language UInt8) : Prop :=
  ∀ {c d : Cursor} {a : α}, read c = .ok (a, d) ↔ c.Spans (form a) d

/-- **Reads in a row** find values whose forms are in a row. -/
theorem Reads.many_eq_ok_iff {α : Type} {read : Cursor → Except DecodeError (α × Cursor)}
    {form : α → Language UInt8} (h : Reads read form) {n : Nat} {results : List α} :
    c.many read n = .ok (results, d) ↔
      results.length = n ∧ c.Spans (results.map form).prod d := by
  have hread {c d : Cursor} {a : α} : read c = .ok (a, d) ↔ c.Spans (form a) d := h
  induction n generalizing c d results with
  | zero =>
    rw [many_zero, Except.ok.injEq, Prod.mk.injEq, List.length_eq_zero_iff, eq_comm (a := [])]
    apply and_congr_right
    rintro rfl
    exact spans_one_iff.symm
  | succ n ih =>
    simp only [many_succ, bind_eq_ok_iff, pure_eq_ok_iff, Prod.exists, Prod.mk.injEq, hread, ih]
    constructor
    · rintro ⟨a, m, hfirst, results, _, ⟨rfl, hspans⟩, rfl, rfl⟩
      exact ⟨rfl, spans_mul_iff.mpr ⟨m, hfirst, hspans⟩⟩
    · rintro ⟨hlen, hspans⟩
      cases results with
      | nil => cases hlen
      | cons a results =>
        obtain ⟨m, hfirst, hrest⟩ := spans_mul_iff.mp hspans
        exact ⟨a, m, hfirst, results, d, ⟨Nat.succ.inj hlen, hrest⟩, rfl, rfl⟩

end Cursor

end ChainedSet.Wire
