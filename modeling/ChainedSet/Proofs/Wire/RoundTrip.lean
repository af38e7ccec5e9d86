import ChainedSet.Proofs.Wire.Script

/-!
# Writing and reading back

Writer and reader meet at `Read.Yields`, which says what bytes stand for without the help of either.
Every item that is written leaves bytes that stand for its value (`Item.yields_of_encode`), and a
read that comes upon bytes which stand for a value hands out this value (`Read.run_of_yields`). A
length that is too big leaves nothing behind, so what is written is the fields of the others, one
after the other (`Item.exists_fields`).

The main statement is `Item.putAll_readsBack`: the reads that match the items that were written hand
out what was written, and stop right behind it, whatever bytes come before and after.
-/

namespace ChainedSet.Wire

/-! ## Reading what stands for a value -/

namespace Read

variable {r : Read} {c : Cursor} {bs : List UInt8} {field : Field}

theorem Yields.length_eq (h : r.Yields bs field) : bs.length = r.width := by
  cases h with
  | bytes _ => rfl
  | number _ hlength _ => exact hlength

/-- Bytes stand for one value only. -/
theorem Yields.interpret_eq (h : r.Yields bs field) : r.interpret bs = field := by
  cases h with
  | bytes _ => rfl
  | number hr hlength hw =>
    have hdecode := LittleEndian.toNat_decode (hlength ▸ width_le_of_not_bytes hr)
    rw [interpret_of_not_bytes hr, UInt64.toNat_inj.mp (hdecode.trans hw.symm)]

/-- **A read that comes upon bytes for a value** hands out the value and takes these bytes. -/
theorem run_of_yields {rest : List UInt8} (h : r.Yields bs field) (hrest : c.rest = bs ++ rest) :
    ∃ d, r.run c = (.ok field, d) ∧ d.rest = rest := by
  have hle : r.width ≤ c.remaining := by
    rw [Cursor.remaining_eq, hrest, List.length_append, h.length_eq]
    exact Nat.le_add_right _ _
  refine ⟨c.advance r.width hle, ?_, ?_⟩
  · rw [run_of_le hle, hrest, List.take_left' h.length_eq, h.interpret_eq]
  · show c.rest.drop r.width = rest
    rw [hrest, List.drop_left' h.length_eq]

end Read

/-! ## Writing -/

namespace Item

/-- The items that are written. -/
def kept (items : List Item) : List Item :=
  ((items.zip (putAll items).1).filter fun entry => entry.2.isOk).map Prod.fst

/-- What is written for an item stands for its value. -/
theorem yields_of_encode {item : Item} {bytes : List UInt8} (h : item.encode = .ok bytes) :
    item.read.Yields bytes item.field := by
  cases item with
  | bytes bs =>
    obtain rfl : bs = bytes := mem_form_bytes.mp h
    exact .bytes bs
  | u8 n =>
    obtain rfl : [n] = bytes := Except.ok.inj h
    exact .number nofun rfl (by simp)
  | u64 n =>
    obtain rfl := mem_form_u64.mp h
    have hlength : (LittleEndian.encode 8 n).length = 8 := LittleEndian.length_encode 8 n
    refine .number nofun hlength ?_
    rw [← LittleEndian.toNat_decode hlength.le, LittleEndian.decode_encode le_rfl n.toNat_lt]
  | length field n =>
    obtain ⟨hn, rfl⟩ := mem_form_length.mp h
    have hlength : (LittleEndian.encode 4 (UInt64.ofNat n)).length = 4 :=
      LittleEndian.length_encode 4 _
    have hword : (UInt64.ofNat n).toNat < 256 ^ 4 := by
      rw [UInt64.toNat_ofNat_of_lt' (Nat.lt_of_lt_of_le hn (by decide))]
      exact hn
    refine .number nofun hlength ?_
    rw [← LittleEndian.toNat_decode (by omega), LittleEndian.decode_encode (by decide) hword]

/-- An item is written, or it is a length that is too big. -/
theorem put_cases (item : Item) :
    (∃ bytes, item.put = (.ok (), bytes) ∧ item.read.Yields bytes item.field) ∨
      ∃ field n, item = .length field n ∧ lengthBound ≤ n ∧
        item.put = (.error (.lengthOverflow field n), []) := by
  rw [put]
  cases h : item.encode with
  | ok bytes => exact .inl ⟨bytes, rfl, yields_of_encode h⟩
  | error e =>
    right
    cases item with
    | length field n =>
      rw [encode] at h
      split at h
      · cases h
      · next hn =>
        cases h
        exact ⟨field, n, rfl, Nat.le_of_not_lt hn, rfl⟩
    | _ => cases h

/-- **A call fails if and only if** it is for a length that four bytes cannot hold. -/
theorem put_eq_error_iff {item : Item} {e : EncodeError} :
    item.put.1 = .error e ↔
      ∃ field n, item = .length field n ∧ 0xffffffff < n ∧ e = .lengthOverflow field n := by
  constructor
  · intro h
    rcases item.put_cases with ⟨bytes, hput, -⟩ | ⟨field, n, hitem, hn, hput⟩
    · rw [hput] at h
      cases h
    · rw [hput] at h
      cases h
      exact ⟨field, n, hitem, hn, rfl⟩
  · rintro ⟨field, n, rfl, hn, rfl⟩
    have hbig : ¬n < lengthBound := Nat.not_lt.mpr hn
    rw [put, encode, if_neg hbig]

theorem putAll_cons (item : Item) (items : List Item) :
    putAll (item :: items) =
      (item.put.1 :: (putAll items).1, item.put.2 ++ (putAll items).2) := rfl

theorem kept_cons_of_ok {item : Item} (items : List Item) (h : item.put.1 = .ok ()) :
    kept (item :: items) = item :: kept items := by
  rw [kept, putAll_cons, List.zip_cons_cons, List.filter_cons_of_pos (by rw [h]; rfl)]
  rfl

theorem kept_cons_of_error {item : Item} (items : List Item) {e : EncodeError}
    (h : item.put.1 = .error e) : kept (item :: items) = kept items := by
  rw [kept, putAll_cons, List.zip_cons_cons, List.filter_cons_of_neg (by rw [h]; nofun)]
  rfl

/-- **What is written is the fields of the items that are**, one after the other. -/
theorem exists_fields (items : List Item) :
    ∃ fields, List.Forall₂ (fun item bytes => item.read.Yields bytes item.field) (kept items)
        fields ∧
      (putAll items).2 = fields.flatten := by
  induction items with
  | nil => exact ⟨[], .nil, rfl⟩
  | cons item items ih =>
    obtain ⟨fields, hfields, hwritten⟩ := ih
    rw [putAll_cons]
    rcases item.put_cases with ⟨bytes, hput, hyields⟩ | ⟨field, n, -, -, hput⟩
    · rw [kept_cons_of_ok items (by rw [hput]), hput, hwritten]
      exact ⟨bytes :: fields, .cons hyields hfields, List.flatten_cons.symm⟩
    · rw [kept_cons_of_error items (by rw [hput]), hput, hwritten]
      exact ⟨fields, hfields, List.nil_append _⟩

/-! ## Reading back -/

/-- From the cursor `c` on, the reads that match the items hand out their values, and then so many
bytes are ahead. -/
def ReadsBack (items : List Item) (c : Cursor) (remaining : Nat) : Prop :=
  (Read.runAll (items.map read) c).map Prod.fst = items.map (fun item => .ok item.field) ∧
    (Read.after (items.map read) c).remaining = remaining

/-- **Fields are read back** where the bytes ahead begin with them. -/
theorem readsBack_of_yields {items : List Item} {fields : List (List UInt8)}
    (h : List.Forall₂ (fun item bytes => item.read.Yields bytes item.field) items fields)
    {c : Cursor} {following : List UInt8} (hrest : c.rest = fields.flatten ++ following) :
    ReadsBack items c following.length := by
  induction h generalizing c with
  | nil =>
    refine ⟨rfl, ?_⟩
    show c.remaining = following.length
    rw [Cursor.remaining_eq, hrest]
    rfl
  | @cons item bytes items fields hyields _ ih =>
    rw [List.flatten_cons, List.append_assoc] at hrest
    obtain ⟨d, hrun, hd⟩ := Read.run_of_yields hyields hrest
    obtain ⟨hvalues, hremaining⟩ := ih hd
    refine ⟨?_, ?_⟩
    · rw [List.map_cons, Read.runAll, hrun, List.map_cons, List.map_cons, hvalues]
    · rw [List.map_cons, Read.after_cons, hrun, hremaining]

/-- **Reading undoes writing.** A call fails if and only if it is for a length that four bytes
cannot hold. What the others wrote, and nothing else, is in the buffer. The matching reads hand out
what was written: from the buffer alone, with nothing left over, and from any bytes that it is a part
of, once the reads before have come to where it begins, with what follows it left over. -/
theorem putAll_readsBack (items : List Item) :
    List.Forall₂ (fun item outcome => ∀ e, outcome = .error e ↔
        ∃ field n, item = .length field n ∧ 0xffffffff < n ∧ e = .lengthOverflow field n)
      items (putAll items).1 ∧
    (∃ fields, List.Forall₂ (fun item bytes => item.read.Yields bytes item.field) (kept items)
        fields ∧
      (putAll items).2 = fields.flatten) ∧
    ReadsBack (kept items) (.ofBytes (putAll items).2) 0 ∧
    ∀ (before following : List UInt8) (prior : List Read),
      let c := Read.after prior (.ofBytes (before ++ (putAll items).2 ++ following))
      c.position = before.length → ReadsBack (kept items) c following.length := by
  obtain ⟨fields, hfields, hwritten⟩ := exists_fields items
  refine ⟨?_, ⟨fields, hfields, hwritten⟩, ?_, ?_⟩
  · rw [putAll, List.forall₂_map_right_iff, List.forall₂_map_right_iff, List.forall₂_same]
    exact fun item _ e => put_eq_error_iff
  · have hrest : (Cursor.ofBytes (putAll items).2).rest = fields.flatten ++ [] := by
      rw [List.append_nil, ← hwritten]
      rfl
    exact readsBack_of_yields hfields hrest
  · intro before following prior c hposition
    have hstands := (Cursor.StandsIn.ofBytes (before ++ (putAll items).2 ++ following)).after prior
    have hrest : c.rest = fields.flatten ++ following := by
      rw [hstands.rest_eq, hposition, hwritten, List.append_assoc, List.drop_left]
    exact readsBack_of_yields hfields hrest

/-- A length that is too big, between a mark and a number; before them three bytes, of which the
first two have been read one by one after a read that failed, and after them two bytes more. -/
theorem putAll_readsBack_between :
    let items : List Item := [.bytes [0x42, 0x53], .length .element 0x100000000, .u64 0x102,
      .length .bucket 7]
    let prior : List Read := [.u8, .bytes 100, .u8, .bytes 1]
    let c := Read.after prior (.ofBytes ([9, 8, 7] ++ (putAll items).2 ++ [6, 5]))
    (putAll items).1 =
      [.ok (), .error (.lengthOverflow .element 0x100000000), .ok (), .ok ()] ∧
    (putAll items).2 = [0x42, 0x53, 2, 1, 0, 0, 0, 0, 0, 0, 7, 0, 0, 0] ∧
    c.position = 3 ∧ ReadsBack (kept items) c 2 := by
  intro items prior c
  have hposition : c.position = 3 := by decide
  obtain ⟨-, -, -, hback⟩ := putAll_readsBack items
  exact ⟨by decide, by decide, hposition, hback [9, 8, 7] [6, 5] prior hposition⟩

end Item

end ChainedSet.Wire
