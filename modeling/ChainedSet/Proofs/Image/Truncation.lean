import ChainedSet.Proofs.Image.Prolong

/-!
# Images cut short

An image is told apart from its beginnings and from whatever begins with it: no cut image is
accepted, and none that goes on. How a cut image is refused says where it was cut
(`Table.SelfDelimiting`, `Table.Reachable.selfDelimiting_of_encode`).

A cut image is compared with the whole one, of which every field can be read. In the header, fields
of fixed width follow one another, and the first that is not whole is asked for (`Cut`). Among the
buckets, a read of the cut image either comes to the same as on the whole one, or is short of a byte
that was cut off, or is stopped by a guard (`Image.readBuckets_cut`). It cannot come to the same
everywhere, since then the whole image would go on after its last bucket.
-/

namespace ChainedSet

open Wire

namespace Wire

/-! ## Fields of a cut input -/

/-- The cursor `c` stands after `position` bytes of the first `total` bytes of an input, of which
`more` was cut off, and `d` stands at the same place of the whole input. -/
structure Cursor.CutFrom (d : Cursor) (more : List UInt8) (position total : Nat) (c : Cursor) :
    Prop where
  prolong_eq : c.prolong more = d
  position_eq : c.position = position
  total_eq : c.total = total

/-- What reading fields that end at `ends` comes to in the first `total` bytes of an input that has
them all: it is short of the first end that is beyond these bytes, or else `R` holds. -/
def Cut {α : Type} (ends : List Nat) (total : Nat) (R : Except DecodeError α → Prop)
    (x : Except DecodeError α) : Prop :=
  match ends.find? fun stop => total < stop with
  | some stop => x = .error (.bufferTooShort (min stop 0xffffffffffffffff) total)
  | none => R x

namespace Cut

variable {α β : Type} {ends ends' : List Nat} {stop total : Nat}
  {R : Except DecodeError α → Prop} {x : Except DecodeError α}

theorem cons_of_lt (h : total < stop) :
    Cut (stop :: ends) total R x ↔
      x = .error (.bufferTooShort (min stop 0xffffffffffffffff) total) := by
  simp only [Cut, List.find?_cons, h, decide_true]

theorem cons_of_le (h : stop ≤ total) : Cut (stop :: ends) total R x ↔ Cut ends total R x := by
  simp only [Cut, List.find?_cons, Nat.not_lt.mpr h, decide_false]

theorem eq_short (h : Cut ends total R x)
    (hbeyond : (ends.find? fun stop => total < stop) = some stop) :
    x = .error (.bufferTooShort (min stop 0xffffffffffffffff) total) := by
  rw [Cut, hbeyond] at h
  exact h

theorem of_find?_eq_none (h : Cut ends total R x)
    (hwithin : (ends.find? fun stop => total < stop) = none) : R x := by
  rw [Cut, hwithin] at h
  exact h

/-- The fields of two computations in a row are those of the first and then those of the second. -/
theorem bind {P : α → Prop} {S : Except DecodeError β → Prop} {f : α → Except DecodeError β}
    (h : Cut ends total (fun x => ∃ a, x = .ok a ∧ P a) x)
    (hrest : ∀ a, P a → Cut ends' total S (f a)) : Cut (ends ++ ends') total S (x >>= f) := by
  rw [Cut, List.find?_append]
  cases hfirst : ends.find? fun stop => total < stop with
  | some stop =>
    rw [h.eq_short hfirst]
    rfl
  | none =>
    obtain ⟨a, rfl, ha⟩ := h.of_find?_eq_none hfirst
    exact hrest a ha

variable {c d d' : Cursor} {more : List UInt8} {position n : Nat}

theorem take {bytes : List UInt8} (hc : d.CutFrom more position total c)
    (h : d.take n = .ok (bytes, d')) :
    Cut [position + n] total
      (fun x => ∃ r, x = .ok r ∧ r.1 = bytes ∧ d'.CutFrom more (position + n) total r.2)
      (c.take n) := by
  obtain ⟨rfl, rfl, rfl⟩ := hc
  have hend := c.position_add_remaining
  rcases Nat.lt_or_ge c.remaining n with hlt | hle
  · rw [cons_of_lt (by omega)]
    exact Cursor.take_of_lt hlt
  · rw [Cursor.take_prolong hle, Except.ok.injEq, Prod.mk.injEq] at h
    obtain ⟨rfl, rfl⟩ := h
    rw [cons_of_le (by omega)]
    exact ⟨_, Cursor.take_of_le hle, rfl, rfl, rfl, rfl⟩

theorem word {w : UInt64} (hc : d.CutFrom more position total c)
    (h : d.word n = .ok (w, d')) :
    Cut [position + n] total
      (fun x => ∃ r, x = .ok r ∧ r.1 = w ∧ d'.CutFrom more (position + n) total r.2)
      (c.word n) := by
  simp only [Cursor.word, bind_eq_ok_iff, pure_eq_ok_iff, Prod.exists, Prod.mk.injEq] at h
  obtain ⟨bytes, _, htake, rfl, rfl⟩ := h
  show Cut ([position + n] ++ []) total _ _
  refine (Cut.take hc htake).bind ?_
  rintro ⟨_, e⟩ ⟨rfl, he⟩
  exact ⟨_, rfl, rfl, he⟩

end Cut

end Wire

/-! ## The header -/

namespace Image

/-- Where the fields of the header end: the mark, the version, the seed, the capacity, the size. -/
def fieldEnds : List Nat := [4, 5, 13, 21, 29]

theorem exists_find?_fieldEnds {n : Nat} (h : n < 29) :
    ∃ e, fieldEnds.find? (fun stop => n < stop) = some e ∧ e ≤ 29 := by
  cases hfind : fieldEnds.find? fun stop => n < stop with
  | none =>
    have hall := List.find?_eq_none.mp hfind 29 (by decide)
    exact absurd (decide_eq_true h) hall
  | some e =>
    have hle : ∀ stop ∈ fieldEnds, stop ≤ 29 := by decide
    exact ⟨e, rfl, hle e (List.mem_of_find?_eq_some hfind)⟩

theorem find?_fieldEnds_eq_none {n : Nat} (h : 29 ≤ n) :
    (fieldEnds.find? fun stop => n < stop) = none := by
  have hle : ∀ stop ∈ fieldEnds, stop ≤ 29 := by decide
  rw [List.find?_eq_none]
  intro stop hstop
  have := hle stop hstop
  simp only [decide_eq_true_eq]
  omega

variable {c d d' : Cursor} {more : List UInt8} {position total : Nat}

theorem cut_readPreamble (hc : d.CutFrom more position total c) (h : readPreamble d = .ok d') :
    Cut [position + 4, position + 5] total
      (fun x => ∃ e, x = .ok e ∧ d'.CutFrom more (position + 5) total e) (readPreamble c) := by
  simp only [readPreamble, bind_eq_ok_iff, guard_eq_ok_iff, pure_eq_ok_iff, Prod.exists] at h
  obtain ⟨start, _, hstart, hmark, found, _, hfound, hversion, rfl⟩ := h
  show Cut ([position + 4] ++ ([position + 5] ++ [])) total _ _
  refine (Cut.take hc hstart).bind ?_
  rintro ⟨_, e⟩ ⟨rfl, he⟩
  simp only [if_neg hmark]
  refine (Cut.word he hfound).bind ?_
  rintro ⟨_, e⟩ ⟨rfl, he⟩
  simp only [if_neg hversion]
  exact ⟨_, rfl, he⟩

end Image

namespace Layout

open Image

variable {l : Layout} {bytes more : List UInt8}

/-- **A cut in the header** asks for the first field that is not whole. Where the header is whole,
the buckets are left to read. -/
theorem cut_decode (h : Layout.decode (bytes ++ more) = .ok l) :
    Cut fieldEnds bytes.length
      (fun x => ∃ c d, d.CutFrom more 29 bytes.length c ∧
        readBuckets l.capacity.toNat d = .ok l.buckets ∧
        x = (readBuckets l.capacity.toNat c).map fun buckets => { l with buckets := buckets })
      (Layout.decode bytes) := by
  rw [Layout.decode, ← Cursor.prolong_ofBytes] at h
  simp only [bind_eq_ok_iff, pure_eq_ok_iff, Prod.exists] at h
  obtain ⟨_, hpreamble, seed, _, hseed, capacity, _, hcapacity, size, _, hsize, buckets, hbuckets,
    rfl⟩ := h
  have hstart : ((Cursor.ofBytes bytes).prolong more).CutFrom more 0 bytes.length
      (Cursor.ofBytes bytes) := ⟨rfl, rfl, rfl⟩
  show Cut ([4, 5] ++ ([13] ++ ([21] ++ ([29] ++ [])))) bytes.length _ _
  refine (Image.cut_readPreamble hstart hpreamble).bind ?_
  rintro c₁ hc₁
  refine (Cut.word hc₁ hseed).bind ?_
  rintro ⟨_, c₂⟩ ⟨rfl, hc₂⟩
  refine (Cut.word hc₂ hcapacity).bind ?_
  rintro ⟨_, c₃⟩ ⟨rfl, hc₃⟩
  refine (Cut.word hc₃ hsize).bind ?_
  rintro ⟨_, c₄⟩ ⟨rfl, hc₄⟩
  exact ⟨c₄, _, hc₄, hbuckets, rfl⟩

end Layout

/-! ## The buckets -/

namespace Image

variable {c : Cursor} {more : List UInt8} {capacity : Nat} {buckets : List (List Key)}

theorem readBuckets_of_lt (h : c.remaining / prefixLength < capacity) :
    readBuckets capacity c = .error (.corrupted (.capacityExceedsInput capacity c.remaining)) := by
  simp only [readBuckets, if_pos h]
  rfl

/-- **A cut among the buckets** that leaves as many bytes as their prefixes take ends in a field, or
in a bucket that announces more than is left. -/
theorem readBuckets_cut (hmore : more ≠ [])
    (h : readBuckets capacity (c.prolong more) = .ok buckets)
    (hcapacity : capacity ≤ c.remaining / prefixLength) :
    (∃ stop, c.total < stop ∧ stop ≤ c.total + more.length ∧
      readBuckets capacity c =
        .error (.bufferTooShort (min stop 0xffffffffffffffff) c.total)) ∨
    ∃ count, readBuckets capacity c = .error (.corrupted (.bucketExceedsInput count)) := by
  simp only [readBuckets, bind_eq_ok_iff, guard_eq_ok_iff, pure_eq_ok_iff, Prod.exists] at h
  obtain ⟨-, _, d, hmany, hend, rfl⟩ := h
  have hsteady := steady_readBucket.many capacity c more
  rw [hmany] at hsteady
  simp only [readBuckets, if_neg (Nat.not_lt.mpr hcapacity)]
  cases hcut : c.many readBucket capacity with
  | ok r =>
    -- What was cut off would be left over after the last bucket.
    rw [hcut] at hsteady
    obtain ⟨-, hsame⟩ := hsteady.of_ok
    obtain ⟨-, rfl⟩ := Prod.mk.inj (Except.ok.inj hsame)
    rw [Cursor.remaining_prolong] at hend
    have hpos := List.length_pos_iff.mpr hmore
    omega
  | error e =>
    rw [hcut] at hsteady
    cases hsteady with
    | short hstop hagain =>
      left
      refine ⟨_, hstop, ?_, rfl⟩
      by_contra hbeyond
      cases hagain (by omega)
    | corrupted hfault =>
      right
      obtain ⟨count, rfl⟩ := hfault
      exact ⟨count, rfl⟩

end Image

/-! ## Whole images -/

namespace Layout

open Image

variable {l : Layout} {bytes : List UInt8}

/-- **A cut image is refused**, and what for depends on where it was cut. -/
theorem decode_take (h : Layout.decode bytes = .ok l) {n : Nat} (hn : n < bytes.length) :
    (n < 29 → ∃ e, fieldEnds.find? (fun stop => n < stop) = some e ∧
      Layout.decode (bytes.take n) = .error (.bufferTooShort e n)) ∧
    (29 ≤ n → n < 29 + 4 * l.capacity.toNat → Layout.decode (bytes.take n) =
      .error (.corrupted (.capacityExceedsInput l.capacity.toNat (n - 29)))) ∧
    (29 + 4 * l.capacity.toNat ≤ n →
      (∃ e, n < e ∧ e ≤ bytes.length ∧ Layout.decode (bytes.take n) =
        .error (.bufferTooShort (min e 0xffffffffffffffff) n)) ∨
      ∃ count, Layout.decode (bytes.take n) = .error (.corrupted (.bucketExceedsInput count))) := by
  have hlength : (bytes.take n).length = n := List.length_take_of_le (Nat.le_of_lt hn)
  have hmore : bytes.drop n ≠ [] := by simpa using hn
  rw [← List.take_append_drop n bytes] at h
  have hcut := cut_decode h
  rw [hlength] at hcut
  refine ⟨?_, ?_⟩
  · intro hheader
    obtain ⟨e, hfind, hle⟩ := exists_find?_fieldEnds hheader
    refine ⟨e, hfind, ?_⟩
    rw [hcut.eq_short hfind, Nat.min_eq_left (by omega)]
  rcases Nat.lt_or_ge n 29 with hheader | hbody
  · constructor <;> intros <;> omega
  -- Behind the header only the buckets are left to read, from its end on.
  obtain ⟨c, d, ⟨rfl, hposition, htotal⟩, hbuckets, hdecode⟩ :=
    hcut.of_find?_eq_none (find?_fieldEnds_eq_none hbody)
  have hremaining : c.remaining = n - 29 := by
    rw [Cursor.remaining, htotal, hposition]
  have hend : n + (bytes.drop n).length = bytes.length := by
    rw [List.length_drop]
    omega
  constructor
  · intro _ hfew
    have hfew' : c.remaining / prefixLength < l.capacity.toNat := by
      rw [hremaining, Nat.div_lt_iff_lt_mul (by decide), prefixLength]
      omega
    rw [hdecode, readBuckets_of_lt hfew', hremaining]
    rfl
  · intro henough
    have henough' : l.capacity.toNat ≤ c.remaining / prefixLength := by
      rw [hremaining, Nat.le_div_iff_mul_le (by decide), prefixLength]
      omega
    rcases readBuckets_cut hmore hbuckets henough' with ⟨e, hlt, hle, hshort⟩ | ⟨count, hcount⟩
    · rw [htotal] at hlt hle hshort
      exact Or.inl ⟨e, hlt, by omega, by rw [hdecode, hshort]; rfl⟩
    · exact Or.inr ⟨count, by rw [hdecode, hcount]; rfl⟩

end Layout

namespace Table

theorem decode_of_layout_error {bytes : List UInt8} {e : DecodeError}
    (h : Layout.decode bytes = .error e) : Table.decode bytes = .error e := by
  rw [Table.decode, h]
  rfl

/-- How the beginnings of an image, and what begins with it, are refused. The numbers in a short
read are words, so the one that is asked for stops at the largest word. -/
structure SelfDelimiting (bytes : List UInt8) (capacity : Nat) : Prop where
  /-- In the header, the first field that is not whole is asked for. -/
  cut_header : ∀ n < bytes.length, n < 29 →
    ∃ e, [4, 5, 13, 21, 29].find? (fun stop => n < stop) = some e ∧
      Table.decode (bytes.take n) = .error (.bufferTooShort e n)
  /-- What is left after the header has to hold the prefixes of all buckets. -/
  cut_counts : ∀ n < bytes.length, 29 ≤ n → n < 29 + 4 * capacity →
    Table.decode (bytes.take n) = .error (.corrupted (.capacityExceedsInput capacity (n - 29)))
  /-- Further on, a field that was cut off is asked for, or a bucket announces too many keys. -/
  cut_buckets : ∀ n < bytes.length, 29 + 4 * capacity ≤ n →
    (∃ e, n < e ∧ e ≤ bytes.length ∧
      Table.decode (bytes.take n) = .error (.bufferTooShort (min e 0xffffffffffffffff) n)) ∨
    ∃ count, Table.decode (bytes.take n) = .error (.corrupted (.bucketExceedsInput count))
  /-- Bytes after the last bucket are counted. -/
  append : ∀ more, more ≠ [] →
    Table.decode (bytes ++ more) = .error (.corrupted (.trailingBytes more.length)) ∧
      (Corruption.trailingBytes more.length).reason = s!"{more.length} trailing bytes"

/-- **No image is a prefix of another**: whatever is cut off an image or added to it, the rest is
refused, and for a reason that tells where it ends. -/
theorem Reachable.selfDelimiting_of_encode {t : Table} (h : t.Reachable) {bytes : List UInt8}
    (henc : t.encode = .ok bytes) : SelfDelimiting bytes t.capacity := by
  have hsound := h.sound
  have htable : t.layout.toTable = .ok t.clone :=
    toTable_layout hsound.wellFormed hsound.capacity_lt (Nat.le_of_lt hsound.size_lt)
  have hlayout : Layout.decode bytes = .ok t.layout :=
    Layout.decode_eq_ok_iff.mpr ⟨Layout.length_of_toTable htable, henc⟩
  have hdecode : Table.decode bytes = .ok t.clone :=
    decode_eq_ok_iff.mpr ⟨t.layout, henc, htable⟩
  have hcapacity : t.layout.capacity.toNat = t.capacity :=
    UInt64.toNat_ofNat_of_lt' hsound.capacity_lt
  refine ⟨?_, ?_, ?_, ?_⟩
  · intro n hn hheader
    obtain ⟨e, hfind, hshort⟩ := (Layout.decode_take hlayout hn).1 hheader
    exact ⟨e, hfind, decode_of_layout_error hshort⟩
  · intro n hn hbody hfew
    rw [← hcapacity] at hfew ⊢
    exact decode_of_layout_error ((Layout.decode_take hlayout hn).2.1 hbody hfew)
  · intro n hn hmany
    rw [← hcapacity] at hmany
    rcases (Layout.decode_take hlayout hn).2.2 hmany with ⟨e, hlt, hle, hshort⟩ | ⟨count, hcount⟩
    · exact Or.inl ⟨e, hlt, hle, decode_of_layout_error hshort⟩
    · exact Or.inr ⟨count, decode_of_layout_error hcount⟩
  · intro more hmore
    exact ⟨(hdecode ▸ persists_decode bytes more).of_ok hmore, rfl⟩

/-- The image of a table with two keys, one of them empty. -/
theorem selfDelimiting_of_encode_pair :
    let t := (ofList [[], [0x61, 0x62]]).state
    t.Reachable ∧ t.encode = .ok t.layout.image ∧ t.layout.image.length = 29 + 4 * 32 + 4 + 6 ∧
      SelfDelimiting t.layout.image t.capacity := by
  intro t
  have ht : t.Reachable := .ofList _ (by decide +kernel)
  have henc : t.encode = .ok t.layout.image :=
    Layout.encode_eq_ok_iff_image.mpr ⟨by decide +kernel, rfl⟩
  exact ⟨ht, henc, by decide +kernel, ht.selfDelimiting_of_encode henc⟩

end Table

end ChainedSet
