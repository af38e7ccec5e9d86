import ChainedSet.Proofs.Table.Reachable
import ChainedSet.Proofs.Wire.Form
import ChainedSet.Table.Words

/-!
# The form in words, there and back

The form in words ends where its counts say, and what follows it is left alone. So reading is told
by one statement (`Layout.ofWords_eq_ok_iff`):

    Layout.ofWords bytes = .ok l ↔ l.FitsWords ∧ l.toWords <+: bytes

Everything about the form follows from it. A layout whose counts and lengths are words is read back
from its form, whatever bytes come after. A form that is cut anywhere is refused: whatever was read
from its beginning would be read from the whole form as well, and there the layout itself is read.
There is no validation in the reader, so the checks of `Layout.toTable` are the only ones after it
(`Table.ofWords_toWords`).
-/

namespace ChainedSet

open Wire

namespace Words

/-! ## Forms -/

/-- A bucket whose count, and the lengths of whose keys, are words. -/
def BucketFits (keys : List Key) : Prop :=
  keys.length < 2 ^ 64 ∧ ∀ key ∈ keys, key.length < 2 ^ 64

instance (keys : List Key) : Decidable (BucketFits keys) := inferInstanceAs (Decidable (_ ∧ _))

/-- The bytes that stand for a count or a length. -/
def natForm (n : Nat) : Language UInt8 := {bytes | n < 2 ^ 64 ∧ encodeNat n = bytes}

/-- The bytes that stand for a key. -/
def keyForm (key : Key) : Language UInt8 := natForm key.length * (Item.bytes key).form

/-- The bytes that stand for a bucket. -/
def bucketForm (keys : List Key) : Language UInt8 :=
  natForm keys.length * (keys.map keyForm).prod

theorem mem_natForm {n : Nat} {bytes : List UInt8} :
    bytes ∈ natForm n ↔ n < 2 ^ 64 ∧ encodeNat n = bytes := Iff.rfl

/-- A word is the count that it stands for. -/
theorem form_u64_eq_natForm (w : UInt64) : (Item.u64 w).form = natForm w.toNat := by
  apply Set.ext
  intro bytes
  show bytes ∈ (Item.u64 w).form ↔ bytes ∈ natForm w.toNat
  rw [Item.mem_form_u64, mem_natForm, encodeNat, UInt64.ofNat_toNat]
  exact (and_iff_right w.toNat_lt).symm

theorem mem_keyForm_iff (key : Key) (bytes : List UInt8) :
    bytes ∈ keyForm key ↔ key.length < 2 ^ 64 ∧ encodeKey key = bytes := by
  rw [keyForm, Language.mem_mul]
  constructor
  · rintro ⟨length, hlength, _, hkey, rfl⟩
    obtain ⟨hfits, rfl⟩ := mem_natForm.mp hlength
    obtain rfl := Item.mem_form_bytes.mp hkey
    exact ⟨hfits, rfl⟩
  · rintro ⟨hfits, rfl⟩
    exact ⟨_, mem_natForm.mpr ⟨hfits, rfl⟩, key, Item.mem_form_bytes.mpr rfl, rfl⟩

theorem mem_bucketForm_iff (keys : List Key) (bytes : List UInt8) :
    bytes ∈ bucketForm keys ↔ BucketFits keys ∧ encodeBucket keys = bytes := by
  rw [bucketForm, Language.mem_mul]
  constructor
  · rintro ⟨count, hcount, body, hbody, rfl⟩
    obtain ⟨hfits, rfl⟩ := mem_natForm.mp hcount
    obtain ⟨hkeys, rfl⟩ := (Item.mem_prod_iff mem_keyForm_iff).mp hbody
    exact ⟨⟨hfits, hkeys⟩, rfl⟩
  · rintro ⟨⟨hfits, hkeys⟩, rfl⟩
    exact ⟨_, mem_natForm.mpr ⟨hfits, rfl⟩, _, (Item.mem_prod_iff mem_keyForm_iff).mpr ⟨hkeys, rfl⟩,
      rfl⟩

/-! ## Reading them -/

/-- A count stands where a word does that is equal to it. -/
theorem spans_natForm_iff {c d : Cursor} {n : Nat} :
    c.Spans (natForm n) d ↔ ∃ w, c.word 8 = .ok (w, d) ∧ n = w.toNat := by
  simp only [Cursor.word_eight_eq_ok_iff, form_u64_eq_natForm]
  constructor
  · intro h
    have hn : n < 2 ^ 64 := by
      obtain ⟨_, ⟨hn, -⟩, -⟩ := h
      exact hn
    have hword : n = (UInt64.ofNat n).toNat := (UInt64.toNat_ofNat_of_lt' hn).symm
    refine ⟨UInt64.ofNat n, ?_, hword⟩
    rwa [← hword]
  · rintro ⟨w, h, rfl⟩
    exact h

theorem reads_key : Cursor.Reads readKey keyForm := by
  intro c d key
  simp only [readKey, bind_eq_ok_iff, Prod.exists, Cursor.take_eq_ok_iff, keyForm,
    Cursor.spans_mul_iff, spans_natForm_iff]
  constructor
  · rintro ⟨w, m, hword, hlength, hkey⟩
    exact ⟨m, ⟨w, hword, hlength⟩, hkey⟩
  · rintro ⟨m, ⟨w, hword, hlength⟩, hkey⟩
    exact ⟨w, m, hword, hlength, hkey⟩

theorem reads_bucket : Cursor.Reads readBucket bucketForm := by
  intro c d keys
  simp only [readBucket, bind_eq_ok_iff, Prod.exists, reads_key.many_eq_ok_iff, bucketForm,
    Cursor.spans_mul_iff, spans_natForm_iff]
  constructor
  · rintro ⟨w, m, hword, hcount, hkeys⟩
    exact ⟨m, ⟨w, hword, hcount⟩, hkeys⟩
  · rintro ⟨m, ⟨w, hword, hcount⟩, hkeys⟩
    exact ⟨w, m, hword, hcount, hkeys⟩

/-- The bytes that stand for a layout. -/
def layoutForm (l : Layout) : Language UInt8 :=
  (Item.u64 l.seed).form * ((Item.u64 l.capacity).form * ((Item.u64 l.size).form *
    (natForm l.buckets.length * (l.buckets.map bucketForm).prod)))

theorem reads_layout : Cursor.Reads readLayout layoutForm := by
  intro c d l
  obtain ⟨seed, capacity, size, buckets⟩ := l
  simp only [readLayout, bind_eq_ok_iff, pure_eq_ok_iff, Prod.exists, Prod.mk.injEq,
    Layout.mk.injEq, reads_bucket.many_eq_ok_iff, layoutForm, Cursor.spans_mul_iff,
    spans_natForm_iff, ← Cursor.word_eight_eq_ok_iff]
  constructor
  · rintro ⟨_, c₁, hseed, _, c₂, hcapacity, _, c₃, hsize, w, c₄, hword, _, _, ⟨hcount, hbuckets⟩,
      ⟨rfl, rfl, rfl, rfl⟩, rfl⟩
    exact ⟨c₁, hseed, c₂, hcapacity, c₃, hsize, c₄, ⟨w, hword, hcount⟩, hbuckets⟩
  · rintro ⟨c₁, hseed, c₂, hcapacity, c₃, hsize, c₄, ⟨w, hword, hcount⟩, hbuckets⟩
    exact ⟨seed, c₁, hseed, capacity, c₂, hcapacity, size, c₃, hsize, w, c₄, hword, buckets, d,
      ⟨hcount, hbuckets⟩, ⟨rfl, rfl, rfl, rfl⟩, rfl⟩

end Words

/-! ## Layouts -/

namespace Layout

open Words

variable {l : Layout} {bytes : List UInt8}

/-- Every count and every length is a word. -/
def FitsWords (l : Layout) : Prop :=
  l.buckets.length < 2 ^ 64 ∧ ∀ keys ∈ l.buckets, BucketFits keys

instance : Decidable l.FitsWords := inferInstanceAs (Decidable (_ ∧ _))

theorem mem_layoutForm_iff : bytes ∈ layoutForm l ↔ l.FitsWords ∧ l.toWords = bytes := by
  simp only [layoutForm, Language.mem_mul, Item.mem_form_u64, mem_natForm,
    Item.mem_prod_iff mem_bucketForm_iff]
  constructor
  · rintro ⟨_, rfl, _, ⟨_, rfl, _, ⟨_, rfl, _, ⟨_, ⟨hcount, rfl⟩, _, ⟨hfits, rfl⟩, rfl⟩, rfl⟩, rfl⟩,
      rfl⟩
    exact ⟨⟨hcount, hfits⟩, by simp [toWords]⟩
  · rintro ⟨⟨hcount, hfits⟩, rfl⟩
    exact ⟨_, rfl, _, ⟨_, rfl, _, ⟨_, rfl, _, ⟨_, ⟨hcount, rfl⟩, _, ⟨hfits, rfl⟩, rfl⟩, rfl⟩, rfl⟩,
      by simp [toWords]⟩

/-- **What can be read** are the forms of layouts whose counts and lengths are words, with anything
after them. -/
theorem ofWords_eq_ok_iff : Layout.ofWords bytes = .ok l ↔ l.FitsWords ∧ l.toWords <+: bytes := by
  have hread : Layout.ofWords bytes = .ok l ↔
      ∃ d, readLayout (.ofBytes bytes) = .ok (l, d) := by
    rw [Layout.ofWords]
    cases readLayout (.ofBytes bytes) with
    | error e => simp
    | ok r => simp [Prod.ext_iff]
  rw [hread]
  constructor
  · rintro ⟨d, h⟩
    obtain ⟨form, hform, hrest, -⟩ := reads_layout.mp h
    obtain ⟨hfits, rfl⟩ := mem_layoutForm_iff.mp hform
    exact ⟨hfits, d.rest, hrest.symm⟩
  · rintro ⟨hfits, more, rfl⟩
    have hbytes : (Cursor.ofBytes (l.toWords ++ more)).rest = l.toWords ++ more := rfl
    obtain ⟨d, hrest, htotal⟩ := Cursor.exists_rest_eq hbytes
    refine ⟨d, reads_layout.mpr ⟨l.toWords, mem_layoutForm_iff.mpr ⟨hfits, rfl⟩, ?_, htotal.symm⟩⟩
    rw [hrest]
    rfl

/-- What cannot be read is malformed, for whatever reason. -/
theorem ofWords_eq_malformed (h : ∀ l, Layout.ofWords bytes ≠ .ok l) :
    Layout.ofWords bytes = .error .malformed := by
  rw [Layout.ofWords] at h ⊢
  split
  · next l _ hread =>
    simp only [hread] at h
    exact absurd rfl (h l)
  · rfl

/-- **A form that is cut anywhere is refused.** -/
theorem ofWords_take (h : l.FitsWords) {n : Nat} (hn : n < l.toWords.length) :
    Layout.ofWords (l.toWords.take n) = .error .malformed := by
  apply ofWords_eq_malformed
  intro l' hl'
  obtain ⟨hfits, hprefix⟩ := ofWords_eq_ok_iff.mp hl'
  -- Both layouts would be read from the whole form, of which only one can be read.
  have hwhole : Layout.ofWords l.toWords = .ok l' :=
    ofWords_eq_ok_iff.mpr ⟨hfits, hprefix.trans (List.take_prefix n _)⟩
  have hself : Layout.ofWords l.toWords = .ok l :=
    ofWords_eq_ok_iff.mpr ⟨h, List.prefix_rfl⟩
  obtain rfl : l' = l := Except.ok.inj (hwhole.symm.trans hself)
  have hlength := hprefix.length_le
  rw [List.length_take] at hlength
  omega

end Layout

/-! ## Tables -/

namespace Table

variable {t : Table}

/-- The counts of a sound table are words, so only the lengths of its keys need to be. -/
theorem Sound.fitsWords (h : t.Sound) (hkeys : ∀ key ∈ t.toList, key.length < 2 ^ 64) :
    t.layout.FitsWords := by
  have hplaced := h.wellFormed.wellPlaced
  show t.rows.length < 2 ^ 64 ∧ ∀ keys ∈ t.rows, Words.BucketFits keys
  refine ⟨?_, ?_⟩
  · rw [hplaced.length_eq]
    exact h.capacity_lt
  · intro keys hmem
    refine ⟨?_, ?_⟩
    · have hle : keys.length ≤ t.rows.flatten.length :=
        (List.sublist_flatten_of_mem hmem).length_le
      have hsize := h.size_lt
      rw [hplaced.size_eq] at hsize
      omega
    · intro key hkey
      apply hkeys
      rw [toList_eq_flatten_rows]
      exact List.mem_flatten.mpr ⟨keys, hmem, hkey⟩

/-- Once the layout is read, the checks on it decide. -/
theorem ofWords_of_layout {l : Layout} {bytes : List UInt8} (h : Layout.ofWords bytes = .ok l) :
    Table.ofWords bytes = l.toTable.mapError .refused := by
  rw [Table.ofWords, h]
  rfl

/-- **The form in words is lossless and self-delimiting.** From the form of any fields whose counts
and lengths are words, with anything after it, comes the outcome of the checks on these fields, and
from a part of the form nothing but the complaint that it is malformed. Whatever holds a table
begins with the form of this table. So a reachable table comes back from its form with the same
seed, capacity and size, and in every bucket the same keys in the same order. -/
theorem ofWords_toWords :
    (∀ l : Layout, l.FitsWords →
      (∀ more, Table.ofWords (l.toWords ++ more) = l.toTable.mapError .refused) ∧
      ∀ n < l.toWords.length, Table.ofWords (l.toWords.take n) = .error .malformed) ∧
    (∀ bytes t, Table.ofWords bytes = .ok t → t.toWords <+: bytes) ∧
    ∀ t : Table, t.Reachable → (∀ key ∈ t.toList, key.length < 2 ^ 64) →
      ∃ u, Table.ofWords t.toWords = .ok u ∧
        u.seed = t.seed ∧ u.capacity = t.capacity ∧ u.size = t.size ∧
        u.buckets.map Chain.keys = t.buckets.map Chain.keys := by
  refine ⟨?_, ?_, ?_⟩
  · intro l hfits
    refine ⟨?_, ?_⟩
    · intro more
      exact ofWords_of_layout (Layout.ofWords_eq_ok_iff.mpr ⟨hfits, List.prefix_append _ _⟩)
    · intro n hn
      rw [Table.ofWords, Layout.ofWords_take hfits hn]
      rfl
  · intro bytes t h
    obtain ⟨l, hread, htable⟩ := Layout.toTable_of_bind h
    rw [toWords, Layout.layout_of_toTable htable]
    exact (Layout.ofWords_eq_ok_iff.mp hread).2
  · intro t ht hkeys
    have hsound := ht.sound
    have hread : Layout.ofWords t.toWords = .ok t.layout :=
      Layout.ofWords_eq_ok_iff.mpr ⟨hsound.fitsWords hkeys, List.prefix_rfl⟩
    have htable : Table.ofWords t.toWords = .ok t.clone := by
      rw [ofWords_of_layout hread, hsound.toTable_layout]
      rfl
    exact ⟨t.clone, htable, rfl, rfl, rfl, t.map_keys_clone⟩

/-- Two keys in a table, the same keys under a wrong size, and the form cut inside a key's length. -/
theorem ofWords_toWords_pair :
    let t := (ofList [[], [0x61, 0x62]]).state
    let l : Layout := { t.layout with size := 9 }
    (l.FitsWords ∧ l.toTable = .error (.sizeMismatch 9 2) ∧
      (∀ more, Table.ofWords (l.toWords ++ more) = l.toTable.mapError .refused) ∧
      l.toWords.length = 32 + 32 * 8 + 18 ∧
      Table.ofWords (l.toWords.take 301) = .error .malformed) ∧
    t.Reachable ∧ (∀ key ∈ t.toList, key.length < 2 ^ 64) ∧
      ∃ u, Table.ofWords t.toWords = .ok u ∧ u.toWords <+: t.toWords ∧
        u.seed = t.seed ∧ u.capacity = t.capacity ∧ u.size = t.size ∧
        u.buckets.map Chain.keys = t.buckets.map Chain.keys := by
  intro t l
  obtain ⟨hfields, hprefix, hreachable⟩ := ofWords_toWords
  have hfits : l.FitsWords := by decide +kernel
  have hlength : l.toWords.length = 32 + 32 * 8 + 18 := by decide +kernel
  have ht : t.Reachable := .ofList _ (by decide +kernel)
  have hkeys : ∀ key ∈ t.toList, key.length < 2 ^ 64 := by decide +kernel
  obtain ⟨hmore, hcut⟩ := hfields l hfits
  obtain ⟨u, hu, hsame⟩ := hreachable t ht hkeys
  exact ⟨⟨hfits, by decide +kernel, hmore, hlength, hcut 301 (by rw [hlength]; decide)⟩,
    ht, hkeys, u, hu, hprefix _ u hu, hsame⟩

end Table

end ChainedSet
