import ChainedSet.Proofs.Table.Reachable
import ChainedSet.Proofs.Wire.Form

/-!
# Images of tables

The reader of images goes through the same forms as the writer, in the same order. Its guards on
the bytes that are left stop nothing that was written, since every bucket and every key takes a
length prefix at least. So the images are exactly what `Layout.decode` accepts
(`Layout.decode_eq_ok_iff`): reading undoes writing, and no two byte strings hold one layout.

What is read must then pass the checks of `Layout.toTable`. Those of a reachable table do, which
makes its image lossless (`Table.Reachable.decode_of_encode`).
-/

namespace ChainedSet

open Wire

namespace Image

/-! ## Forms of an image -/

/-- The bytes that an image begins with. -/
def preambleForm : Language UInt8 := (Item.bytes mark).form * (Item.u8 version).form

/-- The bytes that stand for a key. -/
def keyForm (key : Key) : Language UInt8 := ((keyItems key).map Item.form).prod

/-- The bytes that stand for a bucket. -/
def bucketForm (keys : List Key) : Language UInt8 := ((bucketItems keys).map Item.form).prod

theorem keyForm_eq (key : Key) :
    keyForm key = (Item.length .element key.length).form * (Item.bytes key).form := by
  simp [keyForm, keyItems]

theorem bucketForm_eq (keys : List Key) :
    bucketForm keys = (Item.length .bucket keys.length).form * (keys.map keyForm).prod := by
  rw [bucketForm, bucketItems, List.map_cons, List.prod_cons, Item.prod_form_flatMap]
  rfl

theorem prefixLength_le_of_mem_keyForm (key : Key) :
    ∀ bytes ∈ keyForm key, prefixLength ≤ bytes.length := by
  rw [keyForm_eq]
  exact fun _ => Item.length_le_of_mem_form_length_mul

theorem prefixLength_le_of_mem_bucketForm (keys : List Key) :
    ∀ bytes ∈ bucketForm keys, prefixLength ≤ bytes.length := by
  rw [bucketForm_eq]
  exact fun _ => Item.length_le_of_mem_form_length_mul

/-- Buckets take four bytes for each of them and for each of their keys at least. -/
theorem prefixLength_mul_le_of_mem_prod {buckets : List (List Key)} :
    ∀ bytes ∈ (buckets.map bucketForm).prod,
      prefixLength * (buckets.length + buckets.flatten.length) ≤ bytes.length := by
  induction buckets with
  | nil => simp
  | cons keys buckets ih =>
    intro bytes hbytes
    rw [List.map_cons, List.prod_cons, bucketForm_eq] at hbytes
    obtain ⟨first, hfirst, rest, hrest, rfl⟩ := Language.mem_mul.mp hbytes
    obtain ⟨count, hcount, body, hbody, rfl⟩ := Language.mem_mul.mp hfirst
    obtain ⟨-, rfl⟩ := Item.mem_form_length.mp hcount
    have hkeys := Item.mul_length_le_of_mem_prod prefixLength_le_of_mem_keyForm body hbody
    have hothers := ih rest hrest
    rw [prefixLength] at hkeys hothers ⊢
    simp only [List.length_append, List.length_cons, List.flatten_cons, LittleEndian.length_encode]
    omega

/-! ## Reading them -/

/-- **The guards stop nothing that was written**: the prefixes alone fill the space that they ask
for. -/
theorem not_remaining_lt {α : Type} {form : α → Language UInt8}
    (hform : ∀ a, ∀ bytes ∈ form a, prefixLength ≤ bytes.length) {results : List α}
    {c d : Cursor} (h : c.Spans (results.map form).prod d) :
    ¬ c.remaining / prefixLength < results.length := by
  have hle : results.length * prefixLength ≤ c.remaining :=
    h.le_remaining (Item.mul_length_le_of_mem_prod hform)
  rw [Nat.not_lt]
  exact (Nat.le_div_iff_mul_le (by decide)).mpr hle

theorem reads_key : Cursor.Reads readKey keyForm := by
  intro c d key
  simp only [readKey, bind_eq_ok_iff, Prod.exists, Cursor.take_eq_ok_iff, keyForm_eq,
    Cursor.length_eq_ok_iff .element, Cursor.spans_mul_iff]
  constructor
  · rintro ⟨_, m, hlength, rfl, hkey⟩
    exact ⟨m, hlength, hkey⟩
  · rintro ⟨m, hlength, hkey⟩
    exact ⟨_, m, hlength, rfl, hkey⟩

theorem reads_bucket : Cursor.Reads readBucket bucketForm := by
  intro c d keys
  simp only [readBucket, bind_eq_ok_iff, guard_eq_ok_iff, Prod.exists, bucketForm_eq,
    Cursor.length_eq_ok_iff .bucket, reads_key.many_eq_ok_iff, Cursor.spans_mul_iff]
  constructor
  · rintro ⟨_, m, hlength, -, rfl, hkeys⟩
    exact ⟨m, hlength, hkeys⟩
  · rintro ⟨m, hlength, hkeys⟩
    exact ⟨_, m, hlength, not_remaining_lt prefixLength_le_of_mem_keyForm hkeys, rfl, hkeys⟩

theorem readPreamble_eq_ok_iff {c d : Cursor} :
    readPreamble c = .ok d ↔ c.Spans preambleForm d := by
  simp only [readPreamble, preambleForm, bind_eq_ok_iff, guard_eq_ok_iff, pure_eq_ok_iff,
    Prod.exists, Cursor.take_eq_ok_iff, Cursor.spans_mul_iff, Decidable.not_not]
  constructor
  · rintro ⟨_, m, ⟨-, hmark⟩, rfl, _, _, hversion, rfl, rfl⟩
    exact ⟨m, hmark, Cursor.word_one_eq_ok_iff.mp hversion⟩
  · rintro ⟨m, hmark, hversion⟩
    exact ⟨_, m, ⟨rfl, hmark⟩, rfl, _, d, Cursor.word_one_eq_ok_iff.mpr hversion, rfl, rfl⟩

theorem readBuckets_eq_ok_iff {capacity : Nat} {c : Cursor} {buckets : List (List Key)} :
    readBuckets capacity c = .ok buckets ↔
      buckets.length = capacity ∧
        ∃ d, c.Spans (buckets.map bucketForm).prod d ∧ d.remaining = 0 := by
  simp only [readBuckets, bind_eq_ok_iff, guard_eq_ok_iff, pure_eq_ok_iff, Prod.exists,
    reads_bucket.many_eq_ok_iff, Decidable.not_not]
  constructor
  · rintro ⟨-, _, d, ⟨hlength, hbuckets⟩, hend, rfl⟩
    exact ⟨hlength, d, hbuckets, hend⟩
  · rintro ⟨rfl, d, hbuckets, hend⟩
    exact ⟨not_remaining_lt prefixLength_le_of_mem_bucketForm hbuckets,
      buckets, d, ⟨rfl, hbuckets⟩, hend, rfl⟩

end Image

/-! ## Images and layouts -/

namespace Layout

open Image

theorem encode_eq_ok_iff {l : Layout} {bytes : List UInt8} :
    l.encode = .ok bytes ↔
      bytes ∈ preambleForm * ((Item.u64 l.seed).form * ((Item.u64 l.capacity).form *
        ((Item.u64 l.size).form * (l.buckets.map bucketForm).prod))) := by
  rw [encode, Item.encodeAll_eq_ok_iff, items, List.map_append, List.prod_append,
    Item.prod_form_flatMap, preambleForm]
  simp only [List.map_cons, List.map_nil, List.prod_cons, List.prod_nil, mul_one, mul_assoc]
  rfl

/-- An image is longer than its buckets and keys are many. -/
theorem prefixLength_mul_le_of_encode {l : Layout} {bytes : List UInt8}
    (h : l.encode = .ok bytes) :
    prefixLength * (l.buckets.length + l.buckets.flatten.length) ≤ bytes.length := by
  have hform := encode_eq_ok_iff.mp h
  simp only [← mul_assoc] at hform
  obtain ⟨header, -, body, hbody, rfl⟩ := Language.mem_mul.mp hform
  rw [List.length_append]
  exact Nat.le_trans (prefixLength_mul_le_of_mem_prod body hbody) (Nat.le_add_left _ _)

/-- **The images that can be read** are the written ones of layouts with as many buckets as their
capacity says. -/
theorem decode_eq_ok_iff {bytes : List UInt8} {l : Layout} :
    decode bytes = .ok l ↔ l.buckets.length = l.capacity.toNat ∧ l.encode = .ok bytes := by
  obtain ⟨seed, capacity, size, buckets⟩ := l
  simp only [decode, bind_eq_ok_iff, pure_eq_ok_iff, Prod.exists, Layout.mk.injEq,
    readPreamble_eq_ok_iff, Cursor.word_eight_eq_ok_iff, readBuckets_eq_ok_iff,
    encode_eq_ok_iff, Cursor.mem_iff_spans_ofBytes, Cursor.spans_mul_iff]
  constructor
  · rintro ⟨_, hpreamble, _, _, hseed, _, _, hcapacity, _, c, hsize, _,
      ⟨hlength, d, hbuckets, hend⟩, rfl, rfl, rfl, rfl⟩
    exact ⟨hlength, d, ⟨_, hpreamble, _, hseed, _, hcapacity, c, hsize, hbuckets⟩, hend⟩
  · rintro ⟨hlength, d, ⟨_, hpreamble, _, hseed, _, hcapacity, c, hsize, hbuckets⟩, hend⟩
    exact ⟨_, hpreamble, _, _, hseed, _, _, hcapacity, _, c, hsize, _,
      ⟨hlength, d, hbuckets, hend⟩, rfl, rfl, rfl, rfl⟩

end Layout

/-! ## Images and tables -/

namespace Table

open Image

variable {t : Table} {bytes : List UInt8}

/-- The images that hold a table are the written ones of the accepted layouts. -/
theorem decode_eq_ok_iff :
    Table.decode bytes = .ok t ↔ ∃ l : Layout, l.encode = .ok bytes ∧ l.toTable = .ok t := by
  constructor
  · intro h
    obtain ⟨l, hlayout, htable⟩ := toTable_of_decode h
    exact ⟨l, (Layout.decode_eq_ok_iff.mp hlayout).2, htable⟩
  · rintro ⟨l, henc, htable⟩
    have hlayout : Layout.decode bytes = .ok l :=
      Layout.decode_eq_ok_iff.mpr ⟨Layout.length_of_toTable htable, henc⟩
    rw [Table.decode, hlayout]
    show l.toTable.mapError DecodeError.corrupted = .ok t
    rw [htable]
    rfl

/-- An image is longer than its table is large. -/
theorem prefixLength_mul_le_of_decode (h : Table.decode bytes = .ok t) :
    prefixLength * (t.capacity + t.size) ≤ bytes.length := by
  obtain ⟨l, henc, htable⟩ := decode_eq_ok_iff.mp h
  have hlength := Layout.prefixLength_mul_le_of_encode henc
  rw [Layout.length_of_toTable htable, Layout.length_flatten_of_toTable htable] at hlength
  obtain ⟨-, rfl⟩ := Layout.toTable_eq_ok_iff.mp htable
  exact hlength

/-- **Images are lossless**: if a reachable table has an image, the table read from it has the same
seed, capacity and size, and in every bucket the same keys in the same order. -/
theorem Reachable.decode_of_encode (h : t.Reachable) (henc : t.encode = .ok bytes) :
    ∃ u : Table, Table.decode bytes = .ok u ∧
      u.seed = t.seed ∧ u.capacity = t.capacity ∧ u.size = t.size ∧
      u.buckets.map Chain.keys = t.buckets.map Chain.keys := by
  have hsound := h.sound
  have htable : t.layout.toTable = .ok t.clone :=
    toTable_layout hsound.wellFormed hsound.capacity_lt (Nat.le_of_lt hsound.size_lt)
  refine ⟨t.clone, decode_eq_ok_iff.mpr ⟨t.layout, henc, htable⟩, rfl, rfl, rfl, ?_⟩
  show (t.buckets.map Chain.trimmed).map Chain.keys = t.buckets.map Chain.keys
  rw [Array.map_map]
  exact Array.map_congr_left fun chain _ => chain.keys_trimmed

/-- The table read from the image of a table that has grown and lost a key. -/
theorem decode_of_encode_grown :
    let keys : List Key := (List.range 23).map fun n => List.replicate n 7
    let grown := ((ofList keys).state.remove [7, 7]).state
    grown.Reachable ∧ grown.capacity = 64 ∧
      ∃ bytes, grown.encode = .ok bytes ∧ ∃ u : Table, Table.decode bytes = .ok u ∧
        u.seed = grown.seed ∧ u.capacity = grown.capacity ∧ u.size = grown.size ∧
        u.buckets.map Chain.keys = grown.buckets.map Chain.keys := by
  intro keys grown
  have hgrown : grown.Reachable := .remove _ (.ofList keys (by decide +kernel))
  have hok : grown.encode.isOk = true := by decide +kernel
  cases henc : grown.encode with
  | error e =>
    rw [henc] at hok
    cases hok
  | ok bytes => exact ⟨hgrown, by decide +kernel, bytes, rfl, hgrown.decode_of_encode henc⟩

/-- **A table has one image only**: bytes that hold a table are what it is written as, and no other
bytes hold a table with the same layout. -/
theorem encode_of_decode (h : Table.decode bytes = .ok t) :
    t.encode = .ok bytes ∧
      ∀ bytes' u, Table.decode bytes' = .ok u → u.layout = t.layout → bytes' = bytes := by
  -- Said of any image, since the second part needs it of two.
  have hwritten {bytes : List UInt8} {t : Table} (h : Table.decode bytes = .ok t) :
      t.encode = .ok bytes := by
    obtain ⟨l, henc, htable⟩ := decode_eq_ok_iff.mp h
    rwa [encode, Layout.layout_of_toTable htable]
  refine ⟨hwritten h, ?_⟩
  intro bytes' u hu hlayout
  have hsame : (.ok bytes' : Except EncodeError (List UInt8)) = .ok bytes := by
    rw [← hwritten hu, ← hwritten h, encode, hlayout, encode]
  exact Except.ok.inj hsame

/-- An image with one key, between empty buckets. -/
theorem encode_of_decode_single :
    let bytes : List UInt8 := Image.mark ++ [Image.version, 5, 0, 0, 0, 0, 0, 0, 0,
      32, 0, 0, 0, 0, 0, 0, 0, 1, 0, 0, 0, 0, 0, 0, 0] ++ List.replicate (100) 0 ++
      [1, 0, 0, 0, 1, 0, 0, 0, 0x61] ++ List.replicate (24) 0
    ∃ t : Table, Table.decode bytes = .ok t ∧ t.toList = [[0x61]] ∧ t.encode = .ok bytes ∧
      ∀ bytes' u, Table.decode bytes' = .ok u → u.layout = t.layout → bytes' = bytes := by
  intro bytes
  have hkeys : (Table.decode bytes).toOption.map Table.toList = some [[0x61]] := by decide +kernel
  cases h : Table.decode bytes with
  | error e =>
    rw [h] at hkeys
    cases hkeys
  | ok t =>
    rw [h] at hkeys
    obtain ⟨henc, hunique⟩ := encode_of_decode h
    exact ⟨t, rfl, Option.some.inj hkeys, henc, hunique⟩

end Table

end ChainedSet
