import Mathlib.Algebra.BigOperators.Group.List.Basic
import ChainedSet.Proofs.Image.Bytes
import ChainedSet.Proofs.Table.Reachable

/-!
# Lengths in an image

The only thing that can stand in the way of an image is a length that four bytes cannot hold. An
image has a length before each bucket and one before each key, and they are written in order
(`Layout.lengths`), so the first that does not fit is the one that the error names
(`Layout.encode_eq_error_iff`).

If all of them fit, the size of the image depends on nothing but these lengths, and it is known
before the first byte is written (`Layout.length_image`, `Layout.room_eq_length_image`). Nothing of
this needs a well-formed table: it is enough that there are as many buckets as the capacity says.
-/

namespace ChainedSet

open Wire

namespace Wire

namespace Item

/-- The length that an item is a prefix for. -/
def length? : Item → Option (LengthField × Nat)
  | .length field n => some (field, n)
  | _ => none

/-- The error of a length that four bytes cannot hold. -/
def overflow? (l : LengthField × Nat) : Option EncodeError :=
  if l.2 < lengthBound then none else some (.lengthOverflow l.1 l.2)

theorem overflow?_eq_none_iff {l : LengthField × Nat} :
    overflow? l = none ↔ l.2 < lengthBound := by
  simp [overflow?]

theorem overflow?_eq_some_iff {l : LengthField × Nat} {field : LengthField} {n : Nat} :
    overflow? l = some (.lengthOverflow field n) ↔ l = (field, n) ∧ lengthBound ≤ n := by
  rw [overflow?, Prod.ext_iff]
  grind

/-- **Encoding fails at the first length that does not fit**, and only there. -/
theorem encodeAll_eq_error_iff {items : List Item} {e : EncodeError} :
    encodeAll items = .error e ↔ (items.filterMap length?).findSome? overflow? = some e := by
  induction items with
  | nil => simp [encodeAll, pure, Except.pure, bind, Except.bind]
  | cons item items ih =>
    have hpass : ∀ {part : List UInt8}, item.encode = .ok part →
        (encodeAll (item :: items) = .error e ↔ encodeAll items = .error e) := by
      intro part hpart
      rw [encodeAll_cons, hpart]
      show ((encodeAll items).bind fun parts => .ok (part ++ parts)) = _ ↔ _
      cases encodeAll items <;> simp [Except.bind]
    cases item with
    | bytes bs => rw [hpass rfl, ih]; rfl
    | u8 n => rw [hpass rfl, ih]; rfl
    | u64 n => rw [hpass rfl, ih]; rfl
    | length field n =>
      by_cases hn : n < lengthBound
      · rw [hpass (by rw [encode, if_pos hn]), ih]
        simp [length?, overflow?, hn]
      · rw [encodeAll_cons, encode, if_neg hn]
        simp [length?, overflow?, hn, bind, Except.bind]

end Item

end Wire

/-! ## Layouts -/

/-- A total that is kept along a list is a sum. -/
theorem foldl_add_eq_sum {α : Type} (f : α → Nat) (l : List α) :
    l.foldl (fun total a => total + f a) 0 = (l.map f).sum := by
  rw [List.sum_eq_foldl, List.foldl_map]

namespace Image

/-- The lengths in the image of a bucket: the number of its keys, and the length of each. -/
def bucketLengths (keys : List Key) : List (LengthField × Nat) :=
  (.bucket, keys.length) :: keys.map fun key => (.element, key.length)

theorem filterMap_length?_bucketItems (keys : List Key) :
    (bucketItems keys).filterMap Item.length? = bucketLengths keys := by
  have hkeys : (keys.flatMap keyItems).filterMap Item.length? =
      keys.map fun key => (.element, key.length) := by
    rw [List.filterMap_flatMap, List.map_eq_flatMap]
    rfl
  rw [bucketLengths, ← hkeys]
  rfl

theorem length_bucketBytes (keys : List Key) :
    (bucketBytes keys).length = 4 + (keys.map fun key => 4 + key.length).sum := by
  simp [bucketBytes, lengthBytes, keyBytes, List.length_flatMap]

theorem bucketRoom_eq_length_bucketBytes (keys : List Key) :
    bucketRoom keys = (bucketBytes keys).length := by
  rw [bucketRoom, foldl_add_eq_sum, length_bucketBytes]
  rfl

end Image

namespace Layout

open Image

variable {l : Layout}

/-- The lengths in the image of a layout, in the order in which they are written. -/
def lengths (l : Layout) : List (LengthField × Nat) := l.buckets.flatMap bucketLengths

theorem mem_lengths_iff {entry : LengthField × Nat} :
    entry ∈ l.lengths ↔
      (∃ keys ∈ l.buckets, entry = (.bucket, keys.length)) ∨
        ∃ key ∈ l.buckets.flatten, entry = (.element, key.length) := by
  simp only [lengths, bucketLengths, List.mem_flatMap, List.mem_cons, List.mem_map,
    List.mem_flatten]
  grind

theorem filterMap_length?_items (l : Layout) : (items l).filterMap Item.length? = l.lengths := by
  rw [items, List.filterMap_append, List.filterMap_flatMap]
  simp only [filterMap_length?_bucketItems]
  rfl

theorem encode_eq_error_iff_findSome? {e : EncodeError} :
    l.encode = .error e ↔ l.lengths.findSome? Item.overflow? = some e := by
  rw [encode, Item.encodeAll_eq_error_iff, filterMap_length?_items]

/-- **The error names the first length that does not fit.** -/
theorem encode_eq_error_iff {field : LengthField} {n : Nat} :
    l.encode = .error (.lengthOverflow field n) ↔
      ∃ before after, l.lengths = before ++ (field, n) :: after ∧
        (∀ entry ∈ before, entry.2 < Item.lengthBound) ∧ Item.lengthBound ≤ n := by
  simp only [encode_eq_error_iff_findSome?, List.findSome?_eq_some_iff,
    Item.overflow?_eq_some_iff, Item.overflow?_eq_none_iff]
  constructor
  · rintro ⟨before, _, after, hsplit, ⟨rfl, hn⟩, hbefore⟩
    exact ⟨before, after, hsplit, hbefore, hn⟩
  · rintro ⟨before, after, hsplit, hbefore, hn⟩
    exact ⟨before, _, after, hsplit, ⟨rfl, hn⟩, hbefore⟩

/-- There is an error if the number of keys of a bucket, or the length of a key, does not fit. -/
theorem exists_encode_eq_error_iff :
    (∃ e, l.encode = .error e) ↔
      (∃ keys ∈ l.buckets, Item.lengthBound ≤ keys.length) ∨
        ∃ key ∈ l.buckets.flatten, Item.lengthBound ≤ key.length := by
  simp only [encode_eq_error_iff_findSome?]
  rw [← Option.ne_none_iff_exists', ne_eq, List.findSome?_eq_none_iff]
  simp only [Item.overflow?_eq_none_iff]
  constructor
  · intro h
    push Not at h
    obtain ⟨_, hmem, hn⟩ := h
    rcases mem_lengths_iff.mp hmem with ⟨keys, hkeys, rfl⟩ | ⟨key, hkey, rfl⟩
    · exact .inl ⟨keys, hkeys, hn⟩
    · exact .inr ⟨key, hkey, hn⟩
  · rintro (⟨keys, hkeys, hn⟩ | ⟨key, hkey, hn⟩) h
    · exact Nat.not_lt.mpr hn (h _ (mem_lengths_iff.mpr (.inl ⟨keys, hkeys, rfl⟩)))
    · exact Nat.not_lt.mpr hn (h _ (mem_lengths_iff.mpr (.inr ⟨key, hkey, rfl⟩)))

theorem length_header (l : Layout) : l.header.length = headerLength := by
  simp [header, headerLength]

theorem length_image_eq_sum (l : Layout) :
    l.image.length = headerLength + (l.buckets.map fun keys => (bucketBytes keys).length).sum := by
  rw [image, List.length_append, length_header, List.length_flatMap]

/-- **The room for an image is its size**, whatever the lengths. -/
theorem room_eq_length_image (l : Layout) : room l = l.image.length := by
  simp only [room, foldl_add_eq_sum, bucketRoom_eq_length_bucketBytes, length_image_eq_sum]

/-- The size of an image, from the number of buckets and the lengths of the keys. -/
theorem length_image (l : Layout) :
    l.image.length =
      29 + 4 * l.buckets.length + (l.buckets.flatten.map fun key => 4 + key.length).sum := by
  rw [length_image_eq_sum]
  simp only [length_bucketBytes]
  rw [List.sum_map_add, List.map_flatten, List.sum_flatten, List.map_map]
  simp [headerLength, mark, Function.comp_def]
  omega

end Layout

/-! ## Tables -/

namespace Table

theorem exists_chain_iff_exists_row (t : Table) (p : List Key → Prop) :
    (∃ bucket < t.buckets.size, p (t.chain bucket).keys) ↔ ∃ keys ∈ t.rows, p keys := by
  simp only [keys_chain, ← getElem?_rows, List.mem_iff_getElem?, ← length_rows]
  constructor
  · rintro ⟨bucket, hlt, hp⟩
    rw [List.getElem?_eq_getElem hlt] at hp
    exact ⟨_, ⟨bucket, List.getElem?_eq_getElem hlt⟩, hp⟩
  · rintro ⟨keys, ⟨bucket, hkeys⟩, hp⟩
    obtain ⟨hlt, -⟩ := List.getElem?_eq_some_iff.mp hkeys
    exact ⟨bucket, hlt, by rwa [hkeys]⟩

theorem flatten_buckets_layout (t : Table) : t.layout.buckets.flatten = t.toList :=
  (toList_eq_flatten_rows t).symm

section

variable {t : Table}

/-- There is an error if the number of keys of a bucket, or the length of a key, does not fit. All
that is asked of the table is that it has as many buckets as its capacity says. -/
theorem exists_encode_eq_error_iff (hbuckets : t.buckets.size = t.capacity) :
    (∃ e, t.encode = .error e) ↔
      (∃ bucket < t.capacity, 0xffffffff < (t.chain bucket).keys.length) ∨
        ∃ key ∈ t.toList, 0xffffffff < key.length := by
  rw [← hbuckets, exists_chain_iff_exists_row t fun keys => 0xffffffff < keys.length,
    ← flatten_buckets_layout]
  exact Layout.exists_encode_eq_error_iff

/-- The error names the first length that does not fit, in the order in which they are written. -/
theorem encode_eq_error_iff {field : LengthField} {n : Nat} :
    t.encode = .error (.lengthOverflow field n) ↔
      ∃ before after, t.layout.lengths = before ++ (field, n) :: after ∧
        (∀ entry ∈ before, entry.2 ≤ 0xffffffff) ∧ 0xffffffff < n := by
  rw [encode, Layout.encode_eq_error_iff]
  simp only [Item.lengthBound, Nat.lt_succ_iff, Nat.succ_le_iff]

/-- The size of the image of a table, from its capacity and the lengths of its keys. -/
theorem length_of_encode (hbuckets : t.buckets.size = t.capacity) {bytes : List UInt8}
    (h : t.encode = .ok bytes) :
    bytes.length = 29 + 4 * t.capacity + (t.toList.map fun key => 4 + key.length).sum := by
  obtain ⟨-, rfl⟩ := Layout.encode_eq_ok_iff_image.mp h
  rw [Layout.length_image, flatten_buckets_layout, ← hbuckets, ← length_rows]
  rfl

/-- The room for the image of a table is what the image takes. -/
theorem length_eq_room_of_encode {bytes : List UInt8} (h : t.encode = .ok bytes) :
    bytes.length = Image.room t.layout := by
  obtain ⟨-, rfl⟩ := Layout.encode_eq_ok_iff_image.mp h
  exact (Layout.room_eq_length_image _).symm

end

/-- **Encoding fails exactly if a length does not fit, and names the first one; and the room for an
image is its size.** Lengths are visited bucket by bucket, the number of keys first and then the
length of each key in the order of the chain. -/
theorem Reachable.encode_fails_iff {t : Table} (h : t.Reachable) :
    ((∃ e, t.encode = .error e) ↔
      (∃ bucket < t.capacity, 0xffffffff < (t.chain bucket).keys.length) ∨
        ∃ key ∈ t.toList, 0xffffffff < key.length) ∧
    (∀ field n, t.encode = .error (.lengthOverflow field n) ↔
      ∃ before after, t.layout.lengths = before ++ (field, n) :: after ∧
        (∀ entry ∈ before, entry.2 ≤ 0xffffffff) ∧ 0xffffffff < n) ∧
    ∀ bytes, t.encode = .ok bytes →
      bytes.length = 29 + 4 * t.capacity + (t.toList.map fun key => 4 + key.length).sum ∧
        bytes.length = Image.room t.layout := by
  have hbuckets : t.buckets.size = t.capacity := by
    rw [← length_rows, h.sound.wellFormed.wellPlaced.length_eq]
  refine ⟨exists_encode_eq_error_iff hbuckets, fun field n => encode_eq_error_iff, ?_⟩
  intro bytes hbytes
  exact ⟨length_of_encode hbuckets hbytes, length_eq_room_of_encode hbytes⟩

/-- A set with a single key, which is one byte too long. -/
theorem encode_fails_iff_long_key :
    let key : Key := List.replicate 0x100000000 0
    let t := (empty.insert key).state
    t.Reachable ∧ t.encode = .error (.lengthOverflow .element 0x100000000) := by
  intro key t
  have hkey : key.length = 0x100000000 := List.length_replicate
  clear_value key
  have hsize : t.size ≤ 1 := empty.size_insert_le key
  have hreach : t.Reachable := .insert key (.withSeed _) (Nat.lt_of_le_of_lt hsize (by decide))
  have hmem : ∀ other, other ∈ t.toList ↔ other = key := fun other => by
    show other ∈ ((withSeed Murmur.defaultSeed).insert key).state.toList ↔ other = key
    rw [(wellFormed_withSeed _).mem_toList_insert, toList_withSeed]
    simp
  obtain ⟨hfails, hfirst, -⟩ := hreach.encode_fails_iff
  obtain ⟨⟨field, n⟩, herror⟩ := hfails.mpr (.inr ⟨key, (hmem key).mpr rfl, by omega⟩)
  obtain ⟨before, after, hsplit, -, hn⟩ := (hfirst field n).mp herror
  have hentry : (field, n) ∈ t.layout.lengths := by simp [hsplit]
  refine ⟨hreach, ?_⟩
  rcases Layout.mem_lengths_iff.mp hentry with ⟨keys, hkeys, heq⟩ | ⟨other, hother, heq⟩
  · -- No bucket has so many keys, as the whole set has one.
    have hle : keys.length ≤ t.layout.buckets.flatten.length :=
      (List.sublist_flatten_of_mem hkeys).length_le
    rw [flatten_buckets_layout, ← hreach.sound.wellFormed.size_eq_length] at hle
    cases heq
    omega
  · rw [flatten_buckets_layout, hmem] at hother
    cases heq
    rw [herror, hother, hkey]

end Table

end ChainedSet
