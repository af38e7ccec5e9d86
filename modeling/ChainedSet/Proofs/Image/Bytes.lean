import ChainedSet.Proofs.Image.RoundTrip

/-!
# The bytes of an image

An image written out: the header of 29 bytes, then every bucket as its count and its keys, every key
as its length and its bytes (`Layout.image`). It is what a layout is encoded as, and encoding fails
exactly if a count or a length does not fit four bytes (`Layout.encode_eq_ok_iff_image`).

Any layout that has an image can be read back from it, whether there is a table with it or not. The
bytes that are left always hold the buckets and keys that are announced, so only the checks of
`Layout.toTable` decide (`Table.decode_image`): a layout is accepted in this form exactly as it is
accepted field by field, and refused with the same fault.
-/

namespace ChainedSet

open Wire

/-- Whether a corruption is found by a guard, before the buckets or keys that are announced are
read. -/
def Corruption.ofGuard : Corruption → Bool
  | .capacityExceedsInput .. => true
  | .bucketExceedsInput _ => true
  | _ => false

namespace Image

/-! ## Parts of an image -/

/-- The bytes of a length prefix. -/
def lengthBytes (n : Nat) : List UInt8 := LittleEndian.encode 4 (UInt64.ofNat n)

/-- The bytes of a key. -/
def keyBytes (key : Key) : List UInt8 := lengthBytes key.length ++ key

/-- The bytes of a bucket. -/
def bucketBytes (keys : List Key) : List UInt8 := lengthBytes keys.length ++ keys.flatMap keyBytes

/-- A bucket whose count, and the lengths of whose keys, fit four bytes. -/
def BucketFits (keys : List Key) : Prop :=
  keys.length < Item.lengthBound ∧ ∀ key ∈ keys, key.length < Item.lengthBound

instance (keys : List Key) : Decidable (BucketFits keys) := inferInstanceAs (Decidable (_ ∧ _))

theorem mem_preambleForm {bytes : List UInt8} :
    bytes ∈ preambleForm ↔ mark ++ [version] = bytes := by
  rw [preambleForm, Language.mem_mul]
  constructor
  · rintro ⟨_, hmark, _, hversion, rfl⟩
    obtain rfl := Item.mem_form_bytes.mp hmark
    obtain rfl := Except.ok.inj (Item.mem_form.mp hversion)
    rfl
  · rintro rfl
    exact ⟨mark, Item.mem_form_bytes.mpr rfl, [version], rfl, rfl⟩

theorem mem_keyForm_iff (key : Key) (bytes : List UInt8) :
    bytes ∈ keyForm key ↔ key.length < Item.lengthBound ∧ keyBytes key = bytes := by
  rw [keyForm_eq, Language.mem_mul]
  constructor
  · rintro ⟨length, hlength, _, hkey, rfl⟩
    obtain ⟨hfits, rfl⟩ := Item.mem_form_length.mp hlength
    obtain rfl := Item.mem_form_bytes.mp hkey
    exact ⟨hfits, rfl⟩
  · rintro ⟨hfits, rfl⟩
    exact ⟨_, Item.mem_form_length.mpr ⟨hfits, rfl⟩, key, Item.mem_form_bytes.mpr rfl, rfl⟩

theorem mem_bucketForm_iff (keys : List Key) (bytes : List UInt8) :
    bytes ∈ bucketForm keys ↔ BucketFits keys ∧ bucketBytes keys = bytes := by
  rw [bucketForm_eq, Language.mem_mul]
  constructor
  · rintro ⟨count, hcount, body, hbody, rfl⟩
    obtain ⟨hfits, rfl⟩ := Item.mem_form_length.mp hcount
    obtain ⟨hkeys, rfl⟩ := (Item.mem_prod_iff mem_keyForm_iff).mp hbody
    exact ⟨⟨hfits, hkeys⟩, rfl⟩
  · rintro ⟨⟨hfits, hkeys⟩, rfl⟩
    exact ⟨_, Item.mem_form_length.mpr ⟨hfits, rfl⟩, _,
      (Item.mem_prod_iff mem_keyForm_iff).mpr ⟨hkeys, rfl⟩, rfl⟩

end Image

/-! ## Layouts -/

namespace Layout

open Image

variable {l : Layout}

/-- The bytes before the first bucket. -/
def header (l : Layout) : List UInt8 :=
  mark ++ [version] ++ LittleEndian.encode 8 l.seed ++ LittleEndian.encode 8 l.capacity
    ++ LittleEndian.encode 8 l.size

/-- The bytes of a layout. -/
def image (l : Layout) : List UInt8 := l.header ++ l.buckets.flatMap bucketBytes

/-- Every count and every length fits four bytes. -/
def Fits (l : Layout) : Prop := ∀ keys ∈ l.buckets, BucketFits keys

instance : Decidable l.Fits := inferInstanceAs (Decidable (∀ keys ∈ l.buckets, BucketFits keys))

/-- **A layout is encoded as its image**, if all its counts and lengths fit, and not at all
otherwise. -/
theorem encode_eq_ok_iff_image {bytes : List UInt8} :
    l.encode = .ok bytes ↔ l.Fits ∧ l.image = bytes := by
  simp only [encode_eq_ok_iff, Language.mem_mul, mem_preambleForm, Item.mem_form_u64,
    Item.mem_prod_iff mem_bucketForm_iff]
  constructor
  · rintro ⟨_, rfl, _, ⟨_, rfl, _, ⟨_, rfl, _, ⟨_, rfl, _, ⟨hfits, rfl⟩, rfl⟩, rfl⟩, rfl⟩, rfl⟩
    exact ⟨hfits, by simp [image, header]⟩
  · rintro ⟨hfits, rfl⟩
    exact ⟨_, rfl, _, ⟨_, rfl, _, ⟨_, rfl, _, ⟨_, rfl, _, ⟨hfits, rfl⟩, rfl⟩, rfl⟩, rfl⟩,
      by simp [image, header]⟩

theorem ofGuard_of_bucketFault? {keys : List Key} {bucket : Nat} {fault : Corruption}
    (h : l.bucketFault? keys bucket = some fault) : fault.ofGuard = false := by
  unfold bucketFault? at h
  split at h
  · cases h
    rfl
  split at h
  · cases h
    rfl
  · cases h

/-- The checks of a layout find nothing that is for a guard to find. -/
theorem ofGuard_of_fault? {fault : Corruption} (h : l.fault? = some fault) :
    fault.ofGuard = false := by
  simp only [fault?] at h
  split at h
  · cases h
    rfl
  split at h
  · cases h
    rfl
  split at h
  · cases h
    rfl
  split at h
  · next found hfound =>
    cases h
    obtain ⟨⟨keys, bucket⟩, -, hbucket⟩ := List.exists_of_findSome?_eq_some hfound
    exact ofGuard_of_bucketFault? hbucket
  split at h
  · cases h
    rfl
  · cases h

end Layout

/-! ## Tables -/

/-- **Decoding an image is validating its fields.** Whatever the fields are, as long as all counts
and lengths fit, they are read back from their image, with no guard in the way, and the outcome is
that of the checks on them: the table, or the very same fault. -/
theorem Table.decode_image {l : Layout} (hcapacity : l.buckets.length = l.capacity.toNat)
    (hfits : l.Fits) :
    l.encode = .ok l.image ∧ Layout.decode l.image = .ok l ∧
      Table.decode l.image = l.toTable.mapError .corrupted ∧
      ∀ fault, Table.decode l.image = .error (.corrupted fault) → fault.ofGuard = false := by
  have henc : l.encode = .ok l.image := Layout.encode_eq_ok_iff_image.mpr ⟨hfits, rfl⟩
  have hread : Layout.decode l.image = .ok l := Layout.decode_eq_ok_iff.mpr ⟨hcapacity, henc⟩
  have htable : Table.decode l.image = l.toTable.mapError .corrupted := by
    rw [Table.decode, hread]
    rfl
  refine ⟨henc, hread, htable, ?_⟩
  intro fault hfault
  rw [htable, Layout.toTable] at hfault
  split at hfault
  · next found hfound =>
    obtain rfl : found = fault := DecodeError.corrupted.inj (Except.error.inj hfault)
    exact Layout.ofGuard_of_fault? hfound
  · cases hfault

/-- Of two empty keys in one bucket, both of which belong elsewhere, the first is what is found. -/
theorem Table.decode_image_misplaced :
    let l : Layout := ⟨4, 32, 9, [[], []] :: List.replicate 31 []⟩
    l.buckets.length = l.capacity.toNat ∧ l.Fits ∧
      l.toTable = .error (.misplaced 0 17) ∧
      l.encode = .ok l.image ∧ Layout.decode l.image = .ok l ∧
      Table.decode l.image = l.toTable.mapError .corrupted ∧
      ∀ fault, Table.decode l.image = .error (.corrupted fault) → fault.ofGuard = false := by
  intro l
  have hcapacity : l.buckets.length = l.capacity.toNat := by decide +kernel
  have hfits : l.Fits := by decide +kernel
  exact ⟨hcapacity, hfits, by decide +kernel, Table.decode_image hcapacity hfits⟩

end ChainedSet
