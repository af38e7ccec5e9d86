import ChainedSet.Proofs.Image.Bytes
import ChainedSet.Proofs.Table.Alike
import ChainedSet.Proofs.Table.Order

/-!
# Bulk loading

Keys that are added in bulk may come in any order, and some of them more than once. The tables that
come of it grow at different keys, and the tables in between are not the same; but in the end they
are alike (`Alike.extend_of_mem_iff`), and of the same seed. Then every chain of the one has the keys
of that chain of the other, in whatever order (`Alike.rows_perm`): both are laid out from their keys,
which are the same. So their images are made of the same parts (`Layout.image_perm`).

The main statement is `extend_interchangeable`, for a table that is added to and for a new one.
-/

namespace ChainedSet

/-! ## Rows in another order -/

theorem scatteredRows_perm (seed : UInt64) (capacity : Nat) {keys keys' : List Key}
    (h : keys.Perm keys') :
    List.Forall₂ List.Perm (scatteredRows seed capacity keys)
      (scatteredRows seed capacity keys') := by
  rw [scatteredRows, scatteredRows, List.forall₂_map_left_iff, List.forall₂_map_right_iff,
    List.forall₂_same]
  intro bucket _
  exact h.filter _

namespace Image

theorem bucketFits_iff_of_perm {keys keys' : List Key} (h : keys.Perm keys') :
    BucketFits keys ↔ BucketFits keys' := by
  rw [BucketFits, BucketFits, h.length_eq]
  simp only [h.mem_iff]

theorem bucketBytes_perm {keys keys' : List Key} (h : keys.Perm keys') :
    (bucketBytes keys).Perm (bucketBytes keys') := by
  rw [bucketBytes, bucketBytes, h.length_eq]
  exact (h.flatMap_right keyBytes).append_left _

variable {rows rows' : List (List Key)}

theorem forall_bucketFits_iff (h : List.Forall₂ List.Perm rows rows') :
    (∀ keys ∈ rows, BucketFits keys) ↔ ∀ keys ∈ rows', BucketFits keys := by
  induction h with
  | nil => rfl
  | cons hkeys _ ih =>
    rw [List.forall_mem_cons, List.forall_mem_cons, bucketFits_iff_of_perm hkeys, ih]

theorem flatMap_bucketBytes_perm (h : List.Forall₂ List.Perm rows rows') :
    (rows.flatMap bucketBytes).Perm (rows'.flatMap bucketBytes) := by
  induction h with
  | nil => exact .refl _
  | cons hkeys _ ih =>
    rw [List.flatMap_cons, List.flatMap_cons]
    exact (bucketBytes_perm hkeys).append ih

end Image

namespace Layout

open Image

variable {l m : Layout}

theorem fits_iff_of_perm (h : List.Forall₂ List.Perm l.buckets m.buckets) : l.Fits ↔ m.Fits :=
  forall_bucketFits_iff h

/-- Images of layouts with the same numbers and, bucket by bucket, the same keys have the same bytes,
in whatever order. -/
theorem image_perm (hheader : l.header = m.header)
    (h : List.Forall₂ List.Perm l.buckets m.buckets) : l.image.Perm m.image := by
  rw [image, image, hheader]
  exact (flatMap_bucketBytes_perm h).append_left _

theorem toOption_encode (l : Layout) : l.encode.toOption = if l.Fits then some l.image else none := by
  by_cases hfits : l.Fits
  · rw [if_pos hfits, encode_eq_ok_iff_image.mpr ⟨hfits, rfl⟩]
    rfl
  · rw [if_neg hfits]
    cases hencode : l.encode with
    | error e => rfl
    | ok bytes => exact absurd (encode_eq_ok_iff_image.mp hencode).1 hfits

end Layout

namespace Table

variable {t u : Table}

/-! ## Tables that differ in the order of their chains -/

/-- Two tables that differ in the order of the keys within their chains, and in nothing else that is
kept. -/
structure Interchangeable (t u : Table) : Prop where
  seed_eq : t.seed = u.seed
  size_eq : t.size = u.size
  capacity_eq : t.capacity = u.capacity
  /-- They have the same number of chains, and in every chain the same keys. -/
  rows_perm : List.Forall₂ List.Perm t.rows u.rows
  mem_toList_iff : ∀ key, key ∈ t.toList ↔ key ∈ u.toList
  /-- Their images have the same length, if they have any. -/
  length_encode_eq : t.encode.toOption.map List.length = u.encode.toOption.map List.length

theorem Alike.rows_perm (h : t.Alike u) (hseed : t.seed = u.seed) :
    List.Forall₂ List.Perm t.rows u.rows := by
  rw [h.left.inOrder_toList.rows_eq, h.right.inOrder_toList.rows_eq, hseed, h.capacity_eq]
  exact scatteredRows_perm u.seed u.capacity h.perm

theorem Alike.interchangeable (h : t.Alike u) (hseed : t.seed = u.seed) : Interchangeable t u where
  seed_eq := hseed
  size_eq := h.size_eq
  capacity_eq := h.capacity_eq
  rows_perm := h.rows_perm hseed
  mem_toList_iff := fun _ => h.perm.mem_iff
  length_encode_eq := by
    have hbuckets : List.Forall₂ List.Perm t.layout.buckets u.layout.buckets := h.rows_perm hseed
    have hheader : t.layout.header = u.layout.header := by
      simp only [Layout.header, layout, hseed, h.size_eq, h.capacity_eq]
    rw [encode, encode, Layout.toOption_encode, Layout.toOption_encode]
    by_cases hfits : t.layout.Fits
    · rw [if_pos hfits, if_pos ((Layout.fits_iff_of_perm hbuckets).mp hfits), Option.map_some,
        Option.map_some, (Layout.image_perm hheader hbuckets).length_eq]
    · rw [if_neg hfits, if_neg (mt (Layout.fits_iff_of_perm hbuckets).mpr hfits)]

/-! ## Adding keys -/

theorem Sound.interchangeable_extend (h : t.Sound) {keys keys' : List Key}
    (hkeys : ∀ key, key ∈ keys ↔ key ∈ keys') (hsize : (t.extend keys).state.size < 2 ^ 53) :
    Interchangeable (t.extend keys).state (t.extend keys').state := by
  have halike := ((Alike.refl h).extend_of_mem_iff hkeys hsize).state
  apply halike.interchangeable
  rw [seed_extend, seed_extend]

/-- **Bulk loading is insensitive to order and repetition.** Two lists of the same keys, in any order
and with any repetitions, that are added to a table or made a table of, leave tables with the same
numbers, the same keys in every chain, and images of the same length. -/
theorem extend_interchangeable {keys keys' : List Key} (hkeys : ∀ key, key ∈ keys ↔ key ∈ keys') :
    (∀ t : Table, t.Reachable → (t.extend keys).state.size < 2 ^ 53 →
      Interchangeable (t.extend keys).state (t.extend keys').state) ∧
    ((ofList keys).state.size < 2 ^ 53 →
      Interchangeable (ofList keys).state (ofList keys').state) := by
  constructor
  · intro t ht hsize
    exact ht.sound.interchangeable_extend hkeys hsize
  · intro hsize
    exact (sound_withSeed Murmur.defaultSeed).interchangeable_extend hkeys hsize

/-- Thirty keys, and the same keys backwards with ten of them first and once more, which grows at
another key. -/
theorem extend_interchangeable_backwards :
    let keys : List Key := (List.range 30).map fun n => [UInt8.ofNat n]
    let keys' := keys.take 10 ++ keys.reverse
    let t := ((withSeed 9).extend [[5], [40]]).state
    (∀ key, key ∈ keys ↔ key ∈ keys') ∧ t.Reachable ∧
      (t.extend keys).state.size < 2 ^ 53 ∧ (ofList keys).state.size < 2 ^ 53 ∧
      (ofList keys).state.capacity = 64 ∧ (ofList keys).state.rows ≠ (ofList keys').state.rows ∧
      Interchangeable (t.extend keys).state (t.extend keys').state ∧
      Interchangeable (ofList keys).state (ofList keys').state := by
  intro keys keys' t
  have hkeys : ∀ key, key ∈ keys ↔ key ∈ keys' := by
    intro key
    rw [List.mem_append, List.mem_reverse]
    exact ⟨Or.inr, fun h => h.elim List.mem_of_mem_take id⟩
  have ht : t.Reachable := .extend _ (.withSeed 9) (by decide +kernel)
  have hadded : (t.extend keys).state.size < 2 ^ 53 := by decide +kernel
  have hmade : (ofList keys).state.size < 2 ^ 53 := by decide +kernel
  obtain ⟨hextend, hofList⟩ := extend_interchangeable hkeys
  exact ⟨hkeys, ht, hadded, hmade, by decide +kernel, by decide +kernel, hextend t ht hadded,
    hofList hmade⟩

end Table

end ChainedSet
