import Mathlib.Data.List.Perm.Basic
import ChainedSet.Table.Json
import ChainedSet.Proofs.Json.Text
import ChainedSet.Proofs.Table.Reachable

/-!
# The JSON form undoes itself

The text of a layout is given by the texts of its four fields (`Layout.fieldTexts`): compact, and
with every number in decimal digits. `Table.ofJson` reads the layout back from it, whether the
fields stand in an object, in any order, or in an array. So the outcome is that of the checks on
the layout, and a reachable table comes back as it was (`Table.ofJson_fieldTexts`).

No number is rounded on the way, as a numeral is a word by its digits and not by its double
(`Layout.word?_jsonNat`).
-/

namespace ChainedSet

open Json

namespace Layout

/-! ## The parts of a layout are read back -/

theorem toNat_lt_wordBound (w : UInt64) : w.toNat < Numeral.wordBound := w.toNat_lt

theorem word?_jsonNat (w : UInt64) : word? (jsonNat w.toNat) = some w := by
  show (Numeral.ofNat w.toNat).word? = some w
  rw [Numeral.word?_ofNat (toNat_lt_wordBound w), UInt64.ofNat_toNat]

theorem byte?_jsonNat (b : UInt8) : byte? (jsonNat b.toNat) = some b := by
  have hword : word? (jsonNat b.toNat) = some b.toUInt64 := by
    rw [← UInt8.toNat_toUInt64]
    exact word?_jsonNat b.toUInt64
  have hlt : b.toUInt64 < 256 := by
    rw [UInt64.lt_iff_toNat_lt, UInt8.toNat_toUInt64]
    exact b.toNat_lt
  show (word? (jsonNat b.toNat)).bind
    (fun w => if w < 256 then some w.toUInt8 else none) = some b
  rw [hword, Option.bind_some, if_pos hlt, UInt8.toUInt8_toUInt64]

/-- What reads each item back reads the array of them back. -/
theorem items?_map {α : Type} {read : Value → Option α} {write : α → Value}
    (h : ∀ a, read (write a) = some a) (as : List α) :
    items? read (.array (as.map write)) = some as := by
  have hread : read ∘ write = fun a => pure (id a) := funext h
  show (as.map write).mapM read = some as
  rw [List.mapM_map, hread, List.mapM_pure, List.map_id]
  rfl

theorem buckets?_jsonBuckets (buckets : List (List Key)) :
    buckets? (jsonBuckets buckets) = some buckets :=
  items?_map (fun keys => items?_map (fun key => items?_map byte?_jsonNat key) keys) buckets

/-! ## The members of a layout -/

theorem lookup_eq_some_of_nodup {members : List (String × Value)} {name : String} {v : Value}
    (hnodup : (members.map Prod.fst).Nodup) (h : (name, v) ∈ members) :
    members.lookup name = some v := by
  obtain ⟨before, after, rfl⟩ := List.append_of_mem h
  refine List.lookup_eq_some_iff.mpr ⟨before, after, rfl, ?_⟩
  intro m hm
  rw [List.map_append, List.map_cons, List.nodup_append] at hnodup
  have hne := hnodup.2.2 m.1 (List.mem_map_of_mem hm) name List.mem_cons_self
  simpa using Ne.symm hne

variable {l : Layout} {members : List (String × Value)}

theorem map_fst_jsonMembers (l : Layout) :
    l.jsonMembers.map Prod.fst = ["seed", "capacity", "size", "buckets"] := rfl

/-- In whatever order the members stand, each is found by its name. -/
theorem member?_of_perm (h : members.Perm l.jsonMembers) {name : String} {v : Value}
    (hv : (name, v) ∈ l.jsonMembers) : member? members name = some v := by
  have hperm : members.reverse.Perm l.jsonMembers := (List.reverse_perm members).trans h
  have hnodup : (l.jsonMembers.map Prod.fst).Nodup := by
    rw [map_fst_jsonMembers]
    decide
  exact lookup_eq_some_of_nodup ((hperm.map Prod.fst).nodup_iff.mpr hnodup) (hperm.mem_iff.mpr hv)

theorem typed_eq_ok {α : Type} {name : String} {read : Value → Option α} {v : Value} {a : α}
    (h : member? members name = some v) (hread : read v = some a) :
    typed members name read = .ok (some a) := by
  rw [typed, h]
  simp only [hread]

/-- **The members of a layout are read back**, in whatever order they stand. -/
theorem ofMembers_of_perm (h : members.Perm l.jsonMembers) : ofMembers members = .ok l := by
  have hmembers : ∀ m ∈ l.jsonMembers, member? members m.1 = some m.2 := fun _ hm =>
    member?_of_perm h hm
  simp only [jsonMembers, List.forall_mem_cons] at hmembers
  obtain ⟨hseed, hcapacity, hsize, hbuckets, -⟩ := hmembers
  rw [ofMembers, typed_eq_ok hseed (word?_jsonNat l.seed),
    typed_eq_ok hcapacity (word?_jsonNat l.capacity), typed_eq_ok hsize (word?_jsonNat l.size),
    typed_eq_ok hbuckets (buckets?_jsonBuckets l.buckets)]
  rfl

/-- The four values are read back where they stand in order. -/
theorem ofJson_array_jsonMembers (l : Layout) :
    ofJson (.array (l.jsonMembers.map Prod.snd)) = .ok l := by
  have hitems : ofItems? (jsonNat l.seed.toNat) (jsonNat l.capacity.toNat) (jsonNat l.size.toNat)
      (jsonBuckets l.buckets) = some l := by
    rw [ofItems?, word?_jsonNat, word?_jsonNat, word?_jsonNat, buckets?_jsonBuckets]
    rfl
  rw [jsonMembers, List.map_cons, List.map_cons, List.map_cons, List.map_singleton, ofJson]
  simp only [hitems]

/-! ## The text of a layout -/

theorem writable_jsonNat {n : Nat} (h : n < Numeral.wordBound) (room : Nat) :
    Value.Writable room (jsonNat n) :=
  .number room (Numeral.wellFormed_ofNat n) (Numeral.fits_ofNat h)

theorem writable_jsonKey (key : Key) (room : Nat) : Value.Writable (room + 1) (jsonKey key) := by
  apply Value.Writable.array
  intro v hv
  obtain ⟨byte, -, rfl⟩ := List.mem_map.mp hv
  exact writable_jsonNat (Nat.lt_trans byte.toNat_lt (by decide)) room

theorem writable_jsonBuckets (buckets : List (List Key)) (room : Nat) :
    Value.Writable (room + 3) (jsonBuckets buckets) := by
  apply Value.Writable.array
  intro v hv
  obtain ⟨keys, -, rfl⟩ := List.mem_map.mp hv
  apply Value.Writable.array
  intro w hw
  obtain ⟨key, -, rfl⟩ := List.mem_map.mp hw
  exact writable_jsonKey key room

theorem writable_of_mem_jsonMembers {m : String × Value} (h : m ∈ l.jsonMembers) (room : Nat) :
    Value.Writable (room + 3) m.2 := by
  simp only [jsonMembers, List.mem_cons, List.not_mem_nil, or_false] at h
  rcases h with rfl | rfl | rfl | rfl
  · exact writable_jsonNat (toNat_lt_wordBound l.seed) _
  · exact writable_jsonNat (toNat_lt_wordBound l.capacity) _
  · exact writable_jsonNat (toNat_lt_wordBound l.size) _
  · exact writable_jsonBuckets l.buckets room

theorem isPlain_of_mem_jsonMembers {m : String × Value} (h : m ∈ l.jsonMembers) :
    Value.IsPlain m.1 := by
  have hname : m.1 ∈ l.jsonMembers.map Prod.fst := List.mem_map_of_mem h
  rw [map_fst_jsonMembers] at hname
  have hplain : ∀ name ∈ ["seed", "capacity", "size", "buckets"], Value.IsPlain name := by
    decide
  exact hplain m.1 hname

/-- The text of a key: the array of its bytes in decimal. -/
def keyText (key : Key) : String := listText (key.map fun byte => toString byte.toNat)

/-- The text of the buckets: the array of the arrays of their keys. -/
def bucketsText (buckets : List (List Key)) : String :=
  listText (buckets.map fun keys => listText (keys.map keyText))

/-- The names and texts of the four fields. -/
def fieldTexts (l : Layout) : List (String × String) :=
  [("seed", toString l.seed.toNat), ("capacity", toString l.capacity.toNat),
    ("size", toString l.size.toNat), ("buckets", bucketsText l.buckets)]

theorem render_jsonNat (n : Nat) : (jsonNat n).render = toString n := by
  apply String.toList_inj.mp
  rw [Value.toList_render, Nat.toString_eq_ofList_toDigits, String.toList_ofList]
  simp [jsonNat, Value.chars, Value.tokens, Token.text, Numeral.ofNat, Numeral.text]

theorem render_jsonKey (key : Key) : (jsonKey key).render = keyText key := by
  rw [jsonKey, Value.render_array, List.map_map]
  exact congrArg listText (List.map_congr_left fun byte _ => render_jsonNat byte.toNat)

theorem render_jsonBuckets (buckets : List (List Key)) :
    (jsonBuckets buckets).render = bucketsText buckets := by
  rw [jsonBuckets, Value.render_array, List.map_map]
  refine congrArg listText (List.map_congr_left fun keys _ => ?_)
  rw [Function.comp_apply, Value.render_array, List.map_map]
  exact congrArg listText (List.map_congr_left fun key _ => render_jsonKey key)

theorem map_render_jsonMembers (l : Layout) :
    l.jsonMembers.map (fun m => (m.1, m.2.render)) = l.fieldTexts := by
  simp [jsonMembers, fieldTexts, render_jsonNat, render_jsonBuckets]

/-- The JSON form is written as the object of the four fields. -/
theorem render_toJson (l : Layout) : l.toJson.render = objectText l.fieldTexts := by
  rw [toJson, Value.render_object fun m hm => isPlain_of_mem_jsonMembers hm,
    map_render_jsonMembers]

example : objectText (fieldTexts ⟨4, 32, 1, [[], [[], [0x61, 0xff]]]⟩) =
    "\x7b\"seed\":4,\"capacity\":32,\"size\":1,\"buckets\":[[],[[],[97,255]]]\x7d" := by
  decide

theorem parse?_objectText {fields : List (String × String)} (h : fields.Perm l.fieldTexts) :
    ∃ members : List (String × Value), members.Perm l.jsonMembers ∧
      Value.parse? (objectText fields) = some (.object members) := by
  have hcomp : Relation.Comp (fun xs ys => xs = List.map (fun m => (m.1, m.2.render)) ys)
      List.Perm fields l.jsonMembers := by
    rw [List.eq_map_comp_perm]
    show fields.Perm (l.jsonMembers.map fun m => (m.1, m.2.render))
    rwa [map_render_jsonMembers]
  obtain ⟨members, rfl, hperm⟩ := hcomp
  refine ⟨members, hperm, ?_⟩
  have hwritable : Value.Writable Value.maxDepth (.object members) :=
    .object fun m hm => writable_of_mem_jsonMembers (hperm.mem_iff.mp hm) 123
  rw [← Value.render_object fun m hm => isPlain_of_mem_jsonMembers (hperm.mem_iff.mp hm)]
  exact Value.parse?_render hwritable

theorem parse?_listText (l : Layout) :
    Value.parse? (listText (l.fieldTexts.map Prod.snd)) =
      some (.array (l.jsonMembers.map Prod.snd)) := by
  have hwritable : Value.Writable Value.maxDepth (.array (l.jsonMembers.map Prod.snd)) := by
    apply Value.Writable.array
    intro v hv
    obtain ⟨m, hm, rfl⟩ := List.mem_map.mp hv
    exact writable_of_mem_jsonMembers hm 123
  have htexts : l.fieldTexts.map Prod.snd = (l.jsonMembers.map Prod.snd).map Value.render := by
    rw [← map_render_jsonMembers, List.map_map, List.map_map]
    rfl
  rw [htexts, ← Value.render_array]
  exact Value.parse?_render hwritable

end Layout

namespace Table

/-- Once the text and the layout are read, the checks on the layout decide. -/
theorem ofJson_of_layout {text : String} {v : Value} {l : Layout}
    (hparse : Value.parse? text = some v) (hlayout : Layout.ofJson v = .ok l) :
    Table.ofJson text = l.toTable.mapError .refused := by
  rw [Table.ofJson, hparse]
  simp only [hlayout]
  rfl

theorem ofJson_objectText {l : Layout} {fields : List (String × String)}
    (h : fields.Perm l.fieldTexts) :
    Table.ofJson (objectText fields) = l.toTable.mapError .refused := by
  obtain ⟨members, hperm, hparse⟩ := Layout.parse?_objectText h
  exact ofJson_of_layout hparse (Layout.ofMembers_of_perm hperm)

theorem ofJson_listText (l : Layout) :
    Table.ofJson (listText (l.fieldTexts.map Prod.snd)) = l.toTable.mapError .refused :=
  ofJson_of_layout l.parse?_listText l.ofJson_array_jsonMembers

/-- **The JSON form is lossless.** From the compact text of any four fields comes the outcome of the
checks on these fields, be it an object with the fields in whatever order or an array of their
values. A table is written as such an object. So a reachable table comes back from its JSON form
with the same seed, capacity and size, and in every bucket the same keys in the same order. -/
theorem ofJson_fieldTexts :
    (∀ l : Layout,
      (∀ fields : List (String × String), fields.Perm l.fieldTexts →
        Table.ofJson (objectText fields) = l.toTable.mapError .refused) ∧
      Table.ofJson (listText (l.fieldTexts.map Prod.snd)) = l.toTable.mapError .refused) ∧
    (∀ t : Table, t.toJson = objectText t.layout.fieldTexts) ∧
    ∀ t : Table, t.Reachable →
      ∃ u, Table.ofJson t.toJson = .ok u ∧
        u.seed = t.seed ∧ u.capacity = t.capacity ∧ u.size = t.size ∧
        u.buckets.map Chain.keys = t.buckets.map Chain.keys := by
  refine ⟨?_, ?_, ?_⟩
  · intro l
    exact ⟨fun fields h => ofJson_objectText h, ofJson_listText l⟩
  · intro t
    exact t.layout.render_toJson
  · intro t ht
    have htable : Table.ofJson t.toJson = .ok t.clone := by
      rw [toJson, Layout.render_toJson, ofJson_objectText (List.Perm.refl _),
        ht.sound.toTable_layout]
      rfl
    exact ⟨t.clone, htable, rfl, rfl, rfl, t.map_keys_clone⟩

/-- Two keys in a table, and the same keys under a wrong size with the fields the other way round. -/
theorem ofJson_fieldTexts_reversed :
    let t := (ofList [[], [0x61, 0x62]]).state
    let l : Layout := { t.layout with size := 9 }
    (l.fieldTexts.reverse.Perm l.fieldTexts ∧
      l.toTable = .error (.sizeMismatch 9 2) ∧
      Table.ofJson (objectText l.fieldTexts.reverse) = .error (.refused (.sizeMismatch 9 2)) ∧
      Table.ofJson (listText (l.fieldTexts.map Prod.snd)) =
        .error (.refused (.sizeMismatch 9 2))) ∧
    t.Reachable ∧ ∃ u, Table.ofJson (objectText t.layout.fieldTexts) = .ok u ∧
      u.seed = t.seed ∧ u.capacity = t.capacity ∧ u.size = t.size ∧
      u.buckets.map Chain.keys = t.buckets.map Chain.keys := by
  intro t l
  obtain ⟨hfields, hwritten, hreachable⟩ := ofJson_fieldTexts
  have ht : t.Reachable := .ofList _ (by decide +kernel)
  have hperm : l.fieldTexts.reverse.Perm l.fieldTexts := List.reverse_perm _
  have hwrong : l.toTable = .error (.sizeMismatch 9 2) := by decide +kernel
  obtain ⟨hobject, harray⟩ := hfields l
  have hread := hobject _ hperm
  have hback := hreachable t ht
  rw [hwrong] at hread harray
  rw [hwritten] at hback
  exact ⟨⟨hperm, hwrong, hread, harray⟩, ht, hback⟩

end Table

end ChainedSet
