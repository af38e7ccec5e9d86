import ChainedSet.Proofs.Image.Bytes
import ChainedSet.Proofs.Wire.Prolong

/-!
# Images that go on

How the outcome of decoding an input bears on longer input (`Table.persists_decode`). Every field is
read steadily and a guard that lets a short input through lets a longer one through, so nothing that
was read changes when bytes are added. What may change is the outcome of a guard, of which nothing
is said, and whether the input ends where the last bucket does.

From this comes that short reads are honest: fewer bytes than are asked for never do
(`Table.decode_append`).
-/

namespace ChainedSet

open Wire

namespace Image

/-- A guard on the bytes that are left lets more through when there are more of them. -/
theorem lt_of_remaining_prolong_lt {c : Cursor} {more : List UInt8} {n : Nat}
    (h : (c.prolong more).remaining / prefixLength < n) : c.remaining / prefixLength < n := by
  refine Nat.lt_of_le_of_lt (Nat.div_le_div_right ?_) h
  rw [Cursor.remaining_prolong]
  exact Nat.le_add_right _ _

theorem steady_readKey {F : Corruption → Prop} : Steady F readKey := by
  intro c more
  refine Steady.length.bind fun n d hd => ?_
  rw [← hd]
  exact Steady.take n d more

theorem steady_readBucket :
    Steady (fun fault => ∃ count, fault = .bucketExceedsInput count) readBucket := by
  intro c more
  refine Steady.length.bind fun count d hd => ?_
  rw [← hd]
  refine .guard lt_of_remaining_prolong_lt ⟨count, rfl⟩ ?_
  exact steady_readKey.many count d more

/-- The preamble has only one right form, so bytes after it change nothing. -/
theorem persists_readPreamble {F : Corruption → Prop} (c : Cursor) (more : List UInt8) :
    Persists (fun d y => d.total = c.total ∧ y = .ok (d.prolong more)) F c.total more.length
      (readPreamble c) (readPreamble (c.prolong more)) := by
  refine (Steady.take _).bind fun start d hd => ?_
  refine .guardForeign .invalidHeader ?_
  rw [← hd]
  refine (Steady.word 1).bind fun found e he => ?_
  refine .guardForeign (.unsupportedVersion _) ?_
  exact .ok ⟨he, rfl⟩

/-- Where the input has to end, any further byte is one too many. -/
theorem persists_atEnd {α : Type} (a : α) (total : Nat) (d : Cursor) (more : List UInt8) :
    Persists (fun _ y => more ≠ [] → y = .error (.corrupted (.trailingBytes more.length)))
      (fun _ => True) total more.length
      (if d.remaining ≠ 0 then throw (.corrupted (.trailingBytes d.remaining))
        else (.ok a : Except DecodeError α))
      (if (d.prolong more).remaining ≠ 0 then
          throw (.corrupted (.trailingBytes (d.prolong more).remaining))
        else (.ok a : Except DecodeError α)) := by
  by_cases hend : d.remaining = 0
  · rw [if_neg (not_not_intro hend), Cursor.remaining_prolong, hend, Nat.zero_add]
    refine .ok fun hne => ?_
    rw [if_pos (List.length_pos_iff.mpr hne).ne']
    rfl
  · rw [if_pos hend]
    exact .corrupted trivial

theorem persists_readBuckets (capacity : Nat) (c : Cursor) (more : List UInt8) :
    Persists (fun _ y => more ≠ [] → y = .error (.corrupted (.trailingBytes more.length)))
      (fun _ => True) c.total more.length
      (readBuckets capacity c) (readBuckets capacity (c.prolong more)) := by
  refine .guard lt_of_remaining_prolong_lt trivial ?_
  refine ((steady_readBucket.many capacity).mono fun _ _ => trivial).bind fun buckets d _ => ?_
  exact persists_atEnd buckets _ d more

end Image

/-! ## Layouts and tables -/

theorem Layout.persists_decode (bytes more : List UInt8) :
    Persists (fun _ y => more ≠ [] → y = .error (.corrupted (.trailingBytes more.length)))
      (fun _ => True) bytes.length more.length (Layout.decode bytes)
      (Layout.decode (bytes ++ more)) := by
  rw [Layout.decode, Layout.decode, ← Cursor.prolong_ofBytes]
  refine (Image.persists_readPreamble (.ofBytes bytes) more).bind ?_
  rintro c _ ⟨hc, rfl⟩
  rw [← hc]
  refine (Steady.word 8).bind fun seed d hd => ?_
  rw [← hd]
  refine (Steady.word 8).bind fun capacity e he => ?_
  rw [← he]
  refine (Steady.word 8).bind fun size f hf => ?_
  rw [← hf]
  refine (Image.persists_readBuckets capacity.toNat f more).bind fun buckets y hy => ?_
  refine .ok fun hne => ?_
  rw [hy hne]
  rfl

/-- **What an outcome says of longer input**, as far as it says anything: an image that holds a
table holds none when bytes are added to it, a short read stays short until the byte that it asks
for is there, and what is foreign stays foreign. -/
theorem Table.persists_decode (bytes more : List UInt8) :
    Persists (fun _ y => more ≠ [] → y = .error (.corrupted (.trailingBytes more.length)))
      (fun _ => True) bytes.length more.length (Table.decode bytes)
      (Table.decode (bytes ++ more)) := by
  refine (Layout.persists_decode bytes more).bind fun l y hy => ?_
  cases l.toTable with
  | error fault => exact .corrupted trivial
  | ok t =>
    refine .ok fun hne => ?_
    rw [hy hne]
    rfl

namespace Table

variable {bytes : List UInt8}

/-- **Short reads are honest and foreign input is foreign for good.** If reading `bytes` is short of
byte `e`, the input ends before it, and every longer input that still does is short of the same
byte. If it is of another format or version, so is every longer input. -/
theorem decode_append (hlength : bytes.length < 2 ^ 63) :
    (∀ e found, Table.decode bytes = .error (.bufferTooShort e found) →
      found = bytes.length ∧ bytes.length < e ∧
        ∀ more, (bytes ++ more).length < e →
          Table.decode (bytes ++ more) = .error (.bufferTooShort e (bytes ++ more).length)) ∧
    (Table.decode bytes = .error .invalidHeader →
      ∀ more, Table.decode (bytes ++ more) = .error .invalidHeader) ∧
    ∀ version, Table.decode bytes = .error (.unsupportedVersion version) →
      ∀ more, Table.decode (bytes ++ more) = .error (.unsupportedVersion version) := by
  refine ⟨?_, ?_, ?_⟩
  · intro e found h
    have hshort (more : List UInt8) := (h ▸ persists_decode bytes more).of_short
    obtain ⟨stop, he, hfound, hstop, -⟩ := hshort []
    refine ⟨hfound, by omega, ?_⟩
    intro more hmore
    obtain ⟨stop, he, -, -, hagain⟩ := hshort more
    rw [List.length_append] at hmore ⊢
    exact hagain (by omega)
  · intro h more
    exact (h ▸ persists_decode bytes more).of_foreign .invalidHeader
  · intro version h more
    exact (h ▸ persists_decode bytes more).of_foreign (.unsupportedVersion version)

/-- A key of which one byte is there and `0xffffffff` are announced, a later version of the format,
and another format. -/
theorem decode_append_hostile :
    let hostile : List UInt8 := Image.mark ++ [Image.version] ++ List.replicate 8 7 ++
      [1, 0, 0, 0, 0, 0, 0, 0] ++ List.replicate 8 9 ++ [1, 0, 0, 0, 255, 255, 255, 255, 0x61]
    let later : List UInt8 := Image.mark ++ [2]
    let other : List UInt8 := [0x50, 0x4b, 3, 4]
    (hostile.length < 2 ^ 63 ∧
      Table.decode hostile = .error (.bufferTooShort 4294967332 38) ∧
      ∀ more, (hostile ++ more).length < 4294967332 →
        Table.decode (hostile ++ more) =
          .error (.bufferTooShort 4294967332 (hostile ++ more).length)) ∧
    (later.length < 2 ^ 63 ∧ Table.decode later = .error (.unsupportedVersion 2) ∧
      ∀ more, Table.decode (later ++ more) = .error (.unsupportedVersion 2)) ∧
    (other.length < 2 ^ 63 ∧ Table.decode other = .error .invalidHeader ∧
      ∀ more, Table.decode (other ++ more) = .error .invalidHeader) := by
  intro hostile later other
  have hhostile : hostile.length < 2 ^ 63 := by decide
  have hlater : later.length < 2 ^ 63 := by decide
  have hother : other.length < 2 ^ 63 := by decide
  have hshort : Table.decode hostile = .error (.bufferTooShort 4294967332 38) := by
    decide +kernel
  have hversion : Table.decode later = .error (.unsupportedVersion 2) := by decide +kernel
  have hheader : Table.decode other = .error .invalidHeader := by decide +kernel
  exact ⟨⟨hhostile, hshort, ((decode_append hhostile).1 _ _ hshort).2.2⟩,
    ⟨hlater, hversion, (decode_append hlater).2.2 _ hversion⟩,
    ⟨hother, hheader, (decode_append hother).2.1 hheader⟩⟩

end Table

end ChainedSet
