import ChainedSet.Proofs.Checked.Reader
import ChainedSet.Proofs.Wire.Script

/-!
# Scripts of reads in place

A script of reads, performed by a reader that is changed by them: a read that is refused halfway
would leave it halfway, and its differences, sums and slices can have a fault. None has one, and a
refused read leaves the reader as it was (`read_takes`), so a script does to the reader in place
what it does to a cursor (`runAll_eq_ok`).

`reads_are_exact` collects what a script of reads does to the bytes.
-/

namespace ChainedSet.Checked

open Wire

namespace InPlace

/-- A read of any kind. -/
def read : Read → InPlace Field
  | .bytes n => do
    let bytes ← take n
    return .bytes bytes
  | .u8 => do
    let b ← byte
    return .number b.toUInt64
  | .u32 => do
    let w ← word 4
    return .number w
  | .u64 => do
    let w ← word 8
    return .number w
  | .length => do
    let n ← length
    return .number (UInt64.ofNat n)

/-- Reads in order, each with its outcome and the reader after it. -/
def runAll : List Read → Reader → Except Fault (List (Except DecodeError Field × Reader))
  | [], _ => return []
  | r :: reads, reader => do
    let outcome ← (read r).runOn reader
    let outcomes ← runAll reads outcome.2
    return outcome :: outcomes

/-- A read takes one field, whatever its kind. -/
theorem read_takes (r : Read) : Takes r.width r.interpret (read r) := by
  cases r with
  | bytes n => exact (take_takes n).bind fun _ _ _ => rfl
  | u8 =>
    refine byte_takes.bind fun bytes hlength r => ?_
    obtain ⟨b, rfl⟩ := List.length_eq_one_iff.mp hlength
    simp [runOn_pure, Read.interpret, LittleEndian.decode]
  | u32 => exact (word_takes 4).bind fun _ _ _ => rfl
  | u64 => exact (word_takes 8).bind fun _ _ _ => rfl
  | length =>
    refine (length_takes.bind fun bytes _ r => ?_)
    rw [runOn_pure, UInt64.ofNat_toNat]
    rfl

variable {reader : Reader} {c : Cursor}

/-- **A read in place does what a read by a cursor does.** -/
theorem read_eq_ok (h : reader.At c) (r : Read) :
    (read r).runOn reader = .ok ((r.run c).1, ⟨reader.data, (r.run c).2.position⟩) ∧
      Reader.At ⟨reader.data, (r.run c).2.position⟩ (r.run c).2 := by
  obtain ⟨data, position⟩ := reader
  obtain rfl : position = c.position := h.position_eq
  rcases Nat.lt_or_ge c.remaining r.width with hlt | hle
  · rw [Read.run_of_lt hlt]
    exact ⟨(read_takes r).of_lt _ c h hlt, h⟩
  · rw [Read.run_of_le hle]
    exact ⟨(read_takes r).of_le _ c h hle, h.advance hle⟩

/-- **No read of a script has a fault**, and the reader is always where the cursor is. -/
theorem runAll_eq_ok (h : reader.At c) (reads : List Read) :
    runAll reads reader =
      .ok ((Read.runAll reads c).map fun outcome =>
        (outcome.1, ⟨reader.data, outcome.2.position⟩)) := by
  induction reads generalizing reader c with
  | nil => rfl
  | cons r reads ih =>
    obtain ⟨hread, hat⟩ := read_eq_ok h r
    rw [runAll, hread, ok_bind, ih hat]
    rfl

end InPlace

/-! ## Scripts -/

/-- **A script of reads accounts for every byte.** Each read is exact wherever those before it have
led, and what is ahead there is the difference of two positions in the bytes. The slices that the
successful reads take make up the bytes up to where the script ends. The failing reads can be left
out. And a reader that is changed in place goes through the same outcomes and positions, without a
fault, for as many bytes as an array can have. -/
theorem reads_are_exact (data : List UInt8) (reads : List Read) :
    (∀ i r, reads[i]? = some r →
      let c := Read.after (reads.take i) (.ofBytes data)
      (Read.runAll reads (.ofBytes data))[i]? = some (r.run c) ∧
        c.position ≤ data.length ∧ c.remaining = data.length - c.position ∧
        Read.Exact data r c (r.run c)) ∧
    (∃ slices : List (List UInt8),
      List.Forall₂ (fun entry slice => ∃ field, entry.2.1 = .ok field ∧ entry.1.Yields slice field)
        (Read.kept reads (.ofBytes data)) slices ∧
      slices.flatten =
        data.take (data.length - (Read.after reads (.ofBytes data)).remaining)) ∧
    Read.runAll ((Read.kept reads (.ofBytes data)).map Prod.fst) (.ofBytes data) =
      (Read.kept reads (.ofBytes data)).map Prod.snd ∧
    (data.length < 2 ^ 63 →
      InPlace.runAll reads ⟨data, 0⟩ =
        .ok ((Read.runAll reads (.ofBytes data)).map fun outcome =>
          (outcome.1, ⟨data, outcome.2.position⟩))) := by
  have hstart := Cursor.StandsIn.ofBytes data
  refine ⟨?_, ?_, Read.runAll_kept reads _, fun hlength => ?_⟩
  · intro i r hr c
    have hstands := hstart.after (reads.take i)
    exact ⟨Read.getElem?_runAll hr, hstands.position_le, hstands.remaining_eq,
      Read.exact_run hstands⟩
  · obtain ⟨slices, hslices, hflatten⟩ := Read.exists_slices reads (.ofBytes data)
    have hprefix : ∀ rest, slices.flatten ++ rest = data →
        slices.flatten = data.take (data.length - rest.length) := by
      rintro rest rfl
      simp
    refine ⟨slices, hslices, ?_⟩
    rw [Cursor.remaining_eq]
    exact hprefix _ hflatten
  · exact InPlace.runAll_eq_ok (Reader.at_ofBytes hlength) reads

/-- Two reads are refused: one for a word, and one for as many bytes as there are words. -/
theorem reads_are_exact_refused :
    let data : List UInt8 := [1, 2, 3, 4, 5, 6, 7]
    let reads : List Read := [.u8, .u64, .u32, .bytes 0xffffffffffffffff, .bytes 2]
    reads[1]? = some .u64 ∧
      Read.Exact data .u64 (Read.after [.u8] (.ofBytes data))
        (Read.u64.run (Read.after [.u8] (.ofBytes data))) ∧
      data.length < 2 ^ 63 ∧
      InPlace.runAll reads ⟨data, 0⟩ =
        .ok [(.ok (.number 1), ⟨data, 1⟩), (.error (.bufferTooShort 9 7), ⟨data, 1⟩),
          (.ok (.number 0x05040302), ⟨data, 5⟩),
          (.error (.bufferTooShort 0xffffffffffffffff 7), ⟨data, 5⟩),
          (.ok (.bytes [6, 7]), ⟨data, 7⟩)] := by
  intro data reads
  have hlength : data.length < 2 ^ 63 := by decide
  obtain ⟨hexact, -, -, hplace⟩ := reads_are_exact data reads
  obtain ⟨-, -, -, hword⟩ := hexact 1 .u64 rfl
  have hpositions : (Read.runAll reads (.ofBytes data)).map (fun o => (o.1, o.2.position)) =
      [(.ok (.number 1), 1), (.error (.bufferTooShort 9 7), 1), (.ok (.number 0x05040302), 5),
        (.error (.bufferTooShort 0xffffffffffffffff 7), 5), (.ok (.bytes [6, 7]), 7)] := by
    decide +kernel
  have hreaders := congrArg (List.map fun o => (o.1, (⟨data, o.2⟩ : Reader))) hpositions
  rw [List.map_map] at hreaders
  exact ⟨rfl, hword, hlength, (hplace hlength).trans (congrArg Except.ok hreaders)⟩

end ChainedSet.Checked
