import ChainedSet.Proofs.Checked.Operations
import ChainedSet.Proofs.Checked.Reader
import ChainedSet.Proofs.Image.RoundTrip

/-!
# Decoding that can fail

A table is read from bytes and its fields are checked, as a machine does both. The fields come from
whoever wrote the bytes, so nothing is known about them but what was checked before: keys are hashed
to a number of buckets only once that number is known to be one that doubling reaches, and keys are
counted only as many as there are in memory (`toTable_eq_ok`). Duplicates are looked for in pairs of
neighbours, and whichever way the keys were sorted before, none is missed (`hasDuplicates_exact`).
-/

namespace ChainedSet

open Wire

/-- The memory of the buckets of a layout, each an entry of an array, with its keys. -/
def Layout.memory (l : Layout) : Nat :=
  (l.buckets.map fun keys => Chain.entryBytes + (Chain.ofKeys keys).sizeBytes).sum

namespace Checked

/-! ## Reading -/

def readKey : InPlace Key := do
  let length ← InPlace.length
  InPlace.take length

def readBucket : InPlace (List Key) := do
  let count ← InPlace.length
  let left ← InPlace.remaining
  if left / Image.prefixLength < count then throw (.corrupted (.bucketExceedsInput count))
  else InPlace.many readKey count

def readPreamble : InPlace Unit := do
  let start ← InPlace.take Image.mark.length
  if start ≠ Image.mark then throw .invalidHeader
  else
    let found ← InPlace.byte
    if found ≠ Image.version then throw (.unsupportedVersion found.toNat)
    else return ()

def readBuckets (capacity : Nat) : InPlace (List (List Key)) := do
  let left ← InPlace.remaining
  if left / Image.prefixLength < capacity then
    throw (.corrupted (.capacityExceedsInput capacity left))
  else
    let buckets ← InPlace.many readBucket capacity
    let left ← InPlace.remaining
    if left ≠ 0 then throw (.corrupted (.trailingBytes left))
    else return buckets

def readLayout : InPlace Layout := do
  readPreamble
  let seed ← InPlace.word 8
  let capacity ← InPlace.word 8
  let size ← InPlace.word 8
  let buckets ← readBuckets capacity.toNat
  return ⟨seed, capacity, size, buckets⟩

theorem readKey_follows : Follows Eq readKey Image.readKey := by
  intro r c h
  refine (length_follows r c h).bind ?_
  rintro n r ⟨_, c⟩ ⟨rfl, h⟩
  exact take_follows n r c h

theorem readBucket_follows : Follows Eq readBucket Image.readBucket := by
  intro r c h
  refine (length_follows r c h).bind ?_
  rintro count r ⟨_, c⟩ ⟨rfl, h⟩
  exact .remaining h (.guard Iff.rfl rfl (many_follows readKey_follows count r c h))

theorem readPreamble_agrees {r : Reader} {c : Cursor} (h : r.At c) :
    Agrees (fun _ s c => s.At c) (readPreamble.runOn r) (Image.readPreamble c) := by
  refine (take_follows _ r c h).bind ?_
  rintro start r ⟨_, c⟩ ⟨rfl, h⟩
  refine .guard Iff.rfl rfl ((byte_follows r c h).bind ?_)
  rintro found r ⟨_, c⟩ ⟨rfl, h⟩
  refine .guard ?_ ?_ (.pure h)
  · exact not_congr UInt8.toUInt64_inj.symm
  · rw [UInt8.toNat_toUInt64]

theorem readBuckets_agrees {r : Reader} {c : Cursor} (h : r.At c) (capacity : Nat) :
    Agrees (fun buckets _ found => buckets = found) ((readBuckets capacity).runOn r)
      (Image.readBuckets capacity c) := by
  refine .remaining h (.guard Iff.rfl rfl ?_)
  refine (many_follows readBucket_follows capacity r c h).bind ?_
  rintro buckets r ⟨_, c⟩ ⟨rfl, h⟩
  exact .remaining h (.guard Iff.rfl rfl (.pure rfl))

/-- **Reading the fields of a layout has no fault.** -/
theorem readLayout_agrees {bytes : List UInt8} (h : bytes.length < 2 ^ 63) :
    Agrees (fun l _ found => l = found) (readLayout.runOn ⟨bytes, 0⟩) (Layout.decode bytes) := by
  refine (readPreamble_agrees (Reader.at_ofBytes h)).bind ?_
  intro _ r c h
  refine (word_follows 8 r c h).bind ?_
  rintro seed r ⟨_, c⟩ ⟨rfl, h⟩
  refine (word_follows 8 r c h).bind ?_
  rintro capacity r ⟨_, c⟩ ⟨rfl, h⟩
  refine (word_follows 8 r c h).bind ?_
  rintro size r ⟨_, c⟩ ⟨rfl, h⟩
  refine (readBuckets_agrees h capacity.toNat).bind ?_
  rintro buckets r _ rfl
  exact .pure rfl

/-! ## Checking -/

/-- The pairs of neighbours. -/
def windows : List Key → List (List Key)
  | a :: b :: keys => [a, b] :: windows (b :: keys)
  | _ => []

def anyEqual : List (List Key) → Except Fault Bool
  | [] => return false
  | pair :: pairs => do
    let a ← index pair 0
    let b ← index pair 1
    if a == b then return true else anyEqual pairs

def hasDuplicates (keys : List Key) : Except Fault Bool :=
  if keys.length < 2 then return false
  else anyEqual (windows (keys.mergeSort fun a b => decide (a ≤ b)))

/-- The first key of a bucket that belongs elsewhere. -/
def misplaced? (l : Layout) (bucket : Nat) : List Key → Except Fault (Option Corruption)
  | [] => return none
  | key :: keys => do
    let home ← slot l.seed l.capacity.toNat key
    if home != bucket then return some (.misplaced bucket home)
    else misplaced? l bucket keys

def bucketFault? (l : Layout) (keys : List Key) (bucket : Nat) :
    Except Fault (Option Corruption) := do
  let misplaced ← misplaced? l bucket keys
  match misplaced with
  | some fault => return some fault
  | none =>
    let repeated ← hasDuplicates keys
    return if repeated then some (.duplicate bucket) else none

/-- The number of keys, or the first fault of a bucket, from a bucket on. -/
def count (l : Layout) (total bucket : Nat) : List (List Key) → Except Fault (Except Corruption Nat)
  | [] => return .ok total
  | keys :: rest => do
    let found ← bucketFault? l keys bucket
    match found with
    | some fault => return .error fault
    | none =>
      let total ← add total keys.length
      count l total (bucket + 1) rest

def fault? (l : Layout) : Except Fault (Option Corruption) := do
  let capacity := l.capacity.toNat
  let size := l.size.toNat
  if !Capacity.isRegular capacity then return some (.irregularCapacity capacity)
  else if Capacity.overloads size capacity then return some (.overloaded size capacity)
  else if l.buckets.length != capacity then return some (.bucketCount capacity l.buckets.length)
  else
    let counted ← count l 0 0 l.buckets
    match counted with
    | .error fault => return some fault
    | .ok total => return if total != size then some (.sizeMismatch size total) else none

/-- The table of a layout that has passed the checks, or what they found. -/
def toTable (l : Layout) : Except Fault (Except Corruption Table) := do
  let found ← fault? l
  match found with
  | some fault => return .error fault
  | none => return .ok l.table

/-- The table that an image holds. The reader begins at the first byte, and where it ends does not
matter any more. -/
def decode (bytes : List UInt8) : ExceptT DecodeError (Except Fault) Table := do
  let l ← ExceptT.mk (Prod.fst <$> readLayout.runOn ⟨bytes, 0⟩)
  let outcome ← (toTable l : Except Fault (Except Corruption Table))
  match outcome with
  | .error fault => throw (.corrupted fault)
  | .ok t => return t

theorem anyEqual_windows (keys : List Key) :
    anyEqual (windows keys) = .ok ((keys.zip keys.tail).any fun (a, b) => a == b) := by
  fun_induction windows keys with
  | case1 a b keys ih =>
    rw [anyEqual, index_eq_ok rfl, ok_bind, index_eq_ok rfl, ok_bind, ih]
    show (if a == b then pure true else Except.ok _) = Except.ok ((a == b) || _)
    cases a == b <;> rfl
  | case2 keys hshort =>
    cases keys with
    | nil => rfl
    | cons a keys =>
      cases keys with
      | nil => rfl
      | cons b keys => exact (hshort a b keys rfl).elim

theorem hasDuplicates_eq_ok (keys : List Key) :
    hasDuplicates keys = .ok (ChainedSet.hasDuplicates keys) := by
  rw [hasDuplicates]
  split
  · next hshort =>
    have hnodup : keys.Nodup := by
      match keys, hshort with
      | [], _ => exact List.nodup_nil
      | [key], _ => exact List.nodup_singleton key
    rw [(hasDuplicates_eq_false_iff keys).mpr hnodup]
    rfl
  · exact anyEqual_windows _

/-- **Duplicates are found exactly**: the answer is yes if two places hold equal keys, and only
then. Nothing but that the keys are put into lexicographic order is asked of the sort, and the look
at the neighbours has no fault. -/
theorem hasDuplicates_exact (keys : List Key) :
    (ChainedSet.hasDuplicates keys = true ↔
      ∃ i j : Nat, i ≠ j ∧ ∃ key, keys[i]? = some key ∧ keys[j]? = some key) ∧
    hasDuplicates keys = .ok (ChainedSet.hasDuplicates keys) ∧
    ∀ sorted : List Key, sorted.Perm keys → sorted.Pairwise (· ≤ ·) →
      anyEqual (windows sorted) = .ok (ChainedSet.hasDuplicates keys) := by
  refine ⟨hasDuplicates_eq_true_iff keys, hasDuplicates_eq_ok keys, ?_⟩
  intro sorted hperm hsorted
  have hsame : ((sorted.zip sorted.tail).any fun (a, b) => a == b) =
      ChainedSet.hasDuplicates keys := by
    rw [Bool.eq_iff_iff, ← not_iff_not, Bool.not_eq_true, Bool.not_eq_true,
      any_zip_tail_eq_false_iff_of_perm hperm hsorted, hasDuplicates_eq_false_iff]
  rw [anyEqual_windows, hsame]

/-- Keys that begin one another, the empty key among them, with and without one that comes again. -/
theorem hasDuplicates_exact_nested :
    let keys : List Key := [[1, 2], [1], [], [1, 2, 0], [2]]
    let sorted : List Key := [[], [1], [1, 2], [1, 2, 0], [2]]
    sorted.Perm keys ∧ sorted.Pairwise (· ≤ ·) ∧ ChainedSet.hasDuplicates keys = false ∧
      ChainedSet.hasDuplicates ([1] :: keys) = true := by
  intro keys sorted
  have hperm : sorted.Perm keys := by decide
  have hsorted : sorted.Pairwise (· ≤ ·) := by decide
  obtain ⟨-, -, honce⟩ := hasDuplicates_exact keys
  obtain ⟨htwice, -, -⟩ := hasDuplicates_exact ([1] :: keys)
  refine ⟨hperm, hsorted, ?_, htwice.mpr ⟨0, 2, by decide, [1], rfl, rfl⟩⟩
  have hneighbours : anyEqual (windows sorted) = .ok false := by decide
  rw [honce sorted hperm hsorted] at hneighbours
  exact Except.ok.inj hneighbours

theorem misplaced?_eq_ok {l : Layout} (h : 0 < l.capacity.toNat) (bucket : Nat)
    (keys : List Key) :
    misplaced? l bucket keys =
      .ok ((keys.find? fun key => l.home key != bucket).map
        fun key => .misplaced bucket (l.home key)) := by
  induction keys with
  | nil => rfl
  | cons key keys ih =>
    have hhome : slot l.seed l.capacity.toNat key = .ok (l.home key) := slot_eq_ok h l.seed key
    rw [misplaced?, hhome, ok_bind, ih]
    by_cases hkey : l.home key = bucket
    · rw [List.find?_cons_of_neg (by simp [hkey]), if_neg (by simp [hkey])]
    · rw [List.find?_cons_of_pos (by simp [hkey]), if_pos (by simp [hkey])]
      rfl

theorem bucketFault?_eq_ok {l : Layout} (h : 0 < l.capacity.toNat) (keys : List Key)
    (bucket : Nat) : bucketFault? l keys bucket = .ok (l.bucketFault? keys bucket) := by
  rw [bucketFault?, misplaced?_eq_ok h, ok_bind, Layout.bucketFault?, hasDuplicates_eq_ok]
  cases keys.find? fun key => l.home key != bucket <;> rfl

/-- **Counting the keys does not fail** where there are fewer than `2 ^ 64`, up to the first bucket
with a fault. -/
theorem count_eq_ok {l : Layout} (h : 0 < l.capacity.toNat) {total bucket : Nat}
    {rest : List (List Key)} (hcount : total + rest.flatten.length < 2 ^ 64) :
    count l total bucket rest =
      .ok (match (rest.zipIdx bucket).findSome? fun (keys, i) => l.bucketFault? keys i with
        | some fault => .error fault
        | none => .ok (total + rest.flatten.length)) := by
  induction rest generalizing total bucket with
  | nil => rfl
  | cons keys rest ih =>
    rw [List.flatten_cons, List.length_append] at hcount ⊢
    rw [count, bucketFault?_eq_ok h, ok_bind, List.zipIdx_cons, List.findSome?_cons]
    dsimp only
    cases l.bucketFault? keys bucket with
    | some fault => rfl
    | none =>
      dsimp only
      rw [add_eq_ok (by omega), ok_bind, ih (by omega), Nat.add_assoc]

theorem fault?_eq_ok {l : Layout} (hcount : l.buckets.flatten.length < 2 ^ 64) :
    fault? l = .ok l.fault? := by
  rw [fault?, Layout.fault?]
  dsimp only
  cases hregular : Capacity.isRegular l.capacity.toNat with
  | false => rfl
  | true =>
    have hpos : 0 < l.capacity.toNat := (Capacity.isRegular_iff.mp hregular).pos
    rw [count_eq_ok hpos (by omega), Nat.zero_add, ← Layout.count_eq_length_flatten]
    cases Capacity.overloads l.size.toNat l.capacity.toNat with
    | true => rfl
    | false =>
      cases l.buckets.length != l.capacity.toNat with
      | true => rfl
      | false =>
        dsimp only
        cases l.buckets.zipIdx.findSome? fun (keys, bucket) => l.bucketFault? keys bucket with
        | some fault => rfl
        | none => rfl

/-- **Checking a layout has no fault**, whatever its fields say. -/
theorem toTable_eq_ok {l : Layout} (hcount : l.buckets.flatten.length < 2 ^ 64) :
    toTable l = .ok l.toTable := by
  rw [toTable, fault?_eq_ok hcount, ok_bind, Layout.toTable]
  cases l.fault? <;> rfl

theorem length_flatten_le_memory (l : Layout) : l.buckets.flatten.length ≤ l.memory := by
  rw [List.length_flatten, Layout.memory]
  apply List.sum_le_sum
  intro keys hkeys
  show keys.length ≤ Chain.entryBytes + (Chain.entryBytes * keys.length + keys.flatten.length)
  simp only [Chain.entryBytes]
  omega

/-- **Decoding has no fault**: there are fewer keys than bytes. -/
theorem decode_eq_ok {bytes : List UInt8} (h : bytes.length < 2 ^ 63) :
    (decode bytes).run = .ok (Table.decode bytes) := by
  have hlayout := readLayout_agrees h
  rcases hlayout with ⟨e, _, hx, hy⟩ | ⟨l, _, _, hx, hy, rfl⟩
  · rw [decode, hx, Table.decode, hy]
    rfl
  · -- Every key took four bytes at least, so there are not too many to count.
    have hbytes := Layout.prefixLength_mul_le_of_encode (Layout.decode_eq_ok_iff.mp hy).2
    have hcount : l.buckets.flatten.length < 2 ^ 64 := by
      simp only [Image.prefixLength] at hbytes
      omega
    have hread : ExceptT.mk (Prod.fst <$> readLayout.runOn ⟨bytes, 0⟩) = pure l := by
      rw [hx]
      rfl
    rw [decode, hread, pure_bind, toTable_eq_ok hcount, Table.decode, hy]
    show _ = Except.ok (l.toTable.mapError _)
    cases l.toTable <;> rfl

/-! ## Decoding, checking and using a set -/

/-- **Decoding, checking and using a set have no fault**: nothing is looked up outside an array,
copied into a field of another width or shifted by the whole width of a word, every sum, difference
and product is a word, and every hash is reduced by a number of buckets above zero. Each has the
result that it has without the checks for these faults.

Bytes are decoded that are as many as an array can have, and the fields of any layout in memory are
checked. A set is used by insertions, removals, look-ups, clearing, extending, merging, iterating
and asking for the load, in any order, if it is one that a program can come to hold and never has
`2 ^ 53` keys. Whether memory can be allocated is not asked here. -/
theorem no_fault :
    (∀ bytes : List UInt8, bytes.length < 2 ^ 63 →
      (decode bytes).run = .ok (Table.decode bytes)) ∧
    (∀ l : Layout, l.memory < 2 ^ 64 → toTable l = .ok l.toTable) ∧
    ∀ t : Table, t.Reachable → ∀ calls : List Table.Call,
      (∀ s ∈ t.callSteps calls, s.state.size < 2 ^ 53) →
        steps t calls = .ok (t.callSteps calls) := by
  refine ⟨?_, ?_, ?_⟩
  · intro bytes hbytes
    exact decode_eq_ok hbytes
  · intro l hmemory
    exact toTable_eq_ok (Nat.lt_of_le_of_lt (length_flatten_le_memory l) hmemory)
  · intro t ht calls hsize
    exact steps_eq_ok ht.sound calls hsize

/-- A set of one key is decoded, grows, and loses that key. A layout without buckets is refused
before its key is hashed to one of them. -/
theorem no_fault_decoded :
    let bytes : List UInt8 := Image.mark ++ [Image.version, 5, 0, 0, 0, 0, 0, 0, 0,
      32, 0, 0, 0, 0, 0, 0, 0, 1, 0, 0, 0, 0, 0, 0, 0] ++ List.replicate (100) 0 ++
      [1, 0, 0, 0, 1, 0, 0, 0, 0x61] ++ List.replicate (24) 0
    let l : Layout := ⟨5, 0, 1, [[[0x61]]]⟩
    let keys : List Key := (List.range 23).map fun n => [UInt8.ofNat n]
    let calls : List Table.Call := [.act (.extend keys), .act (.remove [0x61]), .iter, .loadFactor]
    ∃ t : Table, (decode bytes).run = .ok (.ok t) ∧
      toTable l = .ok (.error (.irregularCapacity 0)) ∧
      ∃ ss, steps t calls = .ok ss ∧ ss.map (fun s => (s.state.size, s.state.capacity)) =
        [(24, 64), (23, 64), (23, 64), (23, 64)] := by
  intro bytes l keys calls
  obtain ⟨hdecode, hcheck, hsteps⟩ := no_fault
  have hrun : (Table.decode bytes).toOption.any (fun t => decide (t.size < 2 ^ 53 ∧
      (∀ s ∈ t.callSteps calls, s.state.size < 2 ^ 53) ∧
      (t.callSteps calls).map (fun s => (s.state.size, s.state.capacity)) =
        [(24, 64), (23, 64), (23, 64), (23, 64)])) = true := by decide +kernel
  cases htable : Table.decode bytes with
  | error e =>
    rw [htable] at hrun
    cases hrun
  | ok t =>
    rw [htable] at hrun
    obtain ⟨hsize, hbelow, hstates⟩ := of_decide_eq_true hrun
    refine ⟨t, ?_, ?_, t.callSteps calls, ?_, hstates⟩
    · rw [hdecode bytes (by decide +kernel), htable]
    · have hrefused : l.toTable = .error (.irregularCapacity 0) := by decide +kernel
      rw [hcheck l (by decide +kernel), hrefused]
    · exact hsteps t (.decode bytes htable hsize) calls hbelow

end Checked

end ChainedSet
