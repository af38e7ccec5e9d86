import ChainedSet.Table.Layout
import ChainedSet.Wire.Item

/-!
# Images

The image of a table is its layout as bytes:

    mark      4 bytes   "BSET"
    version   1 byte    1
    seed      8 bytes
    capacity  8 bytes
    size      8 bytes
    per bucket
      count   4 bytes
      per key
        length  4 bytes
        bytes

All numbers are little-endian. Writing (`Layout.encode`) is a list of items, and fails on the first
count or length that four bytes cannot hold. Reading (`Layout.decode`) takes the fields in the same
order, refuses a capacity or a count that the bytes left over could not hold before it reads on,
and refuses bytes after the last bucket. `Table.encode` and `Table.decode` go on to the table.
-/

namespace ChainedSet

open Wire

namespace Image

/-- The bytes that an image begins with: the letters `BSET`. -/
def mark : List UInt8 := [0x42, 0x53, 0x45, 0x54]

/-- The version of the format. -/
def version : UInt8 := 1

/-- The fewest bytes that a bucket, or a key, can take: those of its length prefix. -/
def prefixLength : Nat := 4

/-! ## Writing -/

/-- The fields of a key. -/
def keyItems (key : Key) : List Item := [.length .element key.length, .bytes key]

/-- The fields of a bucket. -/
def bucketItems (keys : List Key) : List Item :=
  .length .bucket keys.length :: keys.flatMap keyItems

/-- The fields of a layout. -/
def items (l : Layout) : List Item :=
  [.bytes mark, .u8 version, .u64 l.seed, .u64 l.capacity, .u64 l.size]
    ++ l.buckets.flatMap bucketItems

/-! ## Room

The size of an image is counted before it is written, so that the buffer for it has room for all. -/

/-- The bytes before the first bucket: the mark, the version and three words. -/
def headerLength : Nat := mark.length + 1 + 8 + 8 + 8

/-- The room for a bucket. -/
def bucketRoom (keys : List Key) : Nat :=
  prefixLength + keys.foldl (fun room key => room + (prefixLength + key.length)) 0

/-- The room for the image of a layout. -/
def room (l : Layout) : Nat :=
  headerLength + l.buckets.foldl (fun room keys => room + bucketRoom keys) 0

/-! ## Reading -/

/-- Reads a key. -/
def readKey (c : Cursor) : Except DecodeError (Key × Cursor) := do
  let (length, c) ← c.length
  c.take length

/-- Reads a bucket. -/
def readBucket (c : Cursor) : Except DecodeError (List Key × Cursor) := do
  let (count, c) ← c.length
  if c.remaining / prefixLength < count then throw (.corrupted (.bucketExceedsInput count))
  c.many readKey count

/-- Reads the mark and the version, which have only one right value. -/
def readPreamble (c : Cursor) : Except DecodeError Cursor := do
  let (start, c) ← c.take mark.length
  if start ≠ mark then throw .invalidHeader
  let (found, c) ← c.word 1
  if found ≠ version.toUInt64 then throw (.unsupportedVersion found.toNat)
  return c

/-- Reads the buckets of a table of a given capacity, which are the rest of the input. -/
def readBuckets (capacity : Nat) (c : Cursor) : Except DecodeError (List (List Key)) := do
  if c.remaining / prefixLength < capacity then
    throw (.corrupted (.capacityExceedsInput capacity c.remaining))
  let (buckets, c) ← c.many readBucket capacity
  if c.remaining ≠ 0 then throw (.corrupted (.trailingBytes c.remaining))
  return buckets

end Image

namespace Layout

/-- The image of a layout. -/
def encode (l : Layout) : Except EncodeError (List UInt8) := Item.encodeAll (Image.items l)

/-- The layout that an image holds, whether there is a table with it or not. -/
def decode (bytes : List UInt8) : Except DecodeError Layout := do
  let c ← Image.readPreamble (.ofBytes bytes)
  let (seed, c) ← c.word 8
  let (capacity, c) ← c.word 8
  let (size, c) ← c.word 8
  let buckets ← Image.readBuckets capacity.toNat c
  return ⟨seed, capacity, size, buckets⟩

end Layout

namespace Table

/-- The image of a table. -/
def encode (t : Table) : Except EncodeError (List UInt8) := t.layout.encode

/-- The table that an image holds. -/
def decode (bytes : List UInt8) : Except DecodeError Table := do
  let layout ← Layout.decode bytes
  layout.toTable.mapError .corrupted

/-- What encoding a table tells, given the outcome: nothing if it fails. -/
def encodeEvents (t : Table) : Except EncodeError (List UInt8) → List Event
  | .ok bytes => [.encoded bytes.length t.size]
  | .error _ => []

/-- What decoding bytes tells, given the outcome. -/
def decodeEvents (bytes : List UInt8) : Except DecodeError Table → List Event
  | .ok t => [.decoded bytes.length t.size]
  | .error e => [.rejected bytes.length e]

end Table

end ChainedSet
