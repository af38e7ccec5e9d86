import ChainedSet.Table.Layout
import ChainedSet.Wire.Cursor

/-!
# The form in words

A second form of a layout as bytes, for exchange: the four fields as serde hands them to bincode in
its default configuration, where integers have a fixed width. Every number, count and length is a
little-endian word of eight bytes, in the order seed, capacity, size, number of buckets, then for
each bucket its number of keys and for each key its length and its bytes. There is no mark, no
version and no limit on lengths, and bytes after the last key are left alone. Input that ends too
early is malformed.
-/

namespace ChainedSet

open Wire

namespace Words

/-- The word of a count or a length. -/
def encodeNat (n : Nat) : List UInt8 := LittleEndian.encode 8 (UInt64.ofNat n)

/-- The form of a key: its length and its bytes. -/
def encodeKey (key : Key) : List UInt8 := encodeNat key.length ++ key

/-- The form of a bucket: its number of keys and the keys. -/
def encodeBucket (keys : List Key) : List UInt8 := encodeNat keys.length ++ keys.flatMap encodeKey

/-- Reads a key. -/
def readKey (c : Cursor) : Except DecodeError (Key × Cursor) := do
  let (length, c) ← c.word 8
  c.take length.toNat

/-- Reads a bucket. -/
def readBucket (c : Cursor) : Except DecodeError (List Key × Cursor) := do
  let (count, c) ← c.word 8
  c.many readKey count.toNat

/-- Reads a layout, and leaves what follows it. -/
def readLayout (c : Cursor) : Except DecodeError (Layout × Cursor) := do
  let (seed, c) ← c.word 8
  let (capacity, c) ← c.word 8
  let (size, c) ← c.word 8
  let (count, c) ← c.word 8
  let (buckets, c) ← c.many readBucket count.toNat
  return (⟨seed, capacity, size, buckets⟩, c)

end Words

/-- The form in words of a layout. -/
def Layout.toWords (l : Layout) : List UInt8 :=
  LittleEndian.encode 8 l.seed ++ LittleEndian.encode 8 l.capacity ++ LittleEndian.encode 8 l.size
    ++ Words.encodeNat l.buckets.length ++ l.buckets.flatMap Words.encodeBucket

/-- The layout that a form in words begins with, whether there is a table with it or not. -/
def Layout.ofWords (bytes : List UInt8) : Except ImportError Layout :=
  match Words.readLayout (.ofBytes bytes) with
  | .ok (layout, _) => .ok layout
  | .error _ => .error .malformed

/-- The form in words of a table. -/
def Table.toWords (t : Table) : List UInt8 := t.layout.toWords

/-- The table whose form in words the bytes begin with. -/
def Table.ofWords (bytes : List UInt8) : Except ImportError Table := do
  let layout ← Layout.ofWords bytes
  layout.toTable.mapError .refused

end ChainedSet
