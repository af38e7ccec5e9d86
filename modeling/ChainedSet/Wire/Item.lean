import ChainedSet.Wire.Cursor

/-!
# Writing fields as bytes

An item is one field to be written. All but a length prefix have exactly one form; a length has
one if it fits four bytes, and none otherwise. `Item.read` names the read that takes an item's
bytes back.

Items are written either all or not at all (`Item.encodeAll`), or one by one into a growing buffer,
where an item without a form writes nothing and the others are written all the same (`Item.putAll`).
-/

namespace ChainedSet.Wire

/-- A field to be written. -/
inductive Item where
  | bytes (bytes : List UInt8)
  | u8 (n : UInt8)
  | u64 (n : UInt64)
  | length (field : LengthField) (n : Nat)
deriving DecidableEq, Repr

namespace Item

/-- The first length that four bytes cannot hold, which is 2^32. -/
def lengthBound : Nat := 0x100000000

/-- The bytes of an item. -/
def encode : Item → Except EncodeError (List UInt8)
  | .bytes bs => .ok bs
  | .u8 n => .ok [n]
  | .u64 n => .ok (LittleEndian.encode 8 n)
  | .length field n =>
    if n < lengthBound then .ok (LittleEndian.encode 4 (UInt64.ofNat n))
    else .error (.lengthOverflow field n)

/-- The read that matches an item. -/
def read : Item → Read
  | .bytes bs => .bytes bs.length
  | .u8 _ => .u8
  | .u64 _ => .u64
  | .length _ _ => .length

/-- What the matching read hands out. -/
def field : Item → Field
  | .bytes bs => .bytes bs
  | .u8 n => .number n.toUInt64
  | .u64 n => .number n
  | .length _ n => .number (UInt64.ofNat n)

/-- The bytes of all items one after the other, or the first error. -/
def encodeAll (items : List Item) : Except EncodeError (List UInt8) := do
  let parts ← items.mapM encode
  return parts.flatten

/-- What one item adds to what is written: its bytes, or nothing and an error. -/
def put (item : Item) : Except EncodeError Unit × List UInt8 :=
  match item.encode with
  | .ok bs => (.ok (), bs)
  | .error e => (.error e, [])

/-- The outcome of every item, and everything that was written. -/
def putAll (items : List Item) : List (Except EncodeError Unit) × List UInt8 :=
  let outcomes := items.map put
  (outcomes.map Prod.fst, (outcomes.map Prod.snd).flatten)

end Item

end ChainedSet.Wire
