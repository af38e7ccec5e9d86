import ChainedSet.Murmur

/-!
# Chains

The keys of one bucket, oldest first, in an array that has room for so many. A key is added at the
end and, when there is no room, the room doubles, from four on. Taking a key out closes the gap and
keeps the room. The room never shows in what a set contains, only in how much memory it takes.
-/

namespace ChainedSet

/-- The keys of a bucket, and how many there is room for. -/
structure Chain where
  keys : List Key
  room : Nat
  length_le_room : keys.length ≤ room
deriving DecidableEq

namespace Chain

/-- No keys and no room. -/
def empty : Chain := ⟨[], 0, Nat.le_refl 0⟩

instance : Inhabited Chain := ⟨empty⟩

/-- The given keys, with no room to spare. -/
def ofKeys (keys : List Key) : Chain := ⟨keys, keys.length, Nat.le_refl _⟩

/-- The same keys, with no room to spare. -/
def trimmed (c : Chain) : Chain := ofKeys c.keys

/-- Whether a key is in the chain. -/
def contains (c : Chain) (key : Key) : Bool := c.keys.contains key

/-- Adds a key at the end. -/
def push (c : Chain) (key : Key) : Chain where
  keys := c.keys ++ [key]
  room := if c.keys.length = c.room then max 4 (2 * c.room) else c.room
  length_le_room := by
    have := c.length_le_room
    simp only [List.length_append, List.length_singleton]
    split <;> omega

/-- Takes out the first occurrence of a key. -/
def erase (c : Chain) (key : Key) : Chain where
  keys := c.keys.erase key
  room := c.room
  length_le_room := Nat.le_trans List.length_erase_le c.length_le_room

/-- The bytes that a list of so many entries takes for the entries themselves: each is an address,
a capacity and a length, of eight bytes each. -/
def entryBytes : Nat := 24

/-- The memory of a chain: its room, and the bytes of its keys. -/
def sizeBytes (c : Chain) : Nat := entryBytes * c.room + c.keys.flatten.length

@[simp] theorem keys_empty : empty.keys = [] := rfl

@[simp] theorem keys_ofKeys (keys : List Key) : (ofKeys keys).keys = keys := rfl

@[simp] theorem keys_trimmed (c : Chain) : c.trimmed.keys = c.keys := rfl

@[simp] theorem keys_push (c : Chain) (key : Key) : (c.push key).keys = c.keys ++ [key] := rfl

@[simp] theorem keys_erase (c : Chain) (key : Key) : (c.erase key).keys = c.keys.erase key := rfl

end Chain

end ChainedSet
