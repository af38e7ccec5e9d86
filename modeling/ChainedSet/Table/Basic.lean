import ChainedSet.Capacity
import ChainedSet.Chain
import ChainedSet.Event

/-!
# The table

A set of keys as an array of chains. The home of a key is the bucket that its hash, reduced modulo
the capacity, names; a key is only ever looked for in its home, so the answers are exact as long as
every stored key stays in its home. A key is added at the end of its chain. When that puts the load
factor above the threshold, the capacity doubles and all keys are laid out afresh, in the order in
which the old table lists them. Taking a key out never shrinks the table.

The second side of most statements about tables is `toList`, the keys in bucket order and within a
bucket in chain order.

`Table.debug` shows all fields of a table on one line, where a bucket is the list of its keys, and a
key the list of its bytes in decimal. `MembershipFilter` is what a store may ask of a filter,
whatever keeps it. A filter that is allowed to err says how often it does; a table never errs, so it
can stand wherever a filter is asked for.
-/

namespace ChainedSet

/-- A set of keys, spread over `capacity` buckets. -/
structure Table where
  /-- The seed of the hash. -/
  seed : UInt64
  /-- The number of buckets. -/
  capacity : Nat
  /-- The number of keys. -/
  size : Nat
  /-- The chain of each bucket. -/
  buckets : Array Chain
deriving DecidableEq

namespace Table

/-- The empty set with a given seed and the initial number of buckets. -/
def withSeed (seed : UInt64) : Table :=
  ⟨seed, Capacity.initialCapacity, 0, Array.replicate Capacity.initialCapacity .empty⟩

/-- The empty set with the default seed. -/
def empty : Table := withSeed Murmur.defaultSeed

instance : Inhabited Table := ⟨empty⟩

/-! ## Asking -/

/-- The bucket that a key belongs in. -/
def home (t : Table) (key : Key) : Nat := Murmur.slot t.seed t.capacity key

/-- The chain of a bucket. -/
def chain (t : Table) (bucket : Nat) : Chain := t.buckets.getD bucket .empty

/-- Whether a key is in the set: whether it is in its home. -/
def contains (t : Table) (key : Key) : Bool := (t.chain (t.home key)).contains key

/-- Whether there are no keys. -/
def isEmpty (t : Table) : Bool := t.size == 0

/-- All keys, in bucket order and within a bucket in chain order. -/
def toList (t : Table) : List Key := t.buckets.toList.flatMap Chain.keys

/-- All keys with their bucket, in the order of `toList`. -/
def placed (t : Table) : List (Nat × Key) :=
  t.buckets.toList.zipIdx.flatMap fun (chain, bucket) => chain.keys.map fun key => (bucket, key)

/-- Keys per bucket. -/
def loadFactor (t : Table) : Binary64 := Capacity.loadFactor t.size t.capacity

/-- Whether the load factor is above the threshold. -/
def isOverloaded (t : Table) : Bool := Capacity.overloads t.size t.capacity

/-- The bytes of the table itself, without its buckets. -/
def headerBytes : Nat := 48

/-- The memory that the set takes. -/
def sizeBytes (t : Table) : Nat :=
  headerBytes + Chain.entryBytes * t.capacity
    + t.buckets.foldl (fun bytes chain => bytes + chain.sizeBytes) 0

/-! ## Changing -/

/-- Adds a key to its home, whether it is there already or not, and whatever the load. -/
def place (t : Table) (key : Key) : Table :=
  { t with size := t.size + 1, buckets := t.buckets.modify (t.home key) (·.push key) }

/-- The given keys laid out in `capacity` fresh buckets, one after the other. -/
def scatter (seed : UInt64) (capacity : Nat) (keys : List Key) : Array Chain :=
  keys.foldl
    (fun buckets key => buckets.modify (Murmur.slot seed capacity key) (·.push key))
    (Array.replicate capacity .empty)

/-- The same keys in twice as many buckets. -/
def grow (t : Table) : Table :=
  { t with
    capacity := 2 * t.capacity
    buckets := scatter t.seed (2 * t.capacity) t.toList }

/-- What growing tells. -/
def growth (t : Table) : Event := .grew t.capacity (2 * t.capacity) t.size

/-- Adds a key; whether it is new. -/
def insert (t : Table) (key : Key) : Step Table Bool :=
  if t.contains key then ⟨false, t, []⟩
  else
    let added := t.place key
    if added.isOverloaded then ⟨true, added.grow, [added.growth]⟩ else ⟨true, added, []⟩

/-- Takes a key out; whether it was there. -/
def remove (t : Table) (key : Key) : Step Table Bool :=
  if t.contains key then
    let taken :=
      { t with size := t.size - 1, buckets := t.buckets.modify (t.home key) (·.erase key) }
    ⟨true, taken, []⟩
  else ⟨false, t, []⟩

/-- Whether a key is in the set, as a step that changes nothing. -/
def lookup (t : Table) (key : Key) : Step Table Bool := ⟨t.contains key, t, []⟩

/-- Takes everything out and returns to the initial capacity; the seed stays. -/
def clear (t : Table) : Step Table Unit := ⟨(), withSeed t.seed, [.cleared t.size t.capacity]⟩

/-- Adds keys one after the other; how many were new. -/
def extend (t : Table) (keys : List Key) : Step Table Nat := Step.forEach insert t keys

/-- Adds all keys of another set, whatever its seed; how many were new. -/
def merge (t other : Table) : Step Table Nat := t.extend other.toList

/-- The set of the given keys, with the default seed. -/
def ofList (keys : List Key) : Step Table Nat := empty.extend keys

/-- The same set in memory of its own, where no chain has room to spare. -/
def clone (t : Table) : Table := { t with buckets := t.buckets.map Chain.trimmed }

/-! ## Showing -/

/-- Items between square brackets, separated by a comma and a space. -/
def bracketed (items : List String) : String := "[" ++ ", ".intercalate items ++ "]"

/-- The text of a key. -/
def debugKey (key : Key) : String := bracketed (key.map fun byte => toString byte.toNat)

/-- The text of a table. -/
def debug (t : Table) : String :=
  let buckets := bracketed (t.buckets.toList.map fun c => bracketed (c.keys.map debugKey))
  s!"ByteSet \x7b buckets: {buckets}, size: {t.size}, capacity: {t.capacity}, seed: {t.seed} \x7d"

end Table

/-! ## Membership filters -/

/-- A set of keys that may report keys it was never given, at a known rate. -/
class MembershipFilter (σ : Type) where
  /-- Adds a key; whether it is new. -/
  insert : σ → Key → Step σ Bool
  /-- Takes a key out; whether it was there. -/
  remove : σ → Key → Step σ Bool
  /-- Whether a key is in the set. -/
  contains : σ → Key → Bool
  /-- Adds all keys of another set. -/
  merge : σ → σ → Step σ Unit
  /-- Takes everything out. -/
  clear : σ → Step σ Unit
  /-- The number of keys. -/
  size : σ → Nat
  /-- The memory that the set takes, in bytes. -/
  sizeBytes : σ → Nat
  /-- The probability that a key that was never added is reported. -/
  falsePositiveRate : σ → Binary64
  /-- Whether there are no keys. -/
  isEmpty : σ → Bool := fun s => size s == 0

/-- A table is a filter without errors. -/
instance : MembershipFilter Table where
  insert := Table.insert
  remove := Table.remove
  contains := Table.contains
  merge t other := (t.merge other).map fun _ => ()
  clear := Table.clear
  size := Table.size
  sizeBytes := Table.sizeBytes
  falsePositiveRate _ := .ofNat 0

end ChainedSet
