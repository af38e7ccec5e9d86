import ChainedSet.Table.Basic

/-!
# Layouts

The layout of a table is what is kept of it outside memory: seed, capacity, size, and the keys of
every bucket. Not every layout is the layout of a table. `Layout.toTable` accepts those that are
well-formed and names the first fault of any other, in a fixed order: the capacity, the load, the
number of buckets, then for each bucket first a key that belongs elsewhere and next a key that
occurs twice, and last the size.
-/

namespace ChainedSet

/-- The fields of a table outside memory. The numbers are 64-bit words, whatever the buckets. -/
structure Layout where
  seed : UInt64
  capacity : UInt64
  size : UInt64
  buckets : List (List Key)
deriving DecidableEq

/-- The layout of a table. -/
def Table.layout (t : Table) : Layout where
  seed := t.seed
  capacity := UInt64.ofNat t.capacity
  size := UInt64.ofNat t.size
  buckets := t.buckets.toList.map Chain.keys

/-! ## Checking -/

/-- Whether a key occurs twice. Once the keys are sorted, equal ones are neighbours. -/
def hasDuplicates (keys : List Key) : Bool :=
  let sorted := keys.mergeSort fun a b => decide (a ≤ b)
  (sorted.zip sorted.tail).any fun (a, b) => a == b

namespace Layout

/-- The number of keys. -/
def count (l : Layout) : Nat := l.buckets.foldl (fun total keys => total + keys.length) 0

/-- The bucket that a key belongs in. -/
def home (l : Layout) (key : Key) : Nat := Murmur.slot l.seed l.capacity.toNat key

/-- The first fault of a bucket: a key that belongs elsewhere, or else one that occurs twice. -/
def bucketFault? (l : Layout) (keys : List Key) (bucket : Nat) : Option Corruption :=
  match keys.find? fun key => l.home key != bucket with
  | some key => some (.misplaced bucket (l.home key))
  | none => if hasDuplicates keys then some (.duplicate bucket) else none

/-- The first fault of a layout. -/
def fault? (l : Layout) : Option Corruption :=
  let capacity := l.capacity.toNat
  let size := l.size.toNat
  if !Capacity.isRegular capacity then some (.irregularCapacity capacity)
  else if Capacity.overloads size capacity then some (.overloaded size capacity)
  else if l.buckets.length != capacity then some (.bucketCount capacity l.buckets.length)
  else
    match l.buckets.zipIdx.findSome? fun (keys, bucket) => l.bucketFault? keys bucket with
    | some fault => some fault
    | none => if l.count != size then some (.sizeMismatch size l.count) else none

/-- The fields of a layout put together, whether it has a fault or not. The chains have no room to
spare. -/
def table (l : Layout) : Table where
  seed := l.seed
  capacity := l.capacity.toNat
  size := l.size.toNat
  buckets := (l.buckets.map Chain.ofKeys).toArray

/-- The table with a given layout, if there is one. -/
def toTable (l : Layout) : Except Corruption Table :=
  match l.fault? with
  | some fault => .error fault
  | none => .ok l.table

end Layout

end ChainedSet
