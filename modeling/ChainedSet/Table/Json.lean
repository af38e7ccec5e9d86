import ChainedSet.Json.Value
import ChainedSet.Table.Layout

/-!
# The JSON form

A layout as a JSON value, for exchange: the four fields as serde hands them to serde_json, which
reads a text into a value first and takes the fields from that. The value is an object with the
members `seed`, `capacity`, `size` and `buckets`, where a bucket is an array of keys, a key an array
of bytes, and every number a natural number. Reading also takes an array of the four values in this
order. In an object the members may stand in any order, a name that occurs twice counts where it
occurs last, and members of other names are passed over. A member of the wrong type makes the value
malformed, whether another is missing or not; only then is the first missing one reported.
-/

namespace ChainedSet

open Json

/-! ## Writing -/

namespace Layout

/-- A natural number as a JSON value. -/
def jsonNat (n : Nat) : Value := .number (.ofNat n)

/-- A key as a JSON value. -/
def jsonKey (key : Key) : Value := .array (key.map fun byte => jsonNat byte.toNat)

/-- The buckets as a JSON value. -/
def jsonBuckets (buckets : List (List Key)) : Value :=
  .array (buckets.map fun keys => .array (keys.map jsonKey))

/-- The members of the JSON form. -/
def jsonMembers (l : Layout) : List (String × Value) :=
  [("seed", jsonNat l.seed.toNat), ("capacity", jsonNat l.capacity.toNat),
    ("size", jsonNat l.size.toNat), ("buckets", jsonBuckets l.buckets)]

/-- The JSON form of a layout. -/
def toJson (l : Layout) : Value := .object l.jsonMembers

/-! ## Reading -/

/-- The word that a value stands for. -/
def word? : Value → Option UInt64
  | .number n => n.word?
  | _ => none

/-- The byte that a value stands for. -/
def byte? (v : Value) : Option UInt8 := do
  let w ← word? v
  if w < 256 then some w.toUInt8 else none

/-- The items of an array, each read in the same way. -/
def items? {α : Type} (read : Value → Option α) : Value → Option (List α)
  | .array items => items.mapM read
  | _ => none

/-- The buckets that a value stands for. -/
def buckets? : Value → Option (List (List Key)) := items? (items? (items? byte?))

/-- The last member of a name, if there is one. -/
def member? (members : List (String × Value)) (name : String) : Option Value :=
  members.reverse.lookup name

/-- A member that may be missing, and may not be of the wrong type. -/
def typed {α : Type} (members : List (String × Value)) (name : String)
    (read : Value → Option α) : Except ImportError (Option α) :=
  match member? members name with
  | none => .ok none
  | some v =>
    match read v with
    | none => .error .malformed
    | some a => .ok (some a)

/-- A member that may not be missing. -/
def required {α : Type} (name : String) : Option α → Except ImportError α
  | none => .error (.missingField name)
  | some a => .ok a

/-- The layout with the given members. All are looked at before a missing one is reported. -/
def ofMembers (members : List (String × Value)) : Except ImportError Layout := do
  let seed? ← typed members "seed" word?
  let capacity? ← typed members "capacity" word?
  let size? ← typed members "size" word?
  let buckets? ← typed members "buckets" buckets?
  let seed ← required "seed" seed?
  let capacity ← required "capacity" capacity?
  let size ← required "size" size?
  let buckets ← required "buckets" buckets?
  return ⟨seed, capacity, size, buckets⟩

/-- The layout of four values in order. -/
def ofItems? (seed capacity size buckets : Value) : Option Layout := do
  let seed ← word? seed
  let capacity ← word? capacity
  let size ← word? size
  let buckets ← buckets? buckets
  return ⟨seed, capacity, size, buckets⟩

/-- The layout that a JSON value describes, whether there is a table with it or not. -/
def ofJson : Value → Except ImportError Layout
  | .object members => ofMembers members
  | .array [seed, capacity, size, buckets] =>
    match ofItems? seed capacity size buckets with
    | none => .error .malformed
    | some layout => .ok layout
  | _ => .error .malformed

end Layout

namespace Table

/-- The JSON form of a table, as a text without blanks. -/
def toJson (t : Table) : String := t.layout.toJson.render

/-- The table whose JSON form a text is. -/
def ofJson (text : String) : Except ImportError Table :=
  match Value.parse? text with
  | none => .error .malformed
  | some v => do
    let layout ← Layout.ofJson v
    layout.toTable.mapError .refused

end Table

end ChainedSet
