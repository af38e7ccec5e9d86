import ChainedSet.Capacity
import ChainedSet.Text.Quoted

/-!
# What can go wrong

Encoding fails only on a length that its prefix cannot hold. Decoding fails for a cause that says
which field was short, foreign or impossible; `Corruption` lists why fields that could be read
still describe a table that was never written. Each error has a message for people (`message`) and
a text that shows its structure (`debug`).
-/

namespace ChainedSet

/-! ## Encoding -/

/-- What a length prefix counts: the elements of a bucket, or the bytes of an element. -/
inductive LengthField where
  | bucket
  | element
deriving DecidableEq, Repr

/-- The name of a length prefix in messages. -/
def LengthField.name : LengthField → String
  | .bucket => "bucket"
  | .element => "element"

/-- Why a table cannot be encoded. -/
inductive EncodeError where
  /-- The length does not fit 32 bits. -/
  | lengthOverflow (field : LengthField) (length : Nat)
deriving DecidableEq, Repr

namespace EncodeError

/-- The error in words. -/
def message : EncodeError → String
  | .lengthOverflow field length => s!"{field.name} length {length} exceeds u32::MAX"

/-- The error as its name and its fields. -/
def debug : EncodeError → String
  | .lengthOverflow field length =>
    s!"LengthOverflow \x7b field: {Text.quote field.name}, len: {length} \x7d"

end EncodeError

/-! ## Decoding -/

/-- Why fields that could be read do not describe a table. -/
inductive Corruption where
  /-- More buckets than the bytes that are left could hold, at four bytes each. -/
  | capacityExceedsInput (capacity remaining : Nat)
  /-- More elements in a bucket than the bytes that are left could hold, at four bytes each. -/
  | bucketExceedsInput (count : Nat)
  /-- Bytes after the last bucket. -/
  | trailingBytes (count : Nat)
  /-- A capacity that doubling never reaches. -/
  | irregularCapacity (capacity : Nat)
  /-- A load factor above the threshold. -/
  | overloaded (size capacity : Nat)
  /-- A number of buckets other than the capacity. -/
  | bucketCount (capacity count : Nat)
  /-- An element in another bucket than its own. -/
  | misplaced (bucket home : Nat)
  /-- An element twice in one bucket. -/
  | duplicate (bucket : Nat)
  /-- A size other than the number of elements. -/
  | sizeMismatch (size count : Nat)
  /-- A reason that is given in words. -/
  | described (reason : String)
deriving DecidableEq, Repr

/-- The reason in words. -/
def Corruption.reason : Corruption → String
  | .capacityExceedsInput capacity remaining =>
    s!"capacity {capacity} exceeds what {remaining} remaining bytes can hold"
  | .bucketExceedsInput count => s!"bucket of {count} elements exceeds remaining input"
  | .trailingBytes count => s!"{count} trailing bytes"
  | .irregularCapacity capacity =>
    s!"capacity {capacity} is not {Capacity.initialCapacity} times a power of two"
  | .overloaded size capacity => s!"size {size} overloads {capacity} buckets"
  | .bucketCount capacity count => s!"capacity {capacity} but {count} buckets"
  | .misplaced bucket home => s!"element in bucket {bucket} belongs in bucket {home}"
  | .duplicate bucket => s!"duplicate element in bucket {bucket}"
  | .sizeMismatch size count => s!"size {size} but {count} elements stored"
  | .described reason => reason

/-- Why bytes cannot be decoded. -/
inductive DecodeError where
  /-- The input ends at byte `found`, and the field that was asked for at byte `expected`. -/
  | bufferTooShort (expected found : Nat)
  /-- The input does not begin as an encoded table does. -/
  | invalidHeader
  /-- The input is of a version of the format that is not known. -/
  | unsupportedVersion (version : Nat)
  /-- The fields describe no table. -/
  | corrupted (corruption : Corruption)
deriving DecidableEq, Repr

namespace DecodeError

/-- The error in words. -/
def message : DecodeError → String
  | .bufferTooShort expected found => s!"buffer too short: expected {expected}, found {found}"
  | .invalidHeader => "invalid header"
  | .unsupportedVersion version => s!"unsupported version: {version}"
  | .corrupted corruption => s!"corrupted data: {corruption.reason}"

/-- The error as its name and its fields; a corruption is shown by its reason alone. -/
def debug : DecodeError → String
  | .bufferTooShort expected found =>
    s!"BufferTooShort \x7b expected: {expected}, found: {found} \x7d"
  | .invalidHeader => "InvalidHeader"
  | .unsupportedVersion version => s!"UnsupportedVersion({version})"
  | .corrupted corruption => s!"Corrupted({Text.quote corruption.reason})"

end DecodeError

/-! ## Importing -/

/-- Why a table cannot be imported from one of the exchange formats. -/
inductive ImportError where
  /-- The input is not of the format, or a value in it is not of its field's type. -/
  | malformed
  /-- A field is not there. -/
  | missingField (name : String)
  /-- The fields are there and describe no table. -/
  | refused (corruption : Corruption)
deriving DecidableEq, Repr

/-- The message of an error that has one; input that is not of the format gets none. -/
def ImportError.message? : ImportError → Option String
  | .malformed => none
  | .missingField name => some s!"missing field `{name}`"
  | .refused corruption => some (DecodeError.corrupted corruption).message

end ChainedSet
