import ChainedSet.Table.Image
import ChainedSet.Table.Json
import ChainedSet.Table.Words

/-!
# Commands

What a session may ask of a set, and what it hears back: a reply, or the failure of a command that
then leaves the set as it was. Some commands take another set, their source, by name.
-/

namespace ChainedSet.Session

/-- What may be asked of a set. -/
inductive Command where
  /-- Become an empty set with a seed. -/
  | create (seed : UInt64)
  | insert (key : Key)
  | remove (key : Key)
  | contains (key : Key)
  /-- Insert keys one by one, counting the new ones. -/
  | insertEach (keys : List Key)
  /-- Remove keys one by one, counting those that were there. -/
  | removeEach (keys : List Key)
  /-- Look for keys one by one, counting those that are there. -/
  | containsEach (keys : List Key)
  | clear
  /-- Insert all keys of the source. -/
  | merge (source : String)
  /-- Become a copy of the source. -/
  | clone (source : String)
  /-- Insert keys without counting. -/
  | extend (keys : List Key)
  /-- Become the set of some keys. -/
  | collect (keys : List Key)
  | stats
  /-- The numbers that any membership filter has. -/
  | filterStats
  | sizeBytes
  /-- All keys with their buckets. -/
  | dump
  | debug
  | encode
  /-- The length of the image and its hash. -/
  | digest
  /-- Become the set that an image holds. -/
  | decode (bytes : List UInt8)
  /-- Become the set that the image of the source holds. -/
  | reload (source : String)
  | toJson
  /-- Become the set whose JSON form a text is. -/
  | ofJson (text : String)
  | toWords
  /-- Become the set whose form in words the bytes begin with. -/
  | ofWords (bytes : List UInt8)
deriving DecidableEq, Repr

/-- The numbers of a set. -/
structure Stats where
  size : Nat
  isEmpty : Bool
  capacity : Nat
  seed : UInt64
  loadFactor : Binary64
deriving DecidableEq, Repr

/-- The numbers of a set. -/
def Stats.ofTable (t : Table) : Stats := ⟨t.size, t.isEmpty, t.capacity, t.seed, t.loadFactor⟩

/-- The numbers that any membership filter has. -/
structure FilterStats where
  size : Nat
  isEmpty : Bool
  falsePositiveRate : Binary64
deriving DecidableEq, Repr

/-- The numbers of a membership filter. -/
def FilterStats.of {σ : Type} [MembershipFilter σ] (s : σ) : FilterStats :=
  ⟨MembershipFilter.size s, MembershipFilter.isEmpty s, MembershipFilter.falsePositiveRate s⟩

/-- What is heard back when a command succeeds. -/
inductive Reply where
  /-- Nothing to say. -/
  | done
  | answer (yes : Bool)
  | count (n : Nat)
  | stats (stats : Stats)
  | filterStats (stats : FilterStats)
  | placed (keys : List (Nat × Key))
  | text (text : String)
  | bytes (bytes : List UInt8)
  | digest (length : Nat) (hash : UInt64)
deriving DecidableEq, Repr

/-- What is heard back when a command fails. -/
inductive Failure where
  | encode (error : EncodeError)
  | decode (error : DecodeError)
  | exchange (error : ImportError)
deriving DecidableEq, Repr

end ChainedSet.Session
