import ChainedSet.Session.Command

/-!
# Sessions

A session keeps sets under names. A name that was never used stands for the empty set with the
default seed. `Command.run` is the effect of a command on one set, and `Store.perform` that of a
command on the set of a name; it reports the reply or failure, the size and capacity afterwards,
and the events on the way. A command that fails changes nothing.
-/

namespace ChainedSet.Session

/-- Sets under names. -/
structure Store where
  tables : List (String × Table)

namespace Store

/-- No names are used. -/
def empty : Store := ⟨[]⟩

/-- The set of a name. -/
def get (s : Store) (name : String) : Table := (s.tables.lookup name).getD Table.empty

/-- Puts a set under a name, in place of the one that was there. -/
def set (s : Store) (name : String) (t : Table) : Store :=
  ⟨(name, t) :: s.tables.filter fun entry => entry.1 != name⟩

end Store

/-! ## Commands on one set -/

/-- The result of a command on a set. -/
abbrev Outcome := Step Table (Except Failure Reply)

namespace Outcome

/-- A reply that changes nothing and tells nothing. -/
def reply (t : Table) (r : Reply) : Outcome := ⟨.ok r, t, []⟩

/-- The result of an operation, with its answer put into a reply. -/
def ofStep {α : Type} (s : Step Table α) (r : α → Reply) : Outcome := s.map fun a => .ok (r a)

/-- The set `t` is replaced by the one that was read, if one was. -/
def ofDecoded (t : Table) (events : List Event) : Except DecodeError Table → Outcome
  | .ok u => ⟨.ok (.stats (.ofTable u)), u, events⟩
  | .error e => ⟨.error (.decode e), t, events⟩

/-- The set `t` is replaced by the one that was imported, if one was. -/
def ofImported (t : Table) : Except ImportError Table → Outcome
  | .ok u => ⟨.ok (.stats (.ofTable u)), u, []⟩
  | .error e => ⟨.error (.exchange e), t, []⟩

/-- The image of `t` is put into a reply, if there is one. -/
def ofEncoded (t : Table) (r : List UInt8 → Reply) : Outcome :=
  let image := t.encode
  ⟨match image with
    | .ok bytes => .ok (r bytes)
    | .error e => .error (.encode e),
    t, t.encodeEvents image⟩

end Outcome

/-- The set `t` is replaced by the one that the image of `source` holds. -/
def reloadFrom (t source : Table) : Outcome :=
  let image := source.encode
  match image with
  | .error e => ⟨.error (.encode e), t, source.encodeEvents image⟩
  | .ok bytes =>
    let decoded := Table.decode bytes
    Outcome.ofDecoded t (source.encodeEvents image ++ Table.decodeEvents bytes decoded) decoded

/-- The effect of a command on the set `t`; `s` is where sources are looked up. -/
def Command.run (s : Store) (t : Table) : Command → Outcome
  | create seed => ⟨.ok .done, Table.withSeed seed, []⟩
  | insert key => .ofStep (t.insert key) .answer
  | remove key => .ofStep (t.remove key) .answer
  | contains key => .reply t (.answer (t.contains key))
  | insertEach keys => .ofStep (Step.forEach Table.insert t keys) .count
  | removeEach keys => .ofStep (Step.forEach Table.remove t keys) .count
  | containsEach keys => .ofStep (Step.forEach Table.lookup t keys) .count
  | clear => .ofStep t.clear fun _ => .done
  | merge source => .ofStep (t.merge (s.get source)) fun _ => .done
  | clone source => ⟨.ok .done, (s.get source).clone, []⟩
  | extend keys => .ofStep (t.extend keys) fun _ => .done
  | collect keys => .ofStep (Table.ofList keys) fun _ => .done
  | stats => .reply t (.stats (.ofTable t))
  | filterStats => .reply t (.filterStats (.of t))
  | sizeBytes => .reply t (.count t.sizeBytes)
  | dump => .reply t (.placed t.placed)
  | debug => .reply t (.text t.debug)
  | encode => .ofEncoded t .bytes
  | digest => .ofEncoded t fun bytes => .digest bytes.length (Murmur.hash 0 bytes)
  | decode bytes =>
    let decoded := Table.decode bytes
    .ofDecoded t (Table.decodeEvents bytes decoded) decoded
  | reload source => reloadFrom t (s.get source)
  | toJson => .reply t (.text t.toJson)
  | ofJson text => .ofImported t (Table.ofJson text)
  | toWords => .reply t (.bytes t.toWords)
  | ofWords bytes => .ofImported t (Table.ofWords bytes)

/-! ## Commands on a store -/

/-- What is heard after a command. -/
structure Report where
  outcome : Except Failure Reply
  /-- The number of keys of the set after the command. -/
  size : Nat
  /-- The number of buckets of the set after the command. -/
  capacity : Nat
  events : List Event

namespace Store

/-- Performs a command on the set of a name. -/
def perform (s : Store) (name : String) (command : Command) : Report × Store :=
  let result := command.run s (s.get name)
  (⟨result.answer, result.state.size, result.state.capacity, result.events⟩,
    s.set name result.state)

/-- Performs commands in order, each on the set of its name. -/
def performAll (s : Store) (commands : List (String × Command)) : List Report :=
  match commands with
  | [] => []
  | (name, command) :: rest =>
    let (report, s) := s.perform name command
    report :: s.performAll rest

end Store

end ChainedSet.Session
