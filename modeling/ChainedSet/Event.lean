import ChainedSet.Error

/-!
# Events and steps

What a table tells about itself while it works: that it grew, was cleared, was encoded or decoded,
or that an input was refused. An event carries its numbers; `Event.render` is its line in a log.

The result of an operation on a state is a step: its answer, the state after it, and the events on
the way. Steps are chained by hand over lists of arguments: `Step.forEach` acts on one argument
after the other and counts how often the answer was yes.
-/

namespace ChainedSet

/-! ## Events -/

/-- How much attention an event asks for. -/
inductive Level where
  | debug
  | trace
deriving DecidableEq, Repr

/-- The name of a level in a log. -/
def Level.name : Level → String
  | .debug => "DEBUG"
  | .trace => "TRACE"

/-- Something that a table tells about itself. -/
inductive Event where
  /-- The bucket array was doubled, with so many elements in it. -/
  | grew (oldCapacity newCapacity size : Nat)
  /-- Everything is about to be removed; size and capacity are those before. -/
  | cleared (size capacity : Nat)
  /-- A table of so many elements was written as so many bytes. -/
  | encoded (length size : Nat)
  /-- So many bytes were read as a table of so many elements. -/
  | decoded (length size : Nat)
  /-- So many bytes were refused. -/
  | rejected (length : Nat) (error : DecodeError)
deriving DecidableEq, Repr

namespace Event

/-- What only happens now and then, or is a failure, is for debugging; the rest is a trace. -/
def level : Event → Level
  | .grew .. => .debug
  | .cleared .. => .trace
  | .encoded .. => .trace
  | .decoded .. => .trace
  | .rejected .. => .debug

/-- The event in words, with its fields. -/
def text : Event → String
  | .grew oldCapacity newCapacity size =>
    s!"grew byte set old_capacity={oldCapacity} new_capacity={newCapacity} size={size}"
  | .cleared size capacity => s!"clearing byte set size={size} capacity={capacity}"
  | .encoded length size => s!"encoded byte set len={length} size={size}"
  | .decoded length size => s!"decoded byte set len={length} size={size}"
  | .rejected length error => s!"rejected byte set encoding len={length} error={error.message}"

/-- The line of the event in a log. -/
def render (event : Event) : String := s!"{event.level.name} {event.text}"

end Event

/-! ## Steps -/

/-- What an operation on a state of type `σ` results in. -/
structure Step (σ α : Type) where
  answer : α
  state : σ
  events : List Event

namespace Step

variable {σ κ α β : Type}

/-- The same step with another answer. -/
def map (f : α → β) (s : Step σ α) : Step σ β := ⟨f s.answer, s.state, s.events⟩

/-- Acts on each argument in turn and counts the answers that were yes. -/
def forEach (act : σ → κ → Step σ Bool) (state : σ) (args : List κ) : Step σ Nat :=
  args.foldl
    (fun done arg =>
      let s := act done.state arg
      ⟨done.answer + s.answer.toNat, s.state, done.events ++ s.events⟩)
    ⟨0, state, []⟩

end Step

end ChainedSet
