/-!
# JSON strings

The text between the quotes of a JSON string. Reading goes in two stages: the characters and
escapes become pieces (`Piece.scan`), of which a `\u` escape is a UTF-16 unit, and the pieces
become characters (`Piece.join`). A pair of surrogate units makes one character, and a surrogate
unit without its partner makes the whole string invalid. So does a control character that is not
escaped.

Writing (`escape`) puts a backslash before quotes, backslashes and control characters, and leaves
everything else as it is.
-/

namespace ChainedSet.Json

/-! ## Reading -/

/-- A part of a string: a character, or a UTF-16 unit that an escape gives by its number. -/
inductive Piece where
  | char (c : Char)
  | unit (n : Nat)
deriving DecidableEq, Repr

namespace Piece

/-- The number of a hexadecimal digit. -/
def hexDigit? (c : Char) : Option Nat :=
  if '0' ≤ c ∧ c ≤ '9' then some (c.toNat - '0'.toNat)
  else if 'a' ≤ c ∧ c ≤ 'f' then some (c.toNat - 'a'.toNat + 10)
  else if 'A' ≤ c ∧ c ≤ 'F' then some (c.toNat - 'A'.toNat + 10)
  else none

/-- The number of four hexadecimal digits. -/
def hexUnit? (a b c d : Char) : Option Nat := do
  let a ← hexDigit? a
  let b ← hexDigit? b
  let c ← hexDigit? c
  let d ← hexDigit? d
  return ((a * 16 + b) * 16 + c) * 16 + d

/-- The character that a letter after a backslash stands for. -/
def escaped? : Char → Option Char
  | '"' => some '"'
  | '\\' => some '\\'
  | '/' => some '/'
  | 'b' => some '\x08'
  | 'f' => some '\x0c'
  | 'n' => some '\n'
  | 'r' => some '\r'
  | 't' => some '\t'
  | _ => none

/-- The pieces up to the closing quote, after those in `before`, latest first, and what follows the
quote. -/
def scan (before : List Piece) : List Char → Option (List Piece × List Char)
  | [] => none
  | '"' :: rest => some (before.reverse, rest)
  | '\\' :: 'u' :: a :: b :: c :: d :: rest =>
    match hexUnit? a b c d with
    | some n => scan (.unit n :: before) rest
    | none => none
  | '\\' :: e :: rest =>
    match escaped? e with
    | some c => scan (.char c :: before) rest
    | none => none
  | c :: rest => if c.toNat < 0x20 then none else scan (.char c :: before) rest

/-- What follows a string is shorter than where its pieces began. -/
theorem length_scan_lt {before ps : List Piece} {cs rest : List Char}
    (h : scan before cs = some (ps, rest)) : rest.length < cs.length := by
  fun_induction scan before cs <;> simp_all <;> omega

/-- Whether a unit is the first half of a pair. -/
def isHigh (n : Nat) : Bool := 0xd800 ≤ n && n < 0xdc00

/-- Whether a unit is the second half of a pair. -/
def isLow (n : Nat) : Bool := 0xdc00 ≤ n && n < 0xe000

/-- The character of a pair of units. -/
def pair (high low : Nat) : Char := Char.ofNat ((high - 0xd800) * 0x400 + (low - 0xdc00) + 0x10000)

/-- The characters of pieces, after those in `before`, latest first. -/
def join (before : List Char) : List Piece → Option (List Char)
  | [] => some before.reverse
  | .char c :: ps => join (c :: before) ps
  | .unit n :: ps =>
    if isHigh n then
      match ps with
      | .unit m :: ps => if isLow m then join (pair n m :: before) ps else none
      | _ => none
    else if isLow n then none
    else join (Char.ofNat n :: before) ps

end Piece

/-- The string whose opening quote has just been read, and what follows its closing quote. -/
def unquote? (cs : List Char) : Option (String × List Char) :=
  match Piece.scan [] cs with
  | none => none
  | some (ps, rest) => (Piece.join [] ps).map fun s => (String.ofList s, rest)

/-- What follows a string is shorter than the text from its first character on. -/
theorem length_unquote?_lt {cs rest : List Char} {s : String} (h : unquote? cs = some (s, rest)) :
    rest.length < cs.length := by
  unfold unquote? at h
  split at h
  · cases h
  next hscan =>
    simp only [Option.map_eq_some_iff, Prod.mk.injEq] at h
    obtain ⟨_, _, _, rfl⟩ := h
    exact Piece.length_scan_lt hscan

/-! ## Writing -/

/-- A digit of a `\u` escape. -/
def hexDigit (n : Nat) : Char := Nat.digitChar (n % 16)

/-- A character of a string. -/
def escapeChar (c : Char) : List Char :=
  if c = '"' then ['\\', '"']
  else if c = '\\' then ['\\', '\\']
  else if c = '\x08' then ['\\', 'b']
  else if c = '\x0c' then ['\\', 'f']
  else if c = '\n' then ['\\', 'n']
  else if c = '\r' then ['\\', 'r']
  else if c = '\t' then ['\\', 't']
  else if c.toNat < 0x20 then ['\\', 'u', '0', '0', hexDigit (c.toNat / 16), hexDigit c.toNat]
  else [c]

/-- A string with its quotes. -/
def escape (s : String) : List Char := '"' :: s.toList.flatMap escapeChar ++ ['"']

end ChainedSet.Json
