import ChainedSet.Json.Numeral
import ChainedSet.Json.Quoted

/-!
# JSON tokens

A JSON text is a sequence of tokens with blanks between them. `Token.scan` takes them off the text
one by one: each is the longest at its place, takes at least one character, and nothing but the
four blanks may stand between two of them. `Token.text` writes a token.
-/

namespace ChainedSet.Json

/-- A bracket, a separator, or a value that holds no other. -/
inductive Token where
  | openBracket
  | closeBracket
  | openBrace
  | closeBrace
  | colon
  | comma
  | null
  | bool (b : Bool)
  | number (n : Numeral)
  | string (s : String)
deriving DecidableEq, Repr

namespace Token

/-- Space, tab, line feed and carriage return. -/
def isBlank (c : Char) : Bool := c == ' ' || c == '\t' || c == '\n' || c == '\r'

/-- The token as it is written. -/
def text : Token → List Char
  | openBracket => ['[']
  | closeBracket => [']']
  | openBrace => ['{']
  | closeBrace => ['}']
  | colon => [':']
  | comma => [',']
  | null => ['n', 'u', 'l', 'l']
  | bool true => ['t', 'r', 'u', 'e']
  | bool false => ['f', 'a', 'l', 's', 'e']
  | number n => n.text
  | string s => escape s

/-- The numeral at the start of a text, if a double holds it, and what follows. -/
def number? (cs : List Char) : Option (Token × List Char) :=
  match Numeral.scan? cs with
  | none => none
  | some (n, rest) => if n.fits then some (number n, rest) else none

/-- The token at the start of a text that begins with no blank, and what follows. -/
def next? : List Char → Option (Token × List Char)
  | '[' :: cs => some (openBracket, cs)
  | ']' :: cs => some (closeBracket, cs)
  | '{' :: cs => some (openBrace, cs)
  | '}' :: cs => some (closeBrace, cs)
  | ':' :: cs => some (colon, cs)
  | ',' :: cs => some (comma, cs)
  | 'n' :: 'u' :: 'l' :: 'l' :: cs => some (null, cs)
  | 't' :: 'r' :: 'u' :: 'e' :: cs => some (bool true, cs)
  | 'f' :: 'a' :: 'l' :: 's' :: 'e' :: cs => some (bool false, cs)
  | '"' :: cs => (unquote? cs).map fun (s, rest) => (string s, rest)
  | cs => number? cs

/-- **A token takes at least one character.** -/
theorem length_next?_lt {cs rest : List Char} {t : Token} (h : next? cs = some (t, rest)) :
    rest.length < cs.length := by
  unfold next? at h
  split at h
  case h_10 =>
    simp only [Option.map_eq_some_iff, Prod.mk.injEq] at h
    obtain ⟨⟨s, r⟩, hs, -, rfl⟩ := h
    exact Nat.lt_succ_of_lt (length_unquote?_lt hs)
  case h_11 =>
    unfold number? at h
    split at h
    · cases h
    next hscan =>
      split at h
      · cases h
        exact Numeral.length_scan?_lt hscan
      · cases h
  all_goals cases h; simp only [List.length_cons]; omega

/-- The tokens of a text, after those in `before`, latest first. -/
def scanAfter (before : List Token) (cs : List Char) : Option (List Token) :=
  match _ : cs.dropWhile isBlank with
  | [] => some before.reverse
  | c :: rest =>
    match _ : next? (c :: rest) with
    | none => none
    | some (t, rest') => scanAfter (t :: before) rest'
termination_by cs.length
decreasing_by
  have hnext := length_next?_lt ‹next? _ = some _›
  have hblank := (List.dropWhile_sublist isBlank (l := cs)).length_le
  rw [‹cs.dropWhile isBlank = _›] at hblank
  omega

/-- The tokens of a text, if it is nothing but tokens and blanks. -/
def scan (cs : List Char) : Option (List Token) := scanAfter [] cs

end Token

end ChainedSet.Json
