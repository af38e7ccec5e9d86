import ChainedSet.Json.Token

/-!
# JSON values

A value, its tokens (`Value.tokens`), and the values that token sequences stand for
(`Value.ofTokens?`). Reading is a walk of a small machine: it keeps the containers that are open,
innermost first, and knows after each token what may come next. So it needs one pass and no
look-ahead, and its only limit is on how deep containers are nested.
-/

namespace ChainedSet.Json

/-- A JSON value. The members of an object are in the order in which they are written, and a name
may occur more than once. -/
inductive Value where
  | null
  | bool (b : Bool)
  | number (n : Numeral)
  | string (s : String)
  | array (items : List Value)
  | object (members : List (String × Value))

namespace Value

/-! ## Writing -/

mutual

/-- The tokens of a value. -/
def tokens : Value → List Token
  | null => [.null]
  | bool b => [.bool b]
  | number n => [.number n]
  | string s => [.string s]
  | array [] => [.openBracket, .closeBracket]
  | array (v :: vs) => .openBracket :: v.tokens ++ itemTokens vs
  | object [] => [.openBrace, .closeBrace]
  | object ((k, v) :: ms) => .openBrace :: .string k :: .colon :: v.tokens ++ memberTokens ms

/-- The tokens of the items that follow another one, up to the closing bracket. -/
def itemTokens : List Value → List Token
  | [] => [.closeBracket]
  | v :: vs => .comma :: v.tokens ++ itemTokens vs

/-- The tokens of the members that follow another one, up to the closing brace. -/
def memberTokens : List (String × Value) → List Token
  | [] => [.closeBrace]
  | (k, v) :: ms => .comma :: .string k :: .colon :: v.tokens ++ memberTokens ms

end

/-- The value as a text without blanks. -/
def render (v : Value) : String := String.ofList (v.tokens.flatMap Token.text)

/-! ## Reading -/

/-- A container that is open and waits for a value: what it holds so far, latest first. -/
inductive Frame where
  | array (items : List Value)
  | object (members : List (String × Value)) (key : String)

/-- How far reading has come. -/
inductive Progress where
  /-- A value is to come; if the array was only just opened, its closing bracket may come too. -/
  | value (opened : Bool) (stack : List Frame)
  /-- A key is to come; if the object was only just opened, its closing brace may come too. -/
  | key (opened : Bool) (members : List (String × Value)) (stack : List Frame)
  /-- The colon after a key is to come. -/
  | colon (members : List (String × Value)) (key : String) (stack : List Frame)
  /-- A value is complete. -/
  | complete (v : Value) (stack : List Frame)

/-- How many containers may be open at a time. -/
def maxDepth : Nat := 127

namespace Progress

/-- A token where a value is to come. -/
def onValue (opened : Bool) (stack : List Frame) : Token → Option Progress
  | .null => some (complete .null stack)
  | .bool b => some (complete (.bool b) stack)
  | .number n => some (complete (.number n) stack)
  | .string s => some (complete (.string s) stack)
  | .openBracket =>
    if stack.length < maxDepth then some (value true (.array [] :: stack)) else none
  | .openBrace => if stack.length < maxDepth then some (key true [] stack) else none
  | .closeBracket =>
    match opened, stack with
    | true, .array items :: stack => some (complete (.array items.reverse) stack)
    | _, _ => none
  | _ => none

/-- A token after a value that is complete. -/
def onComplete (v : Value) : List Frame → Token → Option Progress
  | .array items :: stack, .comma => some (value false (.array (v :: items) :: stack))
  | .array items :: stack, .closeBracket =>
    some (complete (.array (v :: items).reverse) stack)
  | .object members k :: stack, .comma => some (key false ((k, v) :: members) stack)
  | .object members k :: stack, .closeBrace =>
    some (complete (.object ((k, v) :: members).reverse) stack)
  | _, _ => none

/-- One token further. -/
def next : Progress → Token → Option Progress
  | value opened stack, t => onValue opened stack t
  | key _ members stack, .string k => some (colon members k stack)
  | key true members stack, .closeBrace => some (complete (.object members.reverse) stack)
  | key _ _ _, _ => none
  | colon members k stack, .colon => some (value false (.object members k :: stack))
  | colon _ _ _, _ => none
  | complete v stack, t => onComplete v stack t

/-- The value that has been read, if it is complete and nothing is open. -/
def finished? : Progress → Option Value
  | complete v [] => some v
  | _ => none

end Progress

/-- The value that a sequence of tokens stands for. -/
def ofTokens? (ts : List Token) : Option Value :=
  (ts.foldlM Progress.next (.value false [])).bind Progress.finished?

/-- The value that a text stands for. -/
def parse? (text : String) : Option Value := (Token.scan text.toList).bind ofTokens?

end Value

end ChainedSet.Json
