/-!
# Json — Reader

A reader takes a value off the front of a text, or says which of three things is wrong: the
text ends too early, it is not JSON, or it is JSON of the wrong shape.  The first fault in
reading order is the one reported.
-/

namespace MediaHost.Json

/-- What is wrong with a text. -/
inductive Fault
  /-- The text ends inside a value. -/
  | endOfText
  /-- The text is not JSON. -/
  | malformed
  /-- The text is JSON, but not of the shape asked for. -/
  | mismatch
deriving DecidableEq, Repr

/-- Reads a value from the front of a text and leaves the rest. -/
abbrev Reader := StateT (List Char) (Except Fault)

/-- The characters allowed between two tokens. -/
def isSpace (c : Char) : Bool := c == ' ' || c == '\n' || c == '\t' || c == '\r'

def skipSpaces (cs : List Char) : List Char := cs.dropWhile isSpace

/-- The value of a decimal digit. -/
def digit? (c : Char) : Option Nat :=
  if '0' ≤ c && c ≤ '9' then some (c.toNat - '0'.toNat) else none

def isDigit (c : Char) : Bool := (digit? c).isSome

namespace Reader

def fail {α : Type} (fault : Fault) : Reader α := throw fault

/-- The next character, left in place. -/
def peek : Reader (Option Char) := fun cs => .ok (cs.head?, cs)

/-- The next character after any spaces; the spaces are taken. -/
def peekToken : Reader (Option Char) := fun cs =>
  let cs := skipSpaces cs
  .ok (cs.head?, cs)

/-- Takes one character. -/
def advance : Reader Unit := modify (·.drop 1)

/-- Takes exactly the characters of `word`. -/
def word : List Char → Reader Unit
  | [], cs => .ok ((), cs)
  | _ :: _, [] => .error .endOfText
  | expected :: more, c :: cs => if c = expected then word more cs else .error .malformed

/-- Takes the colon after a key. -/
def colon : Reader Unit := do
  match ← peekToken with
  | none => fail .endOfText
  | some ':' => advance
  | some _ => fail .malformed

/-- Reads the whole text: only spaces may follow the value. -/
def run {α : Type} (reader : Reader α) (text : String) : Except Fault α := do
  let (value, rest) ← reader text.toList
  if (skipSpaces rest).isEmpty then return value else throw .malformed

end Reader
end MediaHost.Json
