import MediaHost.Json.Text
import MediaHost.Json.Number

/-!
# Json — Skip

Passing over a value that nobody asked for.  The brackets still open are kept in a list, so
values may be nested to any depth.
-/

namespace MediaHost.Json

/-- An open bracket. -/
inductive Bracket
  | array
  | object
deriving DecidableEq, Repr

/-- What may come next while a value is passed over. -/
inductive Awaiting
  /-- A value. -/
  | value
  /-- The first entry after an opening bracket, or its closing bracket. -/
  | first
  /-- A comma, or the closing bracket. -/
  | next
deriving DecidableEq, Repr

namespace Reader

/-- Passes over a key and its colon, the opening quote being next. -/
def skipKey : Reader Unit := do
  match ← peekToken with
  | none => fail .endOfText
  | some '"' =>
    advance
    skipTextTail
    colon
  | some _ => fail .malformed

/-- Passes over one token at which a value starts; an opening bracket is returned. -/
def skipToken : Reader (Option Bracket) := do
  match ← peekToken with
  | none => fail .endOfText
  | some 'n' => word ['n', 'u', 'l', 'l']; return none
  | some 't' => word ['t', 'r', 'u', 'e']; return none
  | some 'f' => word ['f', 'a', 'l', 's', 'e']; return none
  | some '-' => advance; skipUnsigned; return none
  | some '"' => advance; skipTextTail; return none
  | some '[' => advance; return some .array
  | some '{' => advance; return some .object
  | some c => if isDigit c then skipUnsigned; return none else fail .malformed

/-- Passes over the first token of a value: what is open after it, and what is awaited. -/
def skipStart (opened : List Bracket) : Reader (List Bracket × Awaiting) := do
  match ← skipToken with
  | none => return (opened, .next)
  | some bracket => return (bracket :: opened, .first)

/-- One step, which takes at least one character unless it fails. -/
def skipStep (opened : List Bracket) (awaiting : Awaiting) :
    Reader (List Bracket × Awaiting) := do
  match awaiting, opened with
  | .value, opened => skipStart opened
  | _, [] => fail .malformed
  | awaiting, bracket :: outer =>
    match bracket, awaiting, ← peekToken with
    | _, _, none => fail .endOfText
    | .array, _, some ']' => advance; return (outer, .next)
    | .object, _, some '}' => advance; return (outer, .next)
    | .array, .first, _ => skipStart opened
    | .object, .first, _ => skipKey; return (opened, .value)
    | .array, _, some ',' => advance; return (opened, .value)
    | .object, _, some ',' => advance; skipKey; return (opened, .value)
    | _, _, some _ => fail .malformed

/-- Steps until nothing is open and nothing awaited.  Every step takes one character of the
budget and at least one of the text. -/
def skipFrom : (budget : List Char) → List Bracket → Awaiting → Reader Unit
  | _, [], .next => return
  | [], _, _ => fail .endOfText
  | _ :: budget, opened, awaiting => do
    let (opened, awaiting) ← skipStep opened awaiting
    skipFrom budget opened awaiting

/-- Passes over one value of any shape. -/
def skipValue : Reader Unit := do
  skipFrom (← get) [] .value

end Reader
end MediaHost.Json
