import MediaHost.Json.Skip

/-!
# Json — Record

Values of a known shape: words, numbers in a range, texts, and records.  A record is written as
an object, in which unknown keys are passed over and a known key may stand once, or as an array
of its fields in order, whose last entries may be left out; a field that is left out keeps its
start value.
-/

namespace MediaHost.Json

/-- A field of a record: its key, and how its value changes the record. -/
structure Field (α : Type) where
  key : String
  read : Reader (α → α)

namespace Reader
variable {α β : Type}

/-- A value of another shape is here.  Its first token is read, which may show that it is not
JSON at all. -/
def wrongShape : Reader α := do
  match ← peek with
  | some 'n' => word ['n', 'u', 'l', 'l']; fail .mismatch
  | some 't' => word ['t', 'r', 'u', 'e']; fail .mismatch
  | some 'f' => word ['f', 'a', 'l', 's', 'e']; fail .mismatch
  | some '"' => advance; let _ ← textTail; fail .mismatch
  | some '[' | some '{' => fail .mismatch
  | some c =>
    if c = '-' || isDigit c then
      let _ ← number
      fail .mismatch
    else fail .malformed
  | none => fail .malformed

def boolean : Reader Bool := do
  match ← peekToken with
  | none => fail .endOfText
  | some 't' => word ['t', 'r', 'u', 'e']; return true
  | some 'f' => word ['f', 'a', 'l', 's', 'e']; return false
  | some _ => wrongShape

def text : Reader String := do
  match ← peekToken with
  | none => fail .endOfText
  | some '"' => advance; textTail
  | some _ => wrongShape

/-- The word for nothing, or a value. -/
def optional (reader : Reader α) : Reader (Option α) := do
  match ← peekToken with
  | some 'n' => word ['n', 'u', 'l', 'l']; return none
  | _ => return some (← reader)

/-- Exactly the word for nothing. -/
def nothing : Reader Unit := do
  match ← peekToken with
  | none => fail .endOfText
  | some 'n' => word ['n', 'u', 'l', 'l']
  | some _ => wrongShape

/-- A number of any kind. -/
def anyNumber : Reader Number := do
  match ← peekToken with
  | none => fail .endOfText
  | some c => if c = '-' || isDigit c then number else wrongShape

/-- An integer literal from `lo` to `hi`. -/
def integer (lo hi : Int) : Reader Int := do
  let n : Int ←
    match ← anyNumber with
    | .natural n => pure n
    | .negative n => pure (-n)
    | .real _ => fail .mismatch
  if lo ≤ n && n ≤ hi then return n else fail .mismatch

def uint16 : Reader UInt16 := return UInt16.ofNat (← integer 0 (UInt16.size - 1)).toNat

def uint32 : Reader UInt32 := return UInt32.ofNat (← integer 0 (UInt32.size - 1)).toNat

def uint64 : Reader UInt64 := return UInt64.ofNat (← integer 0 (UInt64.size - 1)).toNat

def int32 : Reader Int32 := return Int32.ofInt (← integer Int32.minValue.toInt Int32.maxValue.toInt)

/-- A number as a 64-bit floating-point number. -/
def double : Reader Double := do
  match ← anyNumber with
  | .natural n => return Binary.ofNat n
  | .negative n => return Binary.ofInt (-n)
  | .real x => return x

/-- A number as a 32-bit floating-point number.  Integers are rounded once, others through 64
bits. -/
def single : Reader Single := do
  match ← anyNumber with
  | .natural n => return Binary.ofNat n
  | .negative n => return Binary.ofInt (-n)
  | .real x => return x.convert

/-- One of the named choices. -/
def choiceNamed (choices : List (String × α)) (name : String) : Reader α :=
  match choices.lookup name with
  | some choice => pure choice
  | none => fail .mismatch

/-- The key of an object, which can only be a text. -/
def key : Reader String := do
  match ← peekToken with
  | none => fail .endOfText
  | some '"' => advance; textTail
  | some _ => fail .malformed

/-- A choice: its name, or an object with its name as the one key and nothing as its value. -/
def choice (choices : List (String × α)) : Reader α := do
  match ← peekToken with
  | none => fail .endOfText
  | some '"' =>
    advance
    choiceNamed choices (← textTail)
  | some '{' =>
    advance
    let chosen ← choiceNamed choices (← key)
    colon
    nothing
    match ← peekToken with
    | none => fail .endOfText
    | some '}' => advance; return chosen
    | some _ => fail .malformed
  | some _ => fail .malformed

/-- The entries of an object up to its closing brace, `seen` being the known keys so far.  Every
entry takes one character of the budget and at least one of the text. -/
def members (fields : List (Field α)) :
    (budget : List Char) → (first : Bool) → (seen : List String) → α → Reader α
  | [], _, _, _ => fail .endOfText
  | _ :: budget, first, seen, value => do
    match ← peekToken with
    | none => fail .endOfText
    | some '}' => advance; return value
    | some c =>
      if !first then
        if c = ',' then advance else fail .malformed
      let name ← key
      match fields.find? (·.key = name) with
      | none =>
        colon
        skipValue
        members fields budget false seen value
      | some field =>
        if name ∈ seen then fail .mismatch
        colon
        let change ← field.read
        members fields budget false (name :: seen) (change value)

/-- The entries of an array up to its closing bracket: the fields in order. -/
def elements : List (Field α) → (first : Bool) → α → Reader α
  | [], _, value => do
    match ← peekToken with
    | none => fail .endOfText
    | some ']' => advance; return value
    | some _ => fail .malformed
  | field :: fields, first, value => do
    match ← peekToken with
    | none => fail .endOfText
    | some ']' => advance; return value
    | some c =>
      if !first then
        if c = ',' then advance else fail .malformed
        match ← peekToken with
        | none => fail .endOfText
        | some ']' => fail .malformed
        | some _ => pure ()
      let change ← field.read
      elements fields false (change value)

/-- A record with the given fields, changed from `start`. -/
def record (fields : List (Field α)) (start : α) : Reader α := do
  match ← peekToken with
  | none => fail .endOfText
  | some '{' =>
    advance
    members fields (← get) true [] start
  | some '[' =>
    advance
    elements fields true start
  | some _ => wrongShape

end Reader

/-- A field whose value is read by `reader` and stored by `store`. -/
def Field.of {α β : Type} (key : String) (reader : Reader β) (store : β → α → α) : Field α :=
  ⟨key, store <$> reader⟩

end MediaHost.Json
