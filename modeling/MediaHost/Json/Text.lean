import MediaHost.Json.Reader

/-!
# Json — Text

Quoted texts.  A text that is kept has its escapes decoded, and an escape that names half of a
surrogate pair is malformed; a text that is skipped only has the spelling of its escapes
checked.
-/

namespace MediaHost.Json

def hexDigit? (c : Char) : Option Nat :=
  if '0' ≤ c && c ≤ '9' then some (c.toNat - '0'.toNat)
  else if 'a' ≤ c && c ≤ 'f' then some (c.toNat - 'a'.toNat + 10)
  else if 'A' ≤ c && c ≤ 'F' then some (c.toNat - 'A'.toNat + 10)
  else none

/-- The four digits of a numeric escape.  With fewer than four bytes left, the text ends too
early. -/
def hexEscape : List Char → Except Fault (Nat × List Char)
  | a :: b :: c :: d :: rest =>
    match hexDigit? a, hexDigit? b, hexDigit? c, hexDigit? d with
    | some a, some b, some c, some d => .ok (((a * 16 + b) * 16 + c) * 16 + d, rest)
    | _, _, _, _ => .error .malformed
  | few => if 4 ≤ (String.ofList few).utf8ByteSize then .error .malformed else .error .endOfText

def isHighSurrogate (n : Nat) : Bool := 0xd800 ≤ n && n ≤ 0xdbff

def isLowSurrogate (n : Nat) : Bool := 0xdc00 ≤ n && n ≤ 0xdfff

/-- The character of a numeric escape, which may be a pair of surrogates. -/
def escapedChar (cs : List Char) : Except Fault (Char × List Char) := do
  let (first, rest) ← hexEscape cs
  if isLowSurrogate first then throw .malformed
  if !isHighSurrogate first then return (Char.ofNat first, rest)
  match rest with
  | [] | ['\\'] => throw .endOfText
  | '\\' :: 'u' :: rest =>
    let (second, rest) ← hexEscape rest
    if isLowSurrogate second then
      return (Char.ofNat (0x10000 + (first - 0xd800) * 0x400 + (second - 0xdc00)), rest)
    throw .malformed
  | _ => throw .malformed

/-- Any numeric escape, whatever it names. -/
def anyEscape (cs : List Char) : Except Fault (Char × List Char) := do
  let (_, rest) ← hexEscape cs
  return ('\ufffd', rest)

/-- What follows a backslash; `numeric` reads what follows `\u`. -/
def escapeTail (numeric : List Char → Except Fault (Char × List Char)) :
    List Char → Except Fault (Char × List Char)
  | [] => .error .endOfText
  | '"' :: rest => .ok ('"', rest)
  | '\\' :: rest => .ok ('\\', rest)
  | '/' :: rest => .ok ('/', rest)
  | 'b' :: rest => .ok ('\x08', rest)
  | 'f' :: rest => .ok ('\x0c', rest)
  | 'n' :: rest => .ok ('\n', rest)
  | 'r' :: rest => .ok ('\r', rest)
  | 't' :: rest => .ok ('\t', rest)
  | 'u' :: rest => numeric rest
  | _ => .error .malformed

/-- The rest of a text after its opening quote, `taken` being the characters so far, last first.
Every round takes one character of the budget and at least one of the text. -/
def quotedTail (numeric : List Char → Except Fault (Char × List Char)) :
    (budget taken : List Char) → List Char → Except Fault (List Char × List Char)
  | [], _, _ => .error .endOfText
  | _ :: _, _, [] => .error .endOfText
  | _ :: _, taken, '"' :: rest => .ok (taken.reverse, rest)
  | _ :: budget, taken, '\\' :: rest => do
    let (c, rest) ← escapeTail numeric rest
    quotedTail numeric budget (c :: taken) rest
  | _ :: budget, taken, c :: rest =>
    if c < ' ' then .error .malformed else quotedTail numeric budget (c :: taken) rest

namespace Reader

/-- The text up to its closing quote, the opening one being taken. -/
def textTail : Reader String := fun cs =>
  (quotedTail escapedChar cs [] cs).map fun (taken, rest) =>
    (String.ofList taken, rest)

/-- Passes over a text up to its closing quote. -/
def skipTextTail : Reader Unit := fun cs =>
  (quotedTail anyEscape cs [] cs).map fun (_, rest) => ((), rest)

end Reader
end MediaHost.Json
