import MediaHost.Json.Reader
import MediaHost.Numeric.Arithmetic

/-!
# Json — Number

Numbers.  An integer literal that fits in 64 bits is that integer; any other literal is a
64-bit floating-point number, made of the leading digits that fit in 64 bits, scaled by a power
of ten in one multiplication or division.  A literal too large for that is malformed.
-/

namespace MediaHost.Json

/-- A number as its literal says. -/
inductive Number
  /-- An integer from zero up. -/
  | natural (n : Nat)
  /-- The integer `-n`. -/
  | negative (n : Nat)
  | real (x : Double)
deriving DecidableEq

namespace Number

/-- Integers below this are read exactly. -/
def limit : Nat := UInt64.size

/-- Appends digits to `n` while the result stays below the limit: the result, how many digits
it took, and the rest. -/
def gather (n : Nat) (taken : Nat) : List Char → Nat × Nat × List Char
  | [] => (n, taken, [])
  | c :: cs =>
    match digit? c with
    | none => (n, taken, c :: cs)
    | some d =>
      if n * 10 + d < limit then gather (n * 10 + d) (taken + 1) cs else (n, taken, c :: cs)

/-- How many digits the text begins with, and the rest. -/
def passDigits (cs : List Char) : Nat × List Char :=
  ((cs.takeWhile isDigit).length, cs.dropWhile isDigit)

/-- The value of the digits the text begins with, and the rest. -/
def digitsValue (cs : List Char) : Nat × List Char :=
  ((cs.takeWhile isDigit).foldl (fun n c => n * 10 + (digit? c).getD 0) 0, cs.dropWhile isDigit)

/-- Ten to the power `n`, rounded to 64 bits. -/
def tenTo (n : Nat) : Double := Binary.ofNat (10 ^ n)

/-- The largest power of ten below infinity. -/
def maxTen : Nat := 308

/-- One multiplication or division by a power of ten; none if the product is infinite. -/
def scaleOnce (x : Double) (e : Int) : Option Double :=
  if 0 ≤ e then
    let y := x.mul (tenTo e.toNat)
    if y.isInfinite then none else some y
  else some (x.div (tenTo (-e).toNat))

/-- `x` times ten to the power `e`; `steps` bounds the divisions by the largest power. -/
def scaleBy : (steps : Nat) → Double → Int → Option Double
  | 0, x, e => scaleOnce x e
  | steps + 1, x, e =>
    if e.natAbs ≤ maxTen then scaleOnce x e
    else if x.isZero then some x
    else if 0 ≤ e then none
    else scaleBy steps (x.div (tenTo maxTen)) (e + maxTen)

/-- `± n` times ten to the power `e`, rounded at each step. -/
def scaled (positive : Bool) (n : Nat) (e : Int) : Option Double :=
  (scaleBy (e.natAbs / maxTen) (Binary.ofNat n) e).map fun x => if positive then x else x.negate

/-- The number `scaled` stands for, malformed if there is none. -/
def ofScaled (positive : Bool) (n : Nat) (e : Int) : Except Fault Number :=
  match scaled positive n e with
  | some x => .ok (.real x)
  | none => .error .malformed

/-- The largest exponent that is taken at its value. -/
def maxExponent : Nat := 0x7fffffff

/-- The exponent after its letter, for the digits `n` scaled by `e`. -/
def exponentTail (positive : Bool) (n : Nat) (e : Int) (cs : List Char) :
    Except Fault (Number × List Char) :=
  let (up, cs) :=
    match cs with
    | '+' :: rest => (true, rest)
    | '-' :: rest => (false, rest)
    | cs => (true, cs)
  match cs with
  | [] => .error .endOfText
  | c :: _ =>
    if !isDigit c then .error .malformed
    else
      let (value, rest) := digitsValue cs
      if maxExponent < value then
        if n ≠ 0 && up then .error .malformed
        else .ok (.real (Binary.ofParts (!positive) 0), rest)
      else do
        let x ← ofScaled positive n (if up then e + value else e - value)
        return (x, rest)

/-- An exponent if there is one, for the digits `n` scaled by `e`. -/
def scaledTail (positive : Bool) (n : Nat) (e : Int) (cs : List Char) :
    Except Fault (Number × List Char) :=
  match cs with
  | 'e' :: rest | 'E' :: rest => exponentTail positive n e rest
  | cs => do
    let x ← ofScaled positive n e
    return (x, cs)

/-- The decimal places after the point, for the digits `n` scaled by `e`. -/
def decimalTail (positive : Bool) (n : Nat) (e : Int) (cs : List Char) :
    Except Fault (Number × List Char) :=
  let (n, taken, rest) := gather n 0 cs
  let (dropped, rest) := passDigits rest
  if taken = 0 && dropped = 0 then
    if rest.isEmpty then .error .endOfText else .error .malformed
  else scaledTail positive n (e - taken) rest

/-- An integer literal without its sign.  Minus zero is not an integer, nor is one below the
64-bit range. -/
def ofInteger (positive : Bool) (n : Nat) : Number :=
  if positive then .natural n
  else if n ≠ 0 && n ≤ 0x8000000000000000 then .negative n
  else .real (Binary.ofNat n : Double).negate

/-- What follows the integer digits: `n`, and `dropped` further digits. -/
def integerTail (positive : Bool) (n dropped : Nat) (cs : List Char) :
    Except Fault (Number × List Char) :=
  match cs with
  | '.' :: rest => decimalTail positive n dropped rest
  | 'e' :: rest | 'E' :: rest => exponentTail positive n dropped rest
  | cs =>
    if dropped = 0 then .ok (ofInteger positive n, cs)
    else do
      let x ← ofScaled positive n dropped
      return (x, cs)

/-- A literal after its sign. -/
def unsigned (positive : Bool) : List Char → Except Fault (Number × List Char)
  | [] => .error .endOfText
  | '0' :: cs =>
    if (cs.head?.map isDigit).getD false then .error .malformed else integerTail positive 0 0 cs
  | c :: cs =>
    if !isDigit c then .error .malformed
    else
      let (n, _, rest) := gather 0 0 (c :: cs)
      let (dropped, rest) := passDigits rest
      integerTail positive n dropped rest

end Number

namespace Reader

/-- The literal at the front of the text, whose first character is a digit or a minus sign. -/
def number : Reader Number := fun cs =>
  match cs with
  | '-' :: rest => Number.unsigned false rest
  | cs => Number.unsigned true cs

/-- At least one digit, and all that follow it. -/
def skipDigits : Reader Unit := fun cs =>
  if (cs.head?.map isDigit).getD false then .ok ((), cs.dropWhile isDigit) else .error .malformed

/-- Passes over an exponent, if there is one. -/
def skipExponent : Reader Unit := do
  match ← peek with
  | some 'e' | some 'E' =>
    advance
    match ← peek with
    | some '+' | some '-' => advance
    | _ => pure ()
    skipDigits
  | _ => pure ()

/-- Passes over a literal after its sign.  Only its spelling matters, and a literal cut short
is malformed. -/
def skipUnsigned : Reader Unit := do
  match ← peek with
  | some '0' =>
    advance
    match ← peek with
    | some c => if isDigit c then fail .malformed
    | none => pure ()
  | _ => skipDigits
  match ← peek with
  | some '.' =>
    advance
    skipDigits
  | _ => pure ()
  skipExponent

end Reader
end MediaHost.Json
