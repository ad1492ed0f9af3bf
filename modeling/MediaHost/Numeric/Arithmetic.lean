import MediaHost.Numeric.Binary

/-!
# Numeric — Arithmetic

The exact result of an operation on binary numbers is a ratio of two integers, and `ofRatio`
rounds a ratio once, to the nearest number of the format, a tie going to the even pattern.
Sums, products, quotients and conversions between integers and formats are that one rounding of
an exact value, with the signs of zero and the infinities settled beforehand.
-/

namespace MediaHost

/-- The integer nearest to `num / den`; a tie goes to the even one. -/
def roundQuotient (num den : Nat) : Nat :=
  let q := num / den
  let r := num % den
  if 2 * r < den then q
  else if den < 2 * r then q + 1
  else q + q % 2

/-- The largest `e` with `2 ^ e ≤ num / den`, for positive `num` and `den`. -/
def ratioLog2 (num den : Nat) : Int :=
  let e : Int := num.log2 - den.log2
  if den * 2 ^ e.toNat ≤ num * 2 ^ (-e).toNat then e else e - 1

namespace Binary
variable {F : Format}

/-- The number nearest to `± num / den`.  Counting patterns from the smallest number upwards, a
step of the last bit is always a step of one, so a significand that rounds up to the next power
of two lands on the right pattern, and one too large lands on infinity. -/
def ofRatio (negative : Bool) (num den : Nat) : Binary F :=
  if num = 0 then ofParts negative 0
  else
    let e := max F.minExponent (ratioLog2 num den - F.fractionBits)
    let q := roundQuotient (num * 2 ^ (-e).toNat) (den * 2 ^ e.toNat)
    ofParts negative (min F.infinity (q + (e - F.minExponent).toNat * 2 ^ F.fractionBits))

/-- The number nearest to `± m * 2 ^ e`. -/
def ofScaled (negative : Bool) (m : Nat) (e : Int) : Binary F :=
  ofRatio negative (m * 2 ^ e.toNat) (2 ^ (-e).toNat)

/-- The number nearest to a natural number. -/
def ofNat (n : Nat) : Binary F := ofRatio false n 1

/-- The number nearest to an integer. -/
def ofInt (n : Int) : Binary F := ofRatio (n < 0) n.natAbs 1

/-- The finite number `x` in units of `2 ^ e`, for `e` at most its own exponent. -/
def unitsOf (x : Binary F) (e : Int) : Int :=
  let m : Int := (x.significand * 2 ^ (x.exponent - e).toNat : Nat)
  if x.isNegative then -m else m

/-- Sum.  A zero sum is negative only if both terms are. -/
def add (x y : Binary F) : Binary F :=
  if x.isNaN || y.isNaN then nan
  else if x.isInfinite then
    if y.isInfinite && x.isNegative != y.isNegative then nan else x
  else if y.isInfinite then y
  else
    let e := min x.exponent y.exponent
    let sum := x.unitsOf e + y.unitsOf e
    if sum = 0 then ofParts (x.isNegative && y.isNegative) 0
    else ofScaled (sum < 0) sum.natAbs e

/-- Difference. -/
def sub (x y : Binary F) : Binary F := if y.isNaN then nan else x.add y.negate

/-- Product. -/
def mul (x y : Binary F) : Binary F :=
  let negative := x.isNegative != y.isNegative
  if x.isNaN || y.isNaN then nan
  else if x.isInfinite || y.isInfinite then
    if x.isZero || y.isZero then nan else infinite negative
  else ofScaled negative (x.significand * y.significand) (x.exponent + y.exponent)

/-- Quotient. -/
def div (x y : Binary F) : Binary F :=
  let negative := x.isNegative != y.isNegative
  if x.isNaN || y.isNaN then nan
  else if x.isInfinite then
    if y.isInfinite then nan else infinite negative
  else if y.isInfinite then ofParts negative 0
  else if y.isZero then
    if x.isZero then nan else infinite negative
  else
    let e := x.exponent - y.exponent
    ofRatio negative (x.significand * 2 ^ e.toNat) (y.significand * 2 ^ (-e).toNat)

/-- The same number in another format, rounded if it does not fit. -/
def convert {G : Format} (x : Binary F) : Binary G :=
  if x.isNaN then nan
  else if x.isInfinite then infinite x.isNegative
  else ofScaled x.isNegative x.significand x.exponent

/-- The number without its fraction, moved into `0 .. limit`; zero for what is not a number. -/
def truncate (limit : Nat) (x : Binary F) : Nat :=
  if x.isNaN || x.isNegative then 0
  else if x.isInfinite then limit
  else min limit (x.significand * 2 ^ x.exponent.toNat / 2 ^ (-x.exponent).toNat)

end Binary
end MediaHost
