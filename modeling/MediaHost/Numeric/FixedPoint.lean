import MediaHost.Numeric.Arithmetic

/-!
# Numeric — FixedPoint

Text with a fixed number of decimal places.  The exact value of the number is rounded once, a
tie going to the even last digit; the sign is kept on a zero.
-/

namespace MediaHost

/-- `n` in units of the last of `places` decimal places, with a point before them. -/
def decimalPoint (n places : Nat) : String :=
  let digits := (Nat.toDigits 10 n).leftpad (places + 1) '0'
  let whole := digits.length - places
  String.ofList (digits.take whole) ++
    (if places = 0 then "" else "." ++ String.ofList (digits.drop whole))

namespace Binary
variable {F : Format}

/-- The number with `places` decimal places. -/
def toFixed (places : Nat) (x : Binary F) : String :=
  let sign := if x.isNegative then "-" else ""
  if x.isNaN then "NaN"
  else if x.isInfinite then sign ++ "inf"
  else
    let units := roundQuotient (x.significand * 10 ^ places * 2 ^ x.exponent.toNat)
      (2 ^ (-x.exponent).toNat)
    sign ++ decimalPoint units places

end Binary
end MediaHost
