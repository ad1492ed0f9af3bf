/-!
# Text — Blank

The characters that count as white space in a text for people, and a text without those at its
end.
-/

namespace MediaHost

/-- White space of any script, line and page breaks included. -/
def isBlank (c : Char) : Bool :=
  let n := c.toNat
  (0x09 ≤ n && n ≤ 0x0d) || n == 0x20 || n == 0x85 || n == 0xa0 || n == 0x1680 ||
    (0x2000 ≤ n && n ≤ 0x200a) || n == 0x2028 || n == 0x2029 || n == 0x202f || n == 0x205f ||
    n == 0x3000

/-- The text up to its last character that is not blank. -/
def withoutTrailingBlanks (s : String) : String :=
  String.ofList (s.toList.reverse.dropWhile isBlank).reverse

end MediaHost
