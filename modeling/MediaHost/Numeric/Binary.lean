/-!
# Numeric — Binary

Binary floating-point numbers as bit patterns.  A `Format` says how many bits hold the fraction
and how many the exponent; a `Binary F` is one pattern of that format.  Everything is read off
the pattern in exact integer arithmetic: a finite number is `± significand * 2 ^ exponent`, and
the order of two numbers is the order of their `key`s.
-/

namespace MediaHost

/-- Powers of natural numbers are the built-in ones, whatever other powers are in scope. -/
scoped instance (priority := high) powNat : Pow Nat Nat := instPowNat

/-- How many bits of a pattern hold the fraction, and how many the exponent. -/
structure Format where
  fractionBits : Nat
  exponentBits : Nat
deriving DecidableEq, Repr

namespace Format

/-- The 32-bit format. -/
def single : Format := ⟨23, 8⟩

/-- The 64-bit format. -/
def double : Format := ⟨52, 11⟩

/-- All bits: the sign, the exponent, the fraction. -/
def width (F : Format) : Nat := 1 + F.exponentBits + F.fractionBits

/-- The pattern without its sign that stands for infinity.  Those above it are not numbers. -/
def infinity (F : Format) : Nat := (2 ^ F.exponentBits - 1) * 2 ^ F.fractionBits

/-- The exponent of the last bit of the smallest numbers. -/
def minExponent (F : Format) : Int :=
  2 - (2 ^ (F.exponentBits - 1) : Nat) - F.fractionBits

end Format

/-- A bit pattern of the format `F`: the sign first, then the exponent, then the fraction. -/
structure Binary (F : Format) where
  bits : BitVec F.width
deriving DecidableEq

/-- A 32-bit floating-point number. -/
abbrev Single := Binary .single

/-- A 64-bit floating-point number. -/
abbrev Double := Binary .double

namespace Binary
variable {F : Format}

/-- The pattern with the bits of `n`. -/
def ofBits (n : Nat) : Binary F := ⟨BitVec.ofNat F.width n⟩

/-- The pattern with a given sign and remaining bits. -/
def ofParts (negative : Bool) (magnitude : Nat) : Binary F :=
  ofBits (if negative then 2 ^ (F.width - 1) + magnitude else magnitude)

/-- The bits as a number. -/
def toNat (x : Binary F) : Nat := x.bits.toNat

def isNegative (x : Binary F) : Bool := 2 ^ (F.width - 1) ≤ x.toNat

/-- The pattern without its sign. -/
def magnitude (x : Binary F) : Nat := x.toNat % 2 ^ (F.width - 1)

def isNaN (x : Binary F) : Bool := F.infinity < x.magnitude

def isInfinite (x : Binary F) : Bool := x.magnitude = F.infinity

def isZero (x : Binary F) : Bool := x.magnitude = 0

def exponentField (x : Binary F) : Nat := x.magnitude / 2 ^ F.fractionBits

def fractionField (x : Binary F) : Nat := x.magnitude % 2 ^ F.fractionBits

/-- The integer factor of a finite number: an exponent field of zero leaves out the leading
bit. -/
def significand (x : Binary F) : Nat :=
  if x.exponentField = 0 then x.fractionField else 2 ^ F.fractionBits + x.fractionField

/-- The power of two that scales the significand of a finite number. -/
def exponent (x : Binary F) : Int := F.minExponent + ((max x.exponentField 1 : Nat) - 1 : Int)

/-- The rank of a number among the numbers; both zeros have rank `0`. -/
def key (x : Binary F) : Int := if x.isNegative then -(x.magnitude : Int) else x.magnitude

/-- Less than, as numbers: false when either side is not a number. -/
def lt (x y : Binary F) : Bool := !x.isNaN && !y.isNaN && decide (x.key < y.key)

/-- At most, as numbers: false when either side is not a number. -/
def le (x y : Binary F) : Bool := !x.isNaN && !y.isNaN && decide (x.key ≤ y.key)

/-- Equal as numbers: the two zeros are equal, and what is not a number equals nothing. -/
def same (x y : Binary F) : Bool := !x.isNaN && !y.isNaN && decide (x.key = y.key)

/-- The number with the other sign. -/
def negate (x : Binary F) : Binary F := ofParts (!x.isNegative) x.magnitude

def zero : Binary F := ofParts false 0

/-- The quiet pattern that is not a number. -/
def nan : Binary F := ofParts false (F.infinity + 2 ^ (F.fractionBits - 1))

/-- Infinity with a given sign. -/
def infinite (negative : Bool) : Binary F := ofParts negative F.infinity

/-- The number moved into `lo .. hi`.  What is not a number stays as it is. -/
def clamp (x lo hi : Binary F) : Binary F :=
  let raised := if x.lt lo then lo else x
  if hi.lt raised then hi else raised

instance : Inhabited (Binary F) := ⟨zero⟩

end Binary

/-- One in 32 bits. -/
def Single.one : Single := ⟨0x3f800000⟩

/-- One in 64 bits. -/
def Double.one : Double := ⟨0x3ff0000000000000⟩

/-- Moved into `0 .. 1`, with `whenNaN` for what is not a number. -/
def Single.toUnit (x whenNaN : Single) : Single :=
  if x.isNaN then whenNaN else x.clamp .zero one

/-- Moved into `0 .. 1`, with `whenNaN` for what is not a number. -/
def Double.toUnit (x whenNaN : Double) : Double :=
  if x.isNaN then whenNaN else x.clamp .zero one

end MediaHost
