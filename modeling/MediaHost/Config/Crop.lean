import MediaHost.Error
import MediaHost.Numeric.Arithmetic

/-!
# Config — Crop

The parts of a decoded picture to leave out on each side, as fractions of its size, and the
size that is left.
-/

namespace MediaHost

/-- Width and height in pixels. -/
structure Size where
  width : UInt32
  height : UInt32
deriving DecidableEq, Repr, Inhabited

namespace Size

/-- A size with a side of zero. -/
def isEmpty (s : Size) : Bool := s.width == 0 || s.height == 0

/-- The bytes of a picture of this size, four to a pixel. -/
def bytes (s : Size) : Nat := s.width.toNat * s.height.toNat * 4

/-- The bytes, counted in 64 bits. -/
def length (s : Size) : Except Error Nat :=
  if s.bytes < UInt64.size then .ok s.bytes else .error .overflow

/-- Whether `count` bytes are a picture of this size. -/
def check (s : Size) (count : Nat) : Except Error Unit :=
  match s.length with
  | .error e => .error e
  | .ok expected => if count ≠ expected then .error (.frameSize expected count) else .ok ()

/-- Width and height with an `x` between them. -/
def text (s : Size) : String := toString s.width.toNat ++ "x" ++ toString s.height.toNat

end Size

/-- Fractions of the picture left out on each side. -/
structure Crop where
  left : Single := .zero
  top : Single := .zero
  right : Single := .zero
  bottom : Single := .zero
deriving DecidableEq

namespace Crop

/-- Leaves the whole picture. -/
def none : Crop := {}

/-- Something is left on both axes. -/
def isEffective (c : Crop) : Bool :=
  (c.left.add c.right).lt Single.one && (c.top.add c.bottom).lt Single.one

/-- Nothing is left out on any side. -/
def isZero (c : Crop) : Bool :=
  c.left.same .zero && c.top.same .zero && c.right.same .zero && c.bottom.same .zero

/-- Every side moved into `0 .. 1`. -/
def clamped (c : Crop) : Crop where
  left := c.left.clamp .zero Single.one
  top := c.top.clamp .zero Single.one
  right := c.right.clamp .zero Single.one
  bottom := c.bottom.clamp .zero Single.one

/-- Every side moved into `0 .. 1`, or no crop if then nothing would be left. -/
def normalized (c : Crop) : Crop := if c.clamped.isEffective then c.clamped else none

/-- What is left of a side of `length` pixels without `before` and `after`. -/
def sideLeft (length : UInt32) (before after : Single) : UInt32 :=
  let left := (Binary.ofNat length.toNat : Single).mul ((Single.one.sub before).sub after)
  UInt32.ofNat (left.truncate (UInt32.size - 1))

/-- The size of a picture after cropping. -/
def apply (c : Crop) (s : Size) : Size :=
  ⟨sideLeft s.width c.left c.right, sideLeft s.height c.top c.bottom⟩

/-- The same fractions on every side, as numbers. -/
def same (c d : Crop) : Bool :=
  c.left.same d.left && c.top.same d.top && c.right.same d.right && c.bottom.same d.bottom

end Crop
end MediaHost
