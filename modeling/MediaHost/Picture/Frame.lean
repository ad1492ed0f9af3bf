import MediaHost.Config.Crop

/-!
# Picture — Frame

A decoded frame of one colour, the surface it is copied to, and the copy: from the top left, row
by row and pixel by pixel, as far as both the frame and the surface reach.
-/

namespace MediaHost

/-- Red, green, blue and alpha, in the order of their bytes. -/
structure Colour where
  red : UInt8
  green : UInt8
  blue : UInt8
  alpha : UInt8
deriving DecidableEq, Repr, Inhabited

/-- The byte at one of the four places of a pixel. -/
def Colour.channel (c : Colour) : Nat → UInt8
  | 0 => c.red
  | 1 => c.green
  | 2 => c.blue
  | _ => c.alpha

/-- A picture that has one colour throughout. -/
structure Frame where
  size : Size
  colour : Colour
deriving DecidableEq, Repr

/-- Where pictures are copied to: rows of `stride` bytes each. -/
structure Surface where
  size : Size
  stride : UInt32
deriving DecidableEq, Repr

namespace Frame

/-- Goes through the bytes of the copy to a surface: the rows from the top, the pixels of a row
from the left, the bytes of a pixel in their order.  `put` is told where a byte is to be written,
and which. -/
def draw {α : Type} (f : Frame) (s : Surface) (put : α → Nat → UInt8 → α) (start : α) : α :=
  let rows := min f.size.height.toNat s.size.height.toNat
  let columns := min f.size.width.toNat s.size.width.toNat
  let pixel (row x : Nat) (a : α) : α :=
    (List.range 4).foldl (fun a k => put a (row + (4 * x + k)) (f.colour.channel k)) a
  (List.range rows).foldl (fun a y =>
    (List.range columns).foldl (fun a x => pixel (y * s.stride.toNat) x a) a) start

/-- The bytes of a surface after the frame is copied there. -/
def paint {n : Nat} (f : Frame) (s : Surface) (bytes : Vector UInt8 n) : Vector UInt8 n :=
  f.draw s (fun bytes i byte => bytes.setIfInBounds i byte) bytes

end Frame
end MediaHost
