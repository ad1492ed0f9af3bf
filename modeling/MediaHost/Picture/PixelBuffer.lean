import MediaHost.Picture.Frame

/-!
# Picture — PixelBuffer

An image in memory: rows of pixels from the top, four bytes each, without gaps.
-/

namespace MediaHost

/-- As many bytes as the size asks for. -/
structure PixelBuffer where
  size : Size
  bytes : Vector UInt8 size.bytes

namespace PixelBuffer

/-- All bytes zero. -/
def blank (size : Size) : PixelBuffer := ⟨size, .replicate size.bytes 0⟩

/-- A blank image, unless it has too many bytes to count. -/
def new (size : Size) : Except Error PixelBuffer := size.length.map fun _ => blank size

/-- A blank image of another size; nothing of the old one is kept. -/
def resize (_ : PixelBuffer) (size : Size) : Except Error PixelBuffer := new size

/-- The pixel in column `x` of row `y`. -/
def pixel? (b : PixelBuffer) (x y : UInt32) : Option Colour :=
  if x < b.size.width && y < b.size.height then
    let offset := (y.toNat * b.size.width.toNat + x.toNat) * 4
    let byte (i : Nat) : UInt8 := b.bytes.toArray.getD (offset + i) 0
    some ⟨byte 0, byte 1, byte 2, byte 3⟩
  else none

/-- The surface to copy frames to, unless the image has no bytes.  The length of its rows is
counted in 32 bits. -/
def surface (b : PixelBuffer) : Except Error (Option Surface) :=
  if b.size.bytes = 0 then .ok none
  else if 4 * b.size.width.toNat < UInt32.size then .ok (some ⟨b.size, b.size.width * 4⟩)
  else .error .overflow

/-- Writes one byte through the surface; none if there is no surface, false if the byte is
outside. -/
def write (b : PixelBuffer) (i : Nat) (byte : UInt8) : Except Error (PixelBuffer × Option Bool) :=
  b.surface.map fun
    | none => (b, none)
    | some _ =>
      if h : i < b.size.bytes then (⟨b.size, b.bytes.set i byte h⟩, some true)
      else (b, some false)

/-- Copies a frame through a surface onto the image. -/
def paint (b : PixelBuffer) (f : Frame) (s : Surface) : PixelBuffer :=
  ⟨b.size, f.paint s b.bytes⟩

def describe (b : PixelBuffer) : String :=
  "PixelBuffer \x7b width: " ++ toString b.size.width.toNat ++
    ", height: " ++ toString b.size.height.toNat ++ " \x7d"

end PixelBuffer

/-- What a session draws into. -/
inductive Image
  /-- An image in memory. -/
  | pixels (buffer : PixelBuffer)
  /-- An image of which only the size is known; there is nothing to copy to. -/
  | outline (size : Size)

namespace Image

def size : Image → Size
  | .pixels b => b.size
  | .outline s => s

def resize (i : Image) (size : Size) : Except Error Image :=
  match i with
  | .pixels b => (b.resize size).map .pixels
  | .outline _ => .ok (.outline size)

def surface : Image → Except Error (Option Surface)
  | .pixels b => b.surface
  | .outline _ => .ok none

def paint (i : Image) (f : Frame) (s : Surface) : Image :=
  match i with
  | .pixels b => .pixels (b.paint f s)
  | .outline size => .outline size

end Image
end MediaHost
