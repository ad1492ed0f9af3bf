import MediaHost.Engine.Basic
import MediaHost.Error
import MediaHost.Notice
import MediaHost.Picture.PixelBuffer

/-!
# Engine — Handle

A pipeline of the engine as its owner holds it.  Volume and bitrate limit are moved into `0 ..
1` before they reach the engine; everything else is passed on as it is.  `Acquisition.poll`
brings the newest frame into an image.
-/

namespace MediaHost

/-- A pipeline under the name its owner gave it. -/
structure Handle where
  name : String
  id : Nat
deriving DecidableEq, Repr

namespace Handle

/-- Asks the engine for a pipeline. -/
def create (e : Engine) (name : String) (callbacks : Callbacks) (userdata : Nat) :
    Engine × Except Error Handle :=
  match e.create name callbacks userdata with
  | (e, none) => (e, .error (.pipelineCreation name))
  | (e, some id) => (e, .ok ⟨name, id⟩)

/-- Silence for what is no number. -/
def setVolume (h : Handle) (e : Engine) (volume : Double) : Engine :=
  e.setVolume h.id (Double.toUnit volume .zero)

/-- No limit for what is no number. -/
def setBitrateLimit (h : Handle) (e : Engine) (limit : Single) : Engine :=
  e.setBitrateLimit h.id (Single.toUnit limit Single.one)

/-- The warning that the pipeline was given up. -/
def leakNotice (h : Handle) : Notice := .leaked h.name h.id

def describe (h : Handle) : String :=
  "NativePipeline \x7b name: " ++ quoted h.name ++ ", handle: PipelineId(" ++ toString h.id ++
    ") \x7d"

end Handle

/-- What one look for a frame found. -/
inductive Poll
  /-- No new frame, or one without pixels. -/
  | idle
  /-- A new frame is in the image; `first` since the last start, and `resized` if the image had
  another size. -/
  | frame (size : Size) (first resized : Bool)
  /-- The look panicked: the new frame is too large for the image. -/
  | overflow
deriving DecidableEq, Repr

/-- The frames brought into an image so far. -/
structure Acquisition where
  last : Option Size := none
  /-- The next frame is the first one. -/
  awaitingFirst : Bool := true
  frames : Nat := 0
deriving DecidableEq, Repr

namespace Acquisition

instance : Inhabited Acquisition := ⟨{}⟩

/-- The next frame counts as the first one again. -/
def rearm (a : Acquisition) : Acquisition := { a with awaitingFirst := true }

/-- A frame of the given size was brought in. -/
def record (a : Acquisition) (size : Size) : Acquisition where
  last := some size
  awaitingFirst := false
  frames := a.frames + 1

end Acquisition

/-- Copies the last frame of a pipeline to the image, if it has a surface. -/
def Image.blit (i : Image) (e : Engine) (id : Nat) : Except Error (Image × Engine) :=
  i.surface.map fun
    | none => (i, e)
    | some surface =>
      match e.blit id surface with
      | (e, none) => (i, e)
      | (e, some frame) => (i.paint frame surface, e)

/-- What a look for a frame leaves behind. -/
structure PollResult where
  acquisition : Acquisition
  image : Image
  engine : Engine
  callbacks : List Callback
  poll : Poll

/-- Grabs the newest frame and copies it into the image, which takes the frame's size first.  A
frame without pixels is dropped, and so is one too large for the image. -/
def Acquisition.poll (a : Acquisition) (image : Image) (e : Engine) (id : Nat) : PollResult :=
  match e.grab id with
  | (e, none, callbacks) => ⟨a, image, e, callbacks, .idle⟩
  | (e, some size, callbacks) =>
    if size.isEmpty then ⟨a, image, e, callbacks, .idle⟩
    else
      let resized := image.size ≠ size
      match if resized then image.resize size else .ok image with
      | .error _ => ⟨a, image, e, callbacks, .overflow⟩
      | .ok image =>
        match image.blit e id with
        | .error _ => ⟨a, image, e, callbacks, .overflow⟩
        | .ok (image, e) =>
          ⟨a.record size, image, e, callbacks, .frame size a.awaitingFirst resized⟩

end MediaHost
