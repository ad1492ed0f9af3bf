import MediaHost.Config.Basic
import MediaHost.Event
import MediaHost.Phase
import MediaHost.Picture.Frame

/-!
# Engine — Pipeline

One pipeline as the engine keeps it: the media it was set up for, what it was asked to do, and
the frame ready to be grabbed.  `grab` is its heart: it starts media that was asked to play,
takes the newest frame, and reports the end of the media once.
-/

namespace MediaHost

/-- A source that makes a frame for every grab while media plays. -/
structure AutoFrames where
  size : Size
  /-- Seconds of media to a frame. -/
  step : Double
deriving DecidableEq

/-- One copy of a frame to a surface. -/
structure Blit where
  frame : Size
  surface : Size
deriving DecidableEq, Repr

/-- A pipeline as the engine keeps it. -/
structure Pipeline where
  name : String
  /-- Handed back with every callback. -/
  userdata : Nat
  callbacks : Callbacks
  direction : Option Direction := none
  uri : Option String := none
  decoding : Option Decoding := none
  encoding : Option Encoding := none
  loaded : Bool := false
  playing : Bool := false
  /-- Media that was asked to play starts at the next grab. -/
  playRequested : Bool := false
  /-- Ready to be grabbed. -/
  pending : Option Frame := none
  /-- The last frame grabbed, after cropping. -/
  grabbed : Option Frame := none
  framesGrabbed : Nat := 0
  /-- The last copies, oldest first. -/
  blits : List Blit := []
  consumed : Nat := 0
  lastConsumed : Option (Array UInt8) := none
  /-- In seconds. -/
  position : Double := .zero
  duration : Double
  volume : Double := Double.one
  baseTime : UInt64 := 0
  bitrateLimit : Single := Single.one
  /-- The end of the stream was reported, and has not been made possible again since. -/
  endSent : Bool := false
deriving DecidableEq

namespace Pipeline

/-- How many copies are remembered. -/
def blitHistory : Nat := 64

/-- After how many frames a self-driven source reports its quality. -/
def reportInterval : Nat := 30

/-- A resource is named by a scheme, which `://` ends. -/
def namesResource : List Char → Bool
  | [] => false
  | ':' :: '/' :: '/' :: _ => true
  | _ :: cs => namesResource cs

/-- Why media could not be set up.  The engine's messages end at a NUL, so one that would
contain it is empty. -/
def openFailure (uri : String) : Event :=
  .failed (if uri.contains '\x00' then "" else "Could not open resource " ++ uri)

/-- Media to decode; it is loaded if it names a resource. -/
def setupDecoding (p : Pipeline) (d : Decoding) : Pipeline :=
  { p with
    direction := some .decoding
    uri := some d.uri
    decoding := some d
    loaded := namesResource d.uri.toList
    playing := false
    playRequested := false
    position := .zero
    endSent := false
    baseTime := d.baseTime }

/-- A file to encode into. -/
def setupEncoding (p : Pipeline) (e : Encoding) : Pipeline :=
  { p with
    direction := some .encoding
    encoding := some e
    loaded := true
    playing := false
    playRequested := false
    consumed := 0
    lastConsumed := none
    endSent := false }

/-- An encoder plays at once, a decoder from the next grab on; without media neither does. -/
def play (p : Pipeline) : Pipeline :=
  { p with
    playRequested := p.loaded
    playing := if p.direction = some .encoding then p.loaded else p.playing }

def pause (p : Pipeline) : Pipeline := { p with playing := false, playRequested := false }

def stop (p : Pipeline) : Pipeline :=
  { p with playing := false, playRequested := false, position := .zero, endSent := false }

/-- Releases the media and any frame made of it. -/
def close (p : Pipeline) : Pipeline :=
  { p with
    loaded := false, playing := false, playRequested := false, pending := none, grabbed := none }

def setPosition (p : Pipeline) (seconds : Double) : Pipeline :=
  { p with position := seconds, endSent := false }

/-- Makes a frame ready, in place of one not yet grabbed. -/
def push (p : Pipeline) (f : Frame) : Pipeline := { p with pending := some f }

/-- Media that was asked to play and is loaded plays. -/
def begin (p : Pipeline) : Pipeline :=
  { p with playing := p.playing || (p.playRequested && p.loaded) }

/-- The colour of the `n`th self-made frame. -/
def autoColour (n : Nat) : Colour := ⟨UInt8.ofNat n, 0x40, 0x80, 0xff⟩

/-- A self-driven source makes the next frame ready, or finds the media at its end; the flag
says which. -/
def produce (p : Pipeline) (auto : Option AutoFrames) : Pipeline × Bool :=
  match auto with
  | none => (p, false)
  | some auto =>
    if p.pending.isNone && p.playing && !p.endSent then
      if p.duration.le p.position then ({ p with endSent := true }, true)
      else
        ({ p with
            position := p.position.add auto.step
            pending := some ⟨auto.size, autoColour p.framesGrabbed⟩ }, false)
    else (p, false)

/-- What a self-driven source reports of its quality. -/
def report (p : Pipeline) : QualityReport :=
  let time := UInt64.ofNat ((p.position.mul (Binary.ofNat 1000000000)).truncate (UInt64.size - 1))
  { jitter := 250000
    runningTime := time
    streamTime := time
    timestamp := time
    proportion := Double.one
    processed := UInt64.ofNat p.framesGrabbed
    dropped := UInt64.ofNat (p.framesGrabbed / 50) }

/-- The crop of the last decoding setup. -/
def crop (p : Pipeline) : Crop := (p.decoding.map (·.crop)).getD .none

/-- Takes the frame that is ready, if there is one. -/
def take (p : Pipeline) : Pipeline × Option Size :=
  match p.pending with
  | none => (p, none)
  | some frame =>
    let size := p.crop.apply frame.size
    ({ p with
        pending := none
        grabbed := some ⟨size, frame.colour⟩
        framesGrabbed := p.framesGrabbed + 1 }, some size)

/-- Takes the newest frame: the pipeline, the frame's size, and what happened on the way. -/
def grab (p : Pipeline) (auto : Option AutoFrames) : Pipeline × Option Size × Option Event :=
  let (produced, ended) := p.begin.produce auto
  if ended then (produced, none, some .finished)
  else
    let (taken, size) := produced.take
    let due := auto.isSome && size.isSome && taken.framesGrabbed % reportInterval == 0
    (taken, size, if due then some (.quality taken.report) else none)

/-- Remembers a copy of the last frame to a surface; without a frame there is nothing to copy. -/
def blit (p : Pipeline) (s : Surface) : Pipeline :=
  match p.grabbed with
  | none => p
  | some frame =>
    let kept := if blitHistory ≤ p.blits.length then p.blits.drop 1 else p.blits
    { p with blits := kept ++ [⟨frame.size, s.size⟩] }

def consume (p : Pipeline) (data : Array UInt8) : Pipeline :=
  { p with consumed := p.consumed + 1, lastConsumed := some data }

/-- Ends an encoded stream: running media reports its end, once. -/
def stopEncoding (p : Pipeline) : Pipeline × Option Event :=
  if p.endSent || !(p.loaded && p.playing) then (p, none)
  else ({ p with endSent := true }, some .finished)

/-- The event as a callback, if the owner asked to be told of it. -/
def callback (p : Pipeline) (e : Event) : Option Callback :=
  if p.callbacks.accepts e then some ⟨p.userdata, e⟩ else none

end Pipeline
end MediaHost
