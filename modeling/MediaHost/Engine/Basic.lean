import MediaHost.Engine.Pipeline
import MediaHost.Table

/-!
# Engine — Basic

The engine: its pipelines by number, and the history of everything it was asked to do.  A
request for a pipeline that does not exist is remembered like any other and has no effect.
Where a request makes the engine call back, it does so from threads of its own: the callbacks are
part of the request's result, and `prompt` and `endDelay` say when they come.
-/

namespace MediaHost

/-- The requests the engine takes for one pipeline. -/
inductive Call
  | create
  | destroy
  | setupDecoding
  | setupEncoding
  | play
  | pause
  | stop
  | close
  | isLoaded
  | isPlaying
  | grabFrame
  | blitImage
  | consumeImage
  | stopEncoding
  | duration
  | position
  | setPosition
  | setBaseTime
  | setVolume
  | setBitrateLimit
deriving DecidableEq, Repr

namespace Call

def name : Call → String
  | .create => "create"
  | .destroy => "destroy"
  | .setupDecoding => "setup_decoding"
  | .setupEncoding => "setup_encoding"
  | .play => "play"
  | .pause => "pause"
  | .stop => "stop"
  | .close => "close"
  | .isLoaded => "is_loaded"
  | .isPlaying => "is_playing"
  | .grabFrame => "grab_frame"
  | .blitImage => "blit_image"
  | .consumeImage => "consume_image"
  | .stopEncoding => "stop_encoding"
  | .duration => "duration"
  | .position => "position"
  | .setPosition => "set_position"
  | .setBaseTime => "set_basetime"
  | .setVolume => "set_volume"
  | .setBitrateLimit => "set_adaptive_bitrate_limit"

def all : List Call :=
  [.create, .destroy, .setupDecoding, .setupEncoding, .play, .pause, .stop, .close, .isLoaded,
    .isPlaying, .grabFrame, .blitImage, .consumeImage, .stopEncoding, .duration, .position,
    .setPosition, .setBaseTime, .setVolume, .setBitrateLimit]

end Call

/-- One thing the engine was asked to do. -/
inductive Request
  /-- Start; only starts that succeed are remembered. -/
  | startUp
  | shutDown
  /-- A request for one pipeline; a creation has no pipeline yet and counts under zero. -/
  | call (id : Nat) (call : Call)
deriving DecidableEq, Repr

structure Engine where
  /-- Milliseconds from the end of an encoded stream to its report. -/
  endDelay : Nat := 0
  /-- A thread that the engine starts to call back runs before whoever started it goes on. -/
  prompt : Bool := true
  autoFrames : Option AutoFrames := none
  /-- The length of any media, in seconds. -/
  duration : Double := Binary.ofNat 10
  /-- How many more starts fail. -/
  failingStarts : Nat := 0
  /-- The next pipeline is not made. -/
  refuseNextCreate : Bool := false
  /-- The number of the next pipeline. -/
  nextId : Nat := 1
  pipelines : Table Pipeline := {}
  active : Bool := false
  levels : Option String := none
  /-- The engine's messages are passed on. -/
  forwardsLog : Bool := false
  /-- Everything asked so far, the latest first. -/
  history : List Request := []

namespace Engine

instance : Inhabited Engine := ⟨{}⟩

/-- Number of a pipeline that no pipeline has. -/
def noPipeline : Nat := 0

/-- A thread that reports an end runs before whoever started it goes on: it is prompt, and has no
time to sleep. -/
def endsAtOnce (e : Engine) : Bool := e.prompt && e.endDelay == 0

/-- What a started engine says first. -/
def greeting : Int × String := (3, "simulated engine initialized")

def callCount (e : Engine) (id : Nat) (call : Call) : Nat := e.history.count (.call id call)

def startCount (e : Engine) : Nat := e.history.count .startUp

def shutDownCount (e : Engine) : Nat := e.history.count .shutDown

/-- Remembers a request. -/
def asked (e : Engine) (r : Request) : Engine := { e with history := r :: e.history }

/-- A request that changes a pipeline. -/
def change (e : Engine) (id : Nat) (call : Call) (f : Pipeline → Pipeline) : Engine :=
  { e.asked (.call id call) with pipelines := e.pipelines.modify id f }

/-- A request that asks a pipeline something. -/
def ask {α : Type} (e : Engine) (id : Nat) (call : Call) (f : Pipeline → α) : Engine × Option α :=
  (e.asked (.call id call), (e.pipelines.get? id).map f)

/-- Starts the engine; says whether it did. -/
def startUp (e : Engine) (levels : Option String) (forwardsLog : Bool) : Engine × Bool :=
  if 0 < e.failingStarts then ({ e with failingStarts := e.failingStarts - 1 }, false)
  else
    ({ e.asked .startUp with active := true, levels := levels, forwardsLog := forwardsLog },
      true)

def shutDown (e : Engine) : Engine :=
  { e.asked .shutDown with active := false, forwardsLog := false }

/-- Makes a pipeline and says its number, unless the engine refuses. -/
def create (e : Engine) (name : String) (callbacks : Callbacks) (userdata : Nat) :
    Engine × Option Nat :=
  let e := e.asked (.call noPipeline .create)
  if e.refuseNextCreate then ({ e with refuseNextCreate := false }, none)
  else
    ({ e with
        nextId := e.nextId + 1
        pipelines := e.pipelines.set e.nextId
          { name := name, userdata := userdata, callbacks := callbacks, duration := e.duration } },
      some e.nextId)

def destroy (e : Engine) (id : Nat) : Engine :=
  { e.asked (.call id .destroy) with pipelines := e.pipelines.erase id }

/-- The callback that an event of a pipeline makes, if any. -/
def callbackOf (e : Engine) (id : Nat) (event : Event) : List Callback :=
  ((e.pipelines.get? id).bind (·.callback event)).toList

/-- Sets up media to decode; media that cannot be opened is reported. -/
def setupDecoding (e : Engine) (id : Nat) (d : Decoding) : Engine × List Callback :=
  let e := e.change id .setupDecoding (·.setupDecoding d)
  (e,
    if Pipeline.namesResource d.uri.toList then []
    else e.callbackOf id (Pipeline.openFailure d.uri))

def setupEncoding (e : Engine) (id : Nat) (enc : Encoding) : Engine :=
  e.change id .setupEncoding (·.setupEncoding enc)

def play (e : Engine) (id : Nat) : Engine := e.change id .play (·.play)

def pause (e : Engine) (id : Nat) : Engine := e.change id .pause (·.pause)

def stop (e : Engine) (id : Nat) : Engine := e.change id .stop (·.stop)

def close (e : Engine) (id : Nat) : Engine := e.change id .close (·.close)

def isLoaded (e : Engine) (id : Nat) : Engine × Bool :=
  let (e, answer) := e.ask id .isLoaded (·.loaded)
  (e, answer.getD false)

def isPlaying (e : Engine) (id : Nat) : Engine × Bool :=
  let (e, answer) := e.ask id .isPlaying (·.playing)
  (e, answer.getD false)

/-- Takes the newest frame of a pipeline: its size, and what the engine reports on the way. -/
def grab (e : Engine) (id : Nat) : Engine × Option Size × List Callback :=
  match e.pipelines.get? id with
  | none => (e.asked (.call id .grabFrame), none, [])
  | some p =>
    let (grabbed, size, event) := p.grab e.autoFrames
    ({ e.asked (.call id .grabFrame) with pipelines := e.pipelines.set id grabbed }, size,
      (event.bind p.callback).toList)

/-- Copies the last frame of a pipeline to a surface: the frame to paint there, if any. -/
def blit (e : Engine) (id : Nat) (s : Surface) : Engine × Option Frame :=
  (e.change id .blitImage (·.blit s), (e.pipelines.get? id).bind (·.grabbed))

def consume (e : Engine) (id : Nat) (data : Array UInt8) : Engine :=
  e.change id .consumeImage (·.consume data)

/-- Ends an encoded stream.  Its end is reported `endDelay` later. -/
def stopEncoding (e : Engine) (id : Nat) : Engine × List Callback :=
  match e.pipelines.get? id with
  | none => (e.asked (.call id .stopEncoding), [])
  | some p =>
    let (stopped, event) := p.stopEncoding
    ({ e.asked (.call id .stopEncoding) with pipelines := e.pipelines.set id stopped },
      (event.bind p.callback).toList)

def durationOf (e : Engine) (id : Nat) : Engine × Double :=
  let (e, answer) := e.ask id .duration (·.duration)
  (e, answer.getD .zero)

def positionOf (e : Engine) (id : Nat) : Engine × Double :=
  let (e, answer) := e.ask id .position (·.position)
  (e, answer.getD .zero)

def setPosition (e : Engine) (id : Nat) (seconds : Double) : Engine :=
  e.change id .setPosition (·.setPosition seconds)

def setBaseTime (e : Engine) (id : Nat) (time : UInt64) : Engine :=
  e.change id .setBaseTime fun p => { p with baseTime := time }

def setVolume (e : Engine) (id : Nat) (volume : Double) : Engine :=
  e.change id .setVolume fun p => { p with volume := volume }

def setBitrateLimit (e : Engine) (id : Nat) (limit : Single) : Engine :=
  e.change id .setBitrateLimit fun p => { p with bitrateLimit := limit }

/-- Makes a decoded frame ready for the next grab. -/
def push (e : Engine) (id : Nat) (f : Frame) : Engine :=
  { e with pipelines := e.pipelines.modify id (·.push f) }

/-- The words of an error the engine raises; they cannot hold a NUL. -/
def errorText (s : String) : String := s.map fun c => if c = '\x00' then ' ' else c

end Engine
end MediaHost
