import MediaHost.Config.Basic
import MediaHost.Engine.Handle
import MediaHost.Host
import MediaHost.Phase
import MediaHost.Quality.Health
import MediaHost.Session.Observers

/-!
# Session — Basic

A session holds everything that one pipeline needs on the host's side: its settings, the image
it draws into, its queue, its lease on the engine, its pipeline and the binding of that
pipeline's callbacks.
-/

namespace MediaHost

/-- What queued events may change of a session, besides its account. -/
structure Status where
  phase : Phase := .unloaded
  direction : Option Direction := none
  looping : Bool := false
deriving DecidableEq, Repr

/-- Someone who is told, and the program run then, on the queue the session had at
registration. -/
structure Observer where
  label : String
  queue : Nat
  program : Program
  calls : Nat := 0

structure Session where
  name : String
  config : Config
  image : Image
  /-- The queue on which events are delivered. -/
  queue : Nat
  /-- A queue of its own is closed with the session; one shared with others is not. -/
  ownsQueue : Bool := true
  status : Status := {}
  pipeline : Option Handle := none
  lease : Option Lease := none
  token : Option Nat := none
  frames : Acquisition := {}
  /-- The last encoding setup; a decoding setup forgets it. -/
  encoding : Option Encoding := none
  observers : Observers Observer := {}
  health : Health := {}

namespace Session

/-- The name of a session whose configuration gives none. -/
def defaultName : String := "session"

/-- A session drawing into `image`. -/
def new (config : Config) (image : Image) (queue : Nat) : Session where
  name := config.playback.name.getD defaultName
  config := config
  image := image
  queue := queue

/-- A blank image of the configured initial size. -/
def initialImage (c : Config) : Except Error Image :=
  (PixelBuffer.new ⟨c.playback.initialWidth, c.playback.initialHeight⟩).map .pixels

def phase (s : Session) : Phase := s.status.phase

def isUp (s : Session) : Bool := s.pipeline.isSome

/-- The live pipeline, or why there is none. -/
def live (s : Session) : Except Error Handle :=
  if s.phase.isDestroyed then .error .destroyed
  else
    match s.pipeline with
    | none => .error .notInitialized
    | some h => .ok h

/-- Registers an observer. -/
def observe (s : Session) (topic : Topic) (label : String) (program : Program) : Session :=
  { s with observers := s.observers.add topic ⟨label, s.queue, program, 0⟩ }

/-- How a session is written; `token` writes the number of its binding. -/
def describe (s : Session) (token : Nat → String) : String :=
  let binding :=
    match s.token with
    | none => "None"
    | some t => "Some(BindingToken(" ++ token t ++ "))"
  "Session \x7b name: " ++ quoted s.name ++ ", state: " ++ s.phase.name ++
    ", binding: " ++ binding ++ ", image: (" ++ toString s.image.size.width.toNat ++ ", " ++
    toString s.image.size.height.toNat ++ ") \x7d"

end Session

/-- A session at work on its host, where it is known by a number. -/
structure Stage where
  index : Nat
  session : Session
  host : Host

namespace Stage

def modify (s : Stage) (f : Session → Session) : Stage := { s with session := f s.session }

def onHost (s : Stage) (f : Host → Host) : Stage := { s with host := f s.host }

def setPhase (s : Stage) (p : Phase) : Stage :=
  s.modify fun x => { x with status := { x.status with phase := p } }

/-- The binding of the session's callbacks, while it is registered. -/
def binding (s : Stage) : Option (Binding Target) := s.session.token.bind s.host.arena.resolve

end Stage
end MediaHost
