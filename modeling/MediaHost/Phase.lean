/-!
# Phase

The coarse phases of a session's pipeline and the moves between them.  A phase only decides
which transport operations reach the engine; whether the engine has really loaded or started
anything is always asked of the engine.
-/

namespace MediaHost

/-- Where a session's pipeline stands. -/
inductive Phase
  /-- There is no media. -/
  | unloaded
  /-- Media is set up and has not been started. -/
  | configured
  | playing
  /-- Play goes on from here. -/
  | paused
  /-- Stopped on request or by an error; play starts over. -/
  | stopped
  /-- The media is released; a new setup brings some back. -/
  | closed
  /-- Everything is released, for good. -/
  | destroyed
deriving DecidableEq, Repr, Inhabited

/-- What a host asks of running media. -/
inductive Transport
  | play
  | pause
  | stop
  | close
deriving DecidableEq, Repr

namespace Transport

/-- The phase an operation leads to. -/
def target : Transport → Phase
  | .play => .playing
  | .pause => .paused
  | .stop => .stopped
  | .close => .closed

def name : Transport → String
  | .play => "Play"
  | .pause => "Pause"
  | .stop => "Stop"
  | .close => "Close"

def all : List Transport := [.play, .pause, .stop, .close]

end Transport

namespace Phase

def name : Phase → String
  | .unloaded => "Unloaded"
  | .configured => "Configured"
  | .playing => "Playing"
  | .paused => "Paused"
  | .stopped => "Stopped"
  | .closed => "Closed"
  | .destroyed => "Destroyed"

def all : List Phase := [.unloaded, .configured, .playing, .paused, .stopped, .closed, .destroyed]

/-- Nothing leaves `destroyed` and everything else may enter it; a setup leads to `configured`
from anywhere else; and a phase may follow itself. -/
def canMoveTo : Phase → Phase → Bool
  | .destroyed, _ => false
  | _, .destroyed => true
  | _, .configured => true
  | .configured, .playing | .paused, .playing | .stopped, .playing => true
  | .playing, .paused => true
  | .playing, .stopped | .paused, .stopped => true
  | .configured, .closed | .stopped, .closed => true
  | a, b => a = b

/-- The phase after an operation, or none if the operation does not apply or is already in
effect. -/
def after (p : Phase) (op : Transport) : Option Phase :=
  if p ≠ op.target && p.canMoveTo op.target then some op.target else none

/-- The phase after an operation, which leaves it alone where it does not apply. -/
def apply (p : Phase) (op : Transport) : Phase := (p.after op).getD p

/-- The phase after a move, which is not made where it is not allowed. -/
def moveTo (p target : Phase) : Phase := if p.canMoveTo target then target else p

/-- Media is set up, whether or not it plays. -/
def isConfigured : Phase → Bool
  | .configured | .playing | .paused | .stopped => true
  | _ => false

/-- Media plays or is paused. -/
def isActive : Phase → Bool
  | .playing | .paused => true
  | _ => false

def isDestroyed (p : Phase) : Bool := p = .destroyed

end Phase

/-- What a pipeline was set up for. -/
inductive Direction
  /-- The engine makes pictures for the host to show. -/
  | decoding
  /-- The host hands over pictures for the engine to write. -/
  | encoding
deriving DecidableEq, Repr

def Direction.name : Direction → String
  | .decoding => "decoding"
  | .encoding => "encoding"

end MediaHost
