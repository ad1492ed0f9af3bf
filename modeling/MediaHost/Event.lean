import MediaHost.Quality.Report

/-!
# Event

What the engine tells the host while a stream runs, and which of it a pipeline asked to be
told.
-/

namespace MediaHost

/-- One thing the engine tells. -/
inductive Event
  /-- The stream came to its end. -/
  | finished
  /-- The stream failed, with the engine's words. -/
  | failed (message : String)
  | quality (report : QualityReport)
deriving DecidableEq

/-- Which events a pipeline's owner is told of. -/
structure Callbacks where
  finished : Bool := false
  failed : Bool := false
  quality : Bool := false
deriving DecidableEq, Repr

namespace Callbacks

def all : Callbacks := ⟨true, true, true⟩

def none : Callbacks := {}

def accepts (c : Callbacks) : Event → Bool
  | .finished => c.finished
  | .failed _ => c.failed
  | .quality _ => c.quality

end Callbacks

/-- An event on its way to the owner of a pipeline, who is known by a number only. -/
structure Callback where
  userdata : Nat
  event : Event
deriving DecidableEq

end MediaHost
