import MediaHost.Engine.Basic
import MediaHost.Notice

/-!
# Engine — Context

The references that keep the engine up.  The first one starts it and the last one shuts it
down; a lease is one reference that is given back at most once.
-/

namespace MediaHost

/-- The engine, how to start it, and how many hold on to it. -/
structure Context where
  engine : Engine := {}
  levels : Option String := none
  forwardsLog : Bool := false
  refs : Nat := 0
  /-- The engine started when the first reference was taken. -/
  started : Bool := false

/-- One reference to the engine. -/
structure Lease where
  released : Bool := false
deriving DecidableEq, Repr

namespace Context

instance : Inhabited Context := ⟨{}⟩

/-- A context that starts the engine as the diagnostics say. -/
def new (engine : Engine) (d : Diagnostics) : Context where
  engine := engine
  levels := if d.levels.isEmpty then none else some d.levels
  forwardsLog := d.enabled

/-- Starts the engine for the first reference. -/
def start (c : Context) : Context × List Notice :=
  let (engine, started) := c.engine.startUp c.levels c.forwardsLog
  ({ c with engine := engine, started := started },
    if started then
      if c.forwardsLog then [.engine Engine.greeting.1 Engine.greeting.2] else []
    else [.engineNotStarted])

/-- Takes one more reference. -/
def addRef (c : Context) : Context × List Notice :=
  let (held, notices) := if c.refs = 0 then c.start else (c, [])
  ({ held with refs := c.refs + 1 }, notices)

/-- Gives one reference back; the last one shuts a started engine down. -/
def release (c : Context) : Context × List Notice :=
  if c.refs = 0 then (c, [.releasedPastZero])
  else
    let c := { c with refs := c.refs - 1 }
    if c.refs = 0 && c.started then
      ({ c with engine := c.engine.shutDown, started := false }, [])
    else (c, [])

/-- The engine is held, was started, and says that it runs. -/
def isActive (c : Context) : Bool := 0 < c.refs && c.started && c.engine.active

def describe (c : Context) : String :=
  let levels :=
    match c.levels with
    | none => "None"
    | some levels => "Some(" ++ quoted levels ++ ")"
  "EngineContext \x7b debug: " ++ levels ++ ", refs: " ++ toString c.refs ++
    ", initialized: " ++ (if c.started then "true" else "false") ++ " \x7d"

end Context

namespace Lease

/-- Gives the reference back, unless that was done before. -/
def release (l : Lease) (c : Context) : Lease × Context × List Notice :=
  if l.released then (l, c, [])
  else
    let (c, notices) := c.release
    ({ released := true }, c, notices)

end Lease
end MediaHost
