import MediaHost.Session.Media

/-!
# Session — Teardown

Giving everything back.  A running encoder is ended first, and its end of stream awaited; if
that takes too long, its pipeline is given up rather than destroyed under the engine's hands.
-/

namespace MediaHost

/-- How the wait for the end of a stream comes out. -/
inductive Wait
  | ended
  | timedOut
  /-- Nothing will ever end it. -/
  | endless
deriving DecidableEq, Repr

/-- Which look, one every `interval`, is the first at or after the time `t`. -/
def firstLook (interval t : Nat) : Nat := (t + interval - 1) / interval

namespace Stage

/-- The stream's end or an error was reported to the session's binding. -/
def isOver (s : Stage) : Bool := (s.binding.map (·.isOver)).getD false

/-- The wait is given up with a warning. -/
def timeOut (s : Stage) (timeout : Nat) : Stage × Wait :=
  (s.onHost (·.note (.noEndOfStream s.session.name timeout)), .timedOut)

/-- Ends an encoded stream and looks for the report of its end, once per interval.  A look sees
the report that has arrived by its time, and gives up at the timeout only after that. -/
def awaitEnd (h : Handle) (s : Stage) : Stage × Wait :=
  if s.binding.isNone then (s, .ended)
  else
    let asked := s.onHost (·.stopEncoding h.id)
    let teardown := s.session.config.teardown
    let timeout := teardown.timeout.map (·.toNat)
    if asked.isOver then (asked, .ended)
    else
      let arrived := asked.onHost (·.settle)
      match arrived.isOver, timeout with
      | false, none => (asked, .endless)
      | false, some limit => asked.timeOut limit
      | true, none => (arrived, .ended)
      | true, some limit =>
        let look := firstLook teardown.interval
        if look asked.host.engine.endDelay ≤ look limit then (arrived, .ended)
        else asked.timeOut limit

/-- Takes the binding's number back. -/
def releaseToken (s : Stage) : Stage :=
  match s.session.token with
  | none => s
  | some t =>
    (s.onHost fun h => { h with arena := (h.arena.release t).1 }).modify fun x =>
      { x with token := none }

/-- Gives the lease back. -/
def releaseLease (s : Stage) : Stage :=
  match s.session.lease with
  | none => s
  | some l => (s.onHost (·.releaseLease l)).modify fun x => { x with lease := none }

/-- Gives back what is left when the pipeline is gone: the binding, the queue if it is the
session's own, and the lease. -/
def letGo (s : Stage) : Stage :=
  let s := s.releaseToken
  let s := if s.session.ownsQueue then s.onHost (·.modifyQueue s.session.queue (·.close)) else s
  s.releaseLease

/-- Gives everything back.  A running encoder is ended first; if its end never came, the call
would not return. -/
def destroy (s : Stage) : Stage :=
  if s.session.phase.isDestroyed then s
  else
    let { phase := previous, direction, .. } := s.session.status
    let pipeline := s.session.pipeline
    let s := (s.setPhase .destroyed).modify fun x => { x with pipeline := none }
    match pipeline with
    | none => s.letGo
    | some h =>
      let running := direction = some .encoding && previous.isActive
      let s := if running && previous = .paused then s.onHost (·.tell (·.play h.id)) else s
      let (s, wait) := if running then awaitEnd h s else (s, .ended)
      match wait with
      | .endless => s
      | .ended => (s.releaseToken.onHost (·.tell (·.destroy h.id))).letGo
      | .timedOut => (s.releaseToken.onHost (·.note h.leakNotice)).letGo

end Stage
end MediaHost
