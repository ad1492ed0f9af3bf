import MediaHost.Session.Setup

/-!
# Session — Transport

Playing, pausing, stopping and closing.  An operation reaches the engine exactly when the
session's phase lets it.
-/

namespace MediaHost.Stage

/-- What an operation asks of the engine; the volume is set again with every play. -/
def transportCalls (h : Handle) (volume : Double) (op : Transport) (e : Engine) : Engine :=
  match op with
  | .play => (h.setVolume e volume).play h.id
  | .pause => e.pause h.id
  | .stop => e.stop h.id
  | .close => e.close h.id

/-- Does an operation if the phase lets it; says whether it did. -/
def transport (s : Stage) (op : Transport) : Stage × Except Error Bool :=
  s.withLive fun h s =>
    match s.session.phase.after op with
    | none => (s, false)
    | some next =>
      let volume := s.session.config.playback.volume
      ((s.onHost (·.tell (transportCalls h volume op))).setPhase next, true)

/-- The answer of an operation whose effect does not matter. -/
def done {α : Type} : Stage × Except Error α → Stage × Except Error Unit
  | (s, r) => (s, r.map fun _ => ())

/-- Starts or goes on; the next frame counts as the first one. -/
def play (s : Stage) : Stage × Except Error Unit :=
  match s.transport .play with
  | (s, .ok true) => (s.modify fun x => { x with frames := x.frames.rearm }, .ok ())
  | (s, .ok false) => (s, .ok ())
  | (s, .error e) => (s, .error e)

def pause (s : Stage) : Stage × Except Error Unit := done (s.transport .pause)

def stop (s : Stage) : Stage × Except Error Unit := done (s.transport .stop)

/-- Releases the media; active media is stopped first. -/
def close (s : Stage) : Stage × Except Error Unit :=
  if s.session.phase.isActive then
    match s.transport .stop with
    | (s, .ok _) => done (s.transport .close)
    | (s, .error e) => (s, .error e)
  else done (s.transport .close)

/-- Brings the session up, sets up the configured media and plays it. -/
def start (s : Stage) : Stage × Except Error Unit :=
  match s.bringUp with
  | (s, .error e) => (s, .error e)
  | (s, .ok ()) =>
    let playback := s.session.config.playback
    if playback.uri.isEmpty then (s, .error (.config "no media URI configured"))
    else
      match s.setup playback.uri playback.videoIndex playback.audioIndex with
      | (s, .error e) => (s, .error e)
      | (s, .ok ()) => s.play

end MediaHost.Stage
