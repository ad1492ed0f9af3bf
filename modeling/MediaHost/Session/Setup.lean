import MediaHost.Session.Basic

/-!
# Session — Setup

Bringing a session up, and giving it media.  Whatever is refused is refused before anything is
changed; a session that could not be brought up has given back all it took.
-/

namespace MediaHost.Stage

/-- Takes a lease on the engine, registers the binding and makes the pipeline.  A session that
is up stays as it is. -/
def bringUp (s : Stage) : Stage × Except Error Unit :=
  if s.session.phase.isDestroyed then (s, .error .destroyed)
  else if s.session.lease.isSome then (s, .ok ())
  else
    let lease : Lease := {}
    let held := s.onHost (·.addRef)
    if !held.host.context.isActive then
      (held.onHost (·.releaseLease lease),
        .error (.pipelineCreation (s.session.name ++ ": engine is not running")))
    else
      let (arena, token) := held.host.arena.register s.session.queue (.session s.index)
      let (engine, made) := Handle.create held.host.engine s.session.name .all token
      let bound := held.onHost fun h => { h with arena := arena }.setEngine engine
      match made with
      | .error e =>
        (bound.onHost fun h =>
          { h with arena := (h.arena.release token).1 }.releaseLease lease, .error e)
      | .ok pipeline =>
        (bound.modify fun x =>
          { x with
            pipeline := some pipeline, status := {}, lease := some lease, token := some token },
          .ok ())

/-- Does something with the live pipeline, if there is one. -/
def withLive {α : Type} (s : Stage) (f : Handle → Stage → Stage × α) : Stage × Except Error α :=
  match s.session.live with
  | .error e => (s, .error e)
  | .ok h =>
    let (s, a) := f h s
    (s, .ok a)

/-- Changes something about the live pipeline, if there is one. -/
def changeLive (s : Stage) (f : Handle → Stage → Stage) : Stage × Except Error Unit :=
  s.withLive fun h s => (f h s, ())

/-- Whether the engine says that the pipeline has media loaded or playing. -/
def hasMedia (h : Handle) (s : Stage) : Stage × Bool :=
  let (engine, loaded) := s.host.engine.isLoaded h.id
  let s := s.onHost (·.setEngine engine)
  if loaded then (s, true)
  else
    let (engine, playing) := s.host.engine.isPlaying h.id
    (s.onHost (·.setEngine engine), playing)

/-- Releases media that is there, so that the next setup starts clean. -/
def closeMedia (h : Handle) (s : Stage) : Stage :=
  let (s, found) := s.hasMedia h
  if found then s.onHost (·.tell (·.close h.id)) else s

/-- Starts the account and the frames over, and forgets what the binding was told. -/
def resetStream (s : Stage) : Stage :=
  let s :=
    match s.session.token with
    | none => s
    | some t => s.onHost fun h =>
      if (h.arena.resolve t).isSome then { h with arena := h.arena.modify t (·.rearm) } else h
  s.modify fun x => { x with health := {}, frames := {} }

/-- The engine takes no text with a NUL. -/
def isUsable (uri : String) : Bool := !uri.contains '\x00'

/-- Sets up media to decode.  A text the engine would not take is reported as an error of the
engine would be. -/
def setupWith (s : Stage) (d : Decoding) : Stage × Except Error Unit :=
  s.changeLive fun h s =>
    let s := closeMedia h s
    let s := s.modify fun x =>
      { x with status := ⟨.configured, some .decoding, x.config.playback.looping⟩ }
    let s := if isUsable d.uri then s.onHost (·.request (·.setupDecoding h.id d)) else s
    let s := (s.modify fun x => { x with encoding := none }).resetStream
    match isUsable d.uri, s.session.token with
    | false, some token =>
      s.onHost (·.signal ⟨token, .failed ("Invalid URI " ++ quoted d.uri)⟩)
    | _, _ => s

/-- Sets up media to decode with the configured clock and crop. -/
def setup (s : Stage) (uri : String) (video audio : Int32) : Stage × Except Error Unit :=
  s.setupWith (s.session.config.decoding uri video audio)

/-- Sets up a file to encode into.  Pictures without pixels are refused. -/
def setupEncoding (s : Stage) (enc : Encoding) : Stage × Except Error Unit :=
  if enc.size.isEmpty then
    (s, .error (.config ("encoding size " ++ enc.size.text ++ " is empty")))
  else
    s.changeLive fun h s =>
      let s := closeMedia h s
      let s := s.onHost (·.tell (·.setupEncoding h.id enc))
      let s := s.modify fun x =>
        { x with status := ⟨.configured, some .encoding, false⟩, encoding := some enc }
      s.resetStream

end MediaHost.Stage
