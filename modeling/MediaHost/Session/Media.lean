import MediaHost.Session.Transport

/-!
# Session — Media

Running media: taking the newest frame, handing over pictures to encode, and the settings that
may change meanwhile.  A setting is kept by the session and by the engine, and both change
together or not at all.
-/

namespace MediaHost.Stage

/-- Takes the newest frame of media being decoded into the image.  The first frame after a
start brings the bitrate limit with it, unless there is none. -/
def pull (h : Handle) (s : Stage) : Stage × Poll :=
  if s.session.status.direction = some .decoding && s.session.phase.isConfigured then
    let limit := s.session.config.playback.bitrateLimit
    let result := s.session.frames.poll s.session.image s.host.engine h.id
    let s := s.modify fun x => { x with frames := result.acquisition, image := result.image }
    let s := s.onHost fun host => (host.setEngine result.engine).launch result.callbacks
    match result.poll with
    | .idle => (s, .idle)
    | .overflow => (s, .overflow)
    | .frame size first resized =>
      let s := s.modify fun x => { x with health := x.health.recordFrame }
      let s :=
        if first && !limit.same Single.one then s.onHost (·.tell (h.setBitrateLimit · limit))
        else s
      (s, .frame size first resized)
  else (s, .idle)

/-- Why pictures of `length` bytes cannot be encoded, if they cannot. -/
def refusal (x : Session) (length : Nat) : Except Error Unit :=
  match x.status.direction with
  | none => .error .notConfigured
  | some .decoding => .error (.wrongDirection "encoding")
  | some .encoding =>
    match x.encoding with
    | none => .error .notConfigured
    | some enc =>
      if !x.phase.isConfigured then .error .notConfigured else enc.size.check length

/-- Hands over one picture of the size set up. -/
def consume (s : Stage) (data : Array UInt8) : Stage × Except Error Unit :=
  match s.session.live with
  | .error e => (s, .error e)
  | .ok h =>
    match refusal s.session data.size with
    | .error e => (s, .error e)
    | .ok () => (s.onHost (·.tell (·.consume h.id data)), .ok ())

/-- Hands over one picture of a given size; the encoder is set up anew if that is not the size
it has. -/
def consumeSized (s : Stage) (size : Size) (data : Array UInt8) : Stage × Except Error Unit :=
  match size.check data.size with
  | .error e => (s, .error e)
  | .ok () =>
    match s.session.encoding with
    | none => s.consume data
    | some enc =>
      if enc.size = size then s.consume data
      else
        match s.setupEncoding { enc with size := size } with
        | (s, .error e) => (s, .error e)
        | (s, .ok ()) =>
          match s.play with
          | (s, .error e) => (s, .error e)
          | (s, .ok ()) => s.consume data

/-- Asks the engine something about the live pipeline. -/
def query {α : Type} (s : Stage) (f : Engine → Nat → Engine × α) : Stage × Except Error α :=
  s.withLive fun h s =>
    let (engine, answer) := f s.host.engine h.id
    (s.onHost (·.setEngine engine), answer)

/-- In seconds. -/
def duration (s : Stage) : Stage × Except Error Double := s.query Engine.durationOf

/-- In seconds. -/
def position (s : Stage) : Stage × Except Error Double := s.query Engine.positionOf

/-- What a question without a live pipeline is answered. -/
def orFalse : Stage × Except Error Bool → Stage × Bool
  | (s, .ok answer) => (s, answer)
  | (s, .error _) => (s, false)

def isPlaying (s : Stage) : Stage × Bool := orFalse (s.query Engine.isPlaying)

def isLoaded (s : Stage) : Stage × Bool := orFalse (s.query Engine.isLoaded)

def setPosition (s : Stage) (seconds : Double) : Stage × Except Error Unit :=
  s.changeLive fun h s => s.onHost (·.tell (·.setPosition h.id seconds))

/-- Changes the configured playback. -/
def configure (s : Stage) (f : Playback → Playback) : Stage :=
  s.modify fun x => { x with config := { x.config with playback := f x.config.playback } }

/-- In nanoseconds. -/
def setBaseTime (s : Stage) (time : UInt64) : Stage × Except Error Unit :=
  s.changeLive fun h s =>
    (s.onHost (·.tell (·.setBaseTime h.id time))).modify fun x =>
      { x with
        config := { x.config with
          synchronization := { x.config.synchronization with baseTime := time } } }

/-- Moved into `0 .. 1` first; silence for what is no number. -/
def setVolume (s : Stage) (volume : Double) : Stage × Except Error Unit :=
  let volume := Double.toUnit volume .zero
  s.changeLive fun h s =>
    (s.onHost (·.tell (h.setVolume · volume))).configure fun p => { p with volume := volume }

/-- Moved into `0 .. 1` first; no limit for what is no number.  It reaches the engine now if
frames are flowing, and otherwise with the first frame after a start. -/
def setBitrateLimit (s : Stage) (limit : Single) : Stage × Except Error Unit :=
  let limit := Single.toUnit limit Single.one
  s.changeLive fun h s =>
    let s :=
      if s.session.frames.last.isSome && s.session.phase = .playing then
        s.onHost (·.tell (h.setBitrateLimit · limit))
      else s
    s.configure fun p => { p with bitrateLimit := limit }

def setLooping (s : Stage) (looping : Bool) : Stage :=
  (s.configure fun p => { p with looping := looping }).modify fun x =>
    { x with status := { x.status with looping := looping } }

/-- Delivers events on a queue shared with others.  The queue of a session that is up stays. -/
def share (s : Stage) (queue : Nat) : Stage :=
  if s.session.token.isSome then s.onHost (·.note (.queueFixed s.session.name))
  else s.modify fun x => { x with queue := queue, ownsQueue := false }

end MediaHost.Stage
