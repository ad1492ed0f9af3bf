import MediaHost.Proofs.Drain

/-!
# Proofs — Run

The runs of a program: any number of sessions on one engine, in any order of what is asked of
them (`Command`), of ticks and drains, and of what the engine does on its own (`Action`).  A
world is reachable if a run leads to it from a world in which nothing has happened yet.
-/

namespace MediaHost

/-- What can be asked of one session. -/
inductive Command
  | share (queue : Nat)
  | bringUp
  | setup (uri : String) (video audio : Int32)
  | setupWith (decoding : Decoding)
  | setupEncoding (encoding : Encoding)
  | play
  | pause
  | stop
  | close
  | start
  | consume (data : Array UInt8)
  | consumeSized (size : Size) (data : Array UInt8)
  | duration
  | position
  | isPlaying
  | isLoaded
  | setPosition (seconds : Double)
  | setBaseTime (time : UInt64)
  | setVolume (volume : Double)
  | setBitrateLimit (limit : Single)
  | setLooping (looping : Bool)
  | observe (topic : Topic) (label : String) (program : Program)
  | destroy

namespace Command

/-- A command carried out, with its answer as far as it says whether there was an error. -/
def exec (c : Command) (s : Stage) : Stage × Except Error Unit :=
  match c with
  | .share queue => (s.share queue, .ok ())
  | .bringUp => s.bringUp
  | .setup uri video audio => s.setup uri video audio
  | .setupWith decoding => s.setupWith decoding
  | .setupEncoding encoding => s.setupEncoding encoding
  | .play => s.play
  | .pause => s.pause
  | .stop => s.stop
  | .close => s.close
  | .start => s.start
  | .consume data => s.consume data
  | .consumeSized size data => s.consumeSized size data
  | .duration => Stage.done s.duration
  | .position => Stage.done s.position
  | .isPlaying => (s.isPlaying.1, .ok ())
  | .isLoaded => (s.isLoaded.1, .ok ())
  | .setPosition seconds => s.setPosition seconds
  | .setBaseTime time => s.setBaseTime time
  | .setVolume volume => s.setVolume volume
  | .setBitrateLimit limit => s.setBitrateLimit limit
  | .setLooping looping => (s.setLooping looping, .ok ())
  | .observe topic label program => (s.modify (·.observe topic label program), .ok ())
  | .destroy => (s.destroy, .ok ())

/-- The commands that give a session new media. -/
def isSetup : Command → Bool
  | .setup .. | .setupWith _ | .setupEncoding _ => true
  | _ => false

end Command

/-- One step of a run. -/
inductive Action
  /-- A session is made, with a queue of its own that is new. -/
  | newSession (index queue : Nat) (config : Config) (image : Image)
  | command (index : Nat) (command : Command)
  | tick (index : Nat)
  | drop (index : Nat)
  | drain (queue : Nat)
  | submit (queue : Nat) (program : Program)
  | closeQueue (queue : Nat)
  /-- The engine has a decoded frame ready. -/
  | push (pipeline : Nat) (frame : Frame)
  /-- The engine calls back, with whatever number. -/
  | callback (callback : Callback)
  /-- A callback in flight arrives. -/
  | arrive (n : Nat)
  /-- Everything late arrives. -/
  | settle
  /-- From here on the engine's threads run at once, or only some time later. -/
  | pace (prompt : Bool)
  /-- The engine will not make the next pipeline. -/
  | refuseCreate
  /-- The engine's next starts will fail. -/
  | failStarts (count : Nat)
  /-- A reference taken by hand, and not through a session. -/
  | addRef
  | releaseRef

/-- References are only taken and given back by sessions. -/
def Action.isLeased : Action → Bool
  | .addRef | .releaseRef => false
  | _ => true

namespace World

def apply (w : World) : Action → World
  | .newSession i q config image =>
    if (w.sessions.get? i).isNone && (w.host.queues.get? q).isNone then
      w.addSession i config image q
    else w
  | .command i c => (w.act i c.exec).1
  | .tick i => (w.advance i).1
  | .drop i => (w.drop i).1
  | .drain q => (drain w q).1
  | .submit q program => w.onHost (·.submit q (.run program))
  | .closeQueue q => w.onHost (·.modifyQueue q (·.close))
  | .push k frame => w.onHost (·.tell (·.push k frame))
  | .callback c => w.onHost (·.signal c)
  | .arrive n => w.onHost (·.arrive n)
  | .settle => w.onHost (·.settle)
  | .pace prompt => w.onHost (·.tell fun e => { e with prompt := prompt })
  | .refuseCreate => w.onHost (·.tell fun e => { e with refuseNextCreate := true })
  | .failStarts count => w.onHost (·.tell fun e => { e with failingStarts := count })
  | .addRef => w.onHost (·.addRef)
  | .releaseRef => w.onHost (·.releaseRef)

def run (w : World) (as : List Action) : World := as.foldl apply w

theorem run_append (w : World) (as bs : List Action) : w.run (as ++ bs) = (w.run as).run bs :=
  List.foldl_append

/-- Nothing has happened yet.  The engine's settings and the queues may be any. -/
structure Fresh (w : World) : Prop where
  sessions : w.sessions = {}
  arena : w.host.arena = {}
  inFlight : w.host.inFlight = []
  late : w.host.late = []
  notices : w.host.notices = #[]
  refs : w.host.context.refs = 0
  started : w.host.context.started = false
  active : w.host.engine.active = false
  nextId : w.host.engine.nextId = 1
  pipelines : w.host.engine.pipelines = {}
  history : w.host.engine.history = []

/-- A run leads here. -/
def Reachable (w : World) : Prop := ∃ w₀ as, Fresh w₀ ∧ w = w₀.run as

theorem Reachable.run {w : World} (h : Reachable w) (as : List Action) : Reachable (w.run as) := by
  obtain ⟨w₀, bs, h₀, rfl⟩ := h
  exact ⟨w₀, bs ++ as, h₀, (run_append w₀ bs as).symm⟩

/-- What a start has and every step preserves, every run has. -/
theorem run_preserves {P : World → Prop} (step : ∀ w a, P w → P (w.apply a)) {w : World}
    (as : List Action) (hw : P w) : P (w.run as) := by
  induction as generalizing w with
  | nil => exact hw
  | cons a as ih => exact ih (step w a hw)

theorem Reachable.induction {P : World → Prop} (fresh : ∀ w, Fresh w → P w)
    (step : ∀ w a, P w → P (w.apply a)) {w : World} (h : Reachable w) : P w := by
  obtain ⟨w₀, as, h₀, rfl⟩ := h
  exact run_preserves step as (fresh w₀ h₀)

/-! ### A small program -/

/-- Nothing has happened yet, and the engine will report the end of a stream 400 milliseconds
after it. -/
def slow : World := { host := { context := { engine := { endDelay := 400 } } } }

theorem fresh_slow : Fresh slow :=
  ⟨rfl, rfl, rfl, rfl, rfl, rfl, rfl, rfl, rfl, rfl, rfl⟩

/-- A session set up to encode, which will wait 20 milliseconds for the end at most. -/
def encoderSetUp : List Action :=
  [.newSession 0 1 { teardown := { timeout := some 20 } } (.outline ⟨1, 1⟩),
    .command 0 .bringUp, .command 0 (.setupEncoding ⟨"out.mp4", ⟨4, 2⟩⟩)]

end World
end MediaHost
