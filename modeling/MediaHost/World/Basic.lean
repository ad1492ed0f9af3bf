import MediaHost.Session.Teardown

/-!
# World — Basic

The sessions of a program on their host, and the running of what is queued.  Work may drain a
queue in turn, so everything that runs work is told how to drain; a queue being drained refuses
a second drain, and therefore no more drains can be nested than there are queues.
-/

namespace MediaHost

structure World where
  host : Host := {}
  sessions : Table Session := {}

/-- Drains a queue; says how much was run. -/
abbrev Drain := World → Nat → World × Nat

namespace World

instance : Inhabited World := ⟨{}⟩

def onHost (w : World) (f : Host → Host) : World := { w with host := f w.host }

def record (w : World) (x : Happening) : World := w.onHost (·.record x)

def note (w : World) (n : Notice) : World := w.onHost (·.note n)

/-- A session at work. -/
def stage? (w : World) (i : Nat) : Option Stage :=
  (w.sessions.get? i).map fun s => ⟨i, s, w.host⟩

/-- The world with a session as it was left. -/
def put (w : World) (s : Stage) : World where
  host := s.host
  sessions := w.sessions.set s.index s.session

def modifySession (w : World) (i : Nat) (f : Session → Session) : World :=
  { w with sessions := w.sessions.modify i f }

/-- Runs a program on a queue; says what it panicked with, if it did. -/
def perform (drain : Drain) (q : Nat) : Program → World → World × Option Panic
  | [], w => (w, none)
  | .log text :: rest, w => perform drain q rest (w.record (.text text))
  | .submit body :: rest, w => perform drain q rest (w.onHost (·.submit q (.run body)))
  | .drain :: rest, w =>
    let (w, count) := drain w q
    perform drain q rest (w.record (.drained count))
  | .close :: rest, w => perform drain q rest (w.onHost (·.modifyQueue q (·.close)))
  | .length :: rest, w => perform drain q rest (w.record (.length (w.host.queue q).length))
  | .panic p :: _, w => (w, some p)

/-- Calls one observer.  A panic stays with the observer. -/
def callObserver (drain : Drain) (occasion : Occasion) (o : Observer) (w : World) :
    Observer × World :=
  let o := { o with calls := o.calls + 1 }
  let w := w.record (.observed o.label o.calls occasion)
  match w.perform drain o.queue o.program with
  | (w, none) => (o, w)
  | (w, some _) => (o, w.note (.observerPanicked occasion.topic))

/-- The observers of a session. -/
def observersOf (i : Nat) (w : World) : Observers Observer :=
  ((w.sessions.get? i).map (·.observers)).getD {}

def setObservers (i : Nat) (o : Observers Observer) (w : World) : World :=
  w.modifySession i fun s => { s with observers := o }

/-- Calls the observers of a session. -/
def notify (drain : Drain) (i : Nat) (occasion : Occasion) (w : World) : World :=
  Observers.notify (observersOf i) (setObservers i) (callObserver drain occasion) occasion.topic w

/-- Media that loops goes back to its start. -/
def loopBack (i : Nat) (w : World) : World :=
  match w.sessions.get? i with
  | none => w
  | some s =>
    match s.pipeline with
    | some h =>
      if s.status.looping && !s.phase.isDestroyed then
        w.onHost (·.tell (·.setPosition h.id .zero))
      else w
    | none => w

/-- A failure stops whatever is set up. -/
def stopFailed (i : Nat) (w : World) : World :=
  match w.sessions.get? i with
  | none => w
  | some s =>
    if s.phase.isConfigured then
      let w :=
        match s.pipeline with
        | some h => w.onHost (·.tell (·.stop h.id))
        | none => w
      w.modifySession i fun s => { s with status := { s.status with phase := .stopped } }
    else w

/-- The name of a session. -/
def nameOf (i : Nat) (w : World) : String := ((w.sessions.get? i).map (·.name)).getD ""

/-- A session is told of an event. -/
def react (drain : Drain) (i : Nat) (event : Event) (w : World) : World :=
  match event with
  | .finished =>
    let w := w.modifySession i fun s => { s with health := s.health.recordFinish }
    loopBack i (notify drain i (.event event) w)
  | .failed message =>
    let w := w.modifySession i fun s => { s with health := s.health.recordError }
    let w := stopFailed i (w.note (.pipelineFailed (nameOf i w) message))
    notify drain i (.event event) w
  | .quality report =>
    let w := w.modifySession i fun s => { s with health := s.health.recordReport report }
    notify drain i (.event event) w

/-- The owner of a binding is told of an event. -/
def tell (drain : Drain) (target : Target) (event : Event) (w : World) : World × Option Panic :=
  match target with
  | .session i => (react drain i event w, none)
  | .recorder name panics =>
    (w.record (.recorded name event),
      if panics then some (.text ("recorder " ++ name)) else none)

/-- Runs one piece of queued work.  A delivery to a number that is no longer registered does
nothing. -/
def runJob (drain : Drain) (q : Nat) (job : Job) (w : World) : World × Option Panic :=
  match job with
  | .run program => w.perform drain q program
  | .deliver token event =>
    match w.host.arena.resolve token with
    | none => (w, none)
    | some b => tell drain b.target event w

/-- Runs a batch in order.  A panic ends only the work that panicked. -/
def runBatch (drain : Drain) (q : Nat) : List Job → World → World
  | [], w => w
  | job :: rest, w =>
    match runJob drain q job (w.onHost (·.modifyQueue q (·.next))) with
    | (w, none) => runBatch drain q rest w
    | (w, some p) => runBatch drain q rest (w.note (.workPanicked p.message))

/-- Drains a queue, draining others from inside by `nested`. -/
def drainBy (nested : Drain) : Drain := fun w q =>
  match (w.host.queue q).begin with
  | .busy => (w.note .reentrantDrain, 0)
  | .idle => (w, 0)
  | .batch jobs queue =>
    let w := runBatch nested q jobs (w.onHost (·.modifyQueue q fun _ => queue))
    (w.onHost (·.modifyQueue q (·.finish)), jobs.length)

/-- Drains nested at most `depth` deep. -/
def drainTo : (depth : Nat) → Drain
  | 0 => fun w _ => (w, 0)
  | depth + 1 => drainBy (drainTo depth)

/-- Runs everything pending on a queue. -/
def drain : Drain := fun w q => drainTo (w.host.queues.size + 2) w q

end World
end MediaHost
