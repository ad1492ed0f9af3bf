import MediaHost.Binding
import MediaHost.Engine.Context
import MediaHost.Queue.Basic
import MediaHost.Queue.Program

/-!
# Host

What the sessions of one program share: the engine and who holds on to it, the bindings, the
queues, and the record of what happened.  A callback of the engine only marks its binding and
queues the delivery; the delivery looks the binding up again when it is run.  The engine calls
back from threads of its own.  When one of them runs is up to the schedule: while the engine is
prompt, inside the request that started it, and otherwise at any later time (`launch`, `arrive`).
-/

namespace MediaHost

/-- Who is told of a pipeline's events. -/
inductive Target
  | session (index : Nat)
  /-- Writes down what it is told, and may panic after that. -/
  | recorder (name : String) (panics : Bool)
deriving DecidableEq, Repr

/-- Queued work. -/
inductive Job
  | run (program : Program)
  /-- Tells the owner of a binding of an event. -/
  | deliver (token : Nat) (event : Event)

/-- What an observer is called for. -/
inductive Occasion
  /-- The first frame after a start. -/
  | started
  | event (event : Event)
deriving DecidableEq

/-- Who is called. -/
def Occasion.topic : Occasion → Topic
  | .started => .start
  | .event .finished => .finish
  | .event (.failed _) => .error
  | .event (.quality _) => .quality

/-- One thing that recorders, observers and programs leave behind. -/
inductive Happening
  | text (text : String)
  /-- A drain from inside a program ran so much. -/
  | drained (count : Nat)
  /-- So much was pending. -/
  | length (count : Nat)
  | recorded (name : String) (event : Event)
  /-- The observer was called for the `call`th time. -/
  | observed (label : String) (call : Nat) (occasion : Occasion)
deriving DecidableEq

structure Host where
  context : Context := {}
  arena : Arena Target := {}
  queues : Table (EventQueue Job) := {}
  /-- Callbacks whose threads the engine has started and that have not arrived yet. -/
  inFlight : List Callback := []
  /-- Reports of ends of streams whose delay is not over yet. -/
  late : List Callback := []
  happenings : Array Happening := #[]
  notices : Array Notice := #[]

namespace Host

instance : Inhabited Host := ⟨{}⟩

def engine (h : Host) : Engine := h.context.engine

def setEngine (h : Host) (e : Engine) : Host := { h with context := { h.context with engine := e } }

/-- Asks the engine for something that brings no answer and no callback. -/
def tell (h : Host) (f : Engine → Engine) : Host := h.setEngine (f h.engine)

def record (h : Host) (x : Happening) : Host := { h with happenings := h.happenings.push x }

def note (h : Host) (n : Notice) : Host := { h with notices := h.notices.push n }

def noteAll (h : Host) (ns : List Notice) : Host := ns.foldl note h

/-- The queue of a number; one that was never made is empty. -/
def queue (h : Host) (q : Nat) : EventQueue Job := (h.queues.get? q).getD {}

def modifyQueue (h : Host) (q : Nat) (f : EventQueue Job → EventQueue Job) : Host :=
  { h with queues := h.queues.set q (f (h.queue q)) }

def submit (h : Host) (q : Nat) (job : Job) : Host := h.modifyQueue q (·.submit job)

/-- A callback arrives.  Nobody is told if its number is not registered. -/
def signal (h : Host) (c : Callback) : Host :=
  match h.arena.resolve c.userdata with
  | none => h
  | some b =>
    { h with arena := h.arena.modify c.userdata (·.mark c.event) }.submit b.queue
      (.deliver c.userdata c.event)

def signalAll (h : Host) (cs : List Callback) : Host := cs.foldl signal h

/-- The engine starts threads that call back.  Prompt ones run before the host goes on. -/
def launch (h : Host) (cs : List Callback) : Host :=
  if h.engine.prompt then h.signalAll cs else { h with inFlight := h.inFlight ++ cs }

/-- A callback in flight arrives; threads may overtake each other. -/
def arrive (h : Host) (n : Nat) : Host :=
  match h.inFlight[n]? with
  | none => h
  | some c => { h with inFlight := h.inFlight.eraseIdx n }.signal c

/-- Asks the engine for something.  What it has to say comes from threads that it starts. -/
def request (h : Host) (f : Engine → Engine × List Callback) : Host :=
  let (e, callbacks) := f h.engine
  (h.setEngine e).launch callbacks

/-- An event of a pipeline out of the blue. -/
def emit (h : Host) (id : Nat) (event : Event) : Host := h.signalAll (h.engine.callbackOf id event)

/-- Asks the engine to end an encoded stream.  The thread that reports the end sleeps first; it is
late, unless it is prompt and its sleep takes no time. -/
def stopEncoding (h : Host) (id : Nat) : Host :=
  let (e, callbacks) := h.engine.stopEncoding id
  let h := h.setEngine e
  if e.endsAtOnce then h.signalAll callbacks else { h with late := h.late ++ callbacks }

/-- Everything late arrives. -/
def settle (h : Host) : Host := { h with late := [] }.signalAll h.late

def addRef (h : Host) : Host :=
  let (context, notices) := h.context.addRef
  { h with context := context }.noteAll notices

def releaseRef (h : Host) : Host :=
  let (context, notices) := h.context.release
  { h with context := context }.noteAll notices

/-- Gives a lease back. -/
def releaseLease (h : Host) (l : Lease) : Host :=
  let (_, context, notices) := l.release h.context
  { h with context := context }.noteAll notices

/-- Forgets what happened so far. -/
def forget (h : Host) : Host := { h with happenings := #[], notices := #[] }

end Host
end MediaHost
