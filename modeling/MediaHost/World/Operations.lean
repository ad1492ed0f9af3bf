import MediaHost.World.Basic

/-!
# World — Operations

What a program asks of its sessions.  Every operation but a tick leaves the other sessions
alone; a tick takes the newest frame and then runs the session's queue, which it may share with
others.
-/

namespace MediaHost

/-- What one tick did: the frame, and how many events were run. -/
structure Tick where
  frame : Poll
  events : Nat
deriving DecidableEq, Repr

namespace World

/-- Adds a session with a queue of its own. -/
def addSession (w : World) (i : Nat) (config : Config) (image : Image) (queue : Nat) : World :=
  let w := w.onHost (·.modifyQueue queue id)
  { w with sessions := w.sessions.set i (Session.new config image queue) }

/-- An operation of one session; none if the session is gone. -/
def act {α : Type} (w : World) (i : Nat) (f : Stage → Stage × α) : World × Option α :=
  match w.stage? i with
  | none => (w, none)
  | some s =>
    let (s, a) := f s
    (w.put s, some a)

/-- A change of one session, if it is there. -/
def change (w : World) (i : Nat) (f : Stage → Stage) : World :=
  (w.act i fun s => (f s, ())).1

/-- Takes the newest frame, tells of the first one, and runs the session's queue, unless the look
for the frame panics. -/
def advance (w : World) (i : Nat) : World × Option (Except Error Tick) :=
  match w.act i (·.withLive Stage.pull) with
  | (w, none) => (w, none)
  | (w, some (.error e)) => (w, some (.error e))
  | (w, some (.ok .overflow)) => (w, some (.error .overflow))
  | (w, some (.ok frame)) =>
    let w :=
      match frame with
      | .frame _ true _ => notify drain i .started w
      | _ => w
    let queue := ((w.sessions.get? i).map (·.queue)).getD 0
    let (w, events) := drain w queue
    (w, some (.ok ⟨frame, events⟩))

/-- Several ticks in a row: how many frames and events they brought, up to the first error. -/
def advanceMany (i : Nat) :
    (n frames events : Nat) → World → World × Option (Except Error (Nat × Nat))
  | 0, frames, events, w => (w, some (.ok (frames, events)))
  | n + 1, frames, events, w =>
    match w.advance i with
    | (w, none) => (w, none)
    | (w, some (.error e)) => (w, some (.error e))
    | (w, some (.ok tick)) =>
      let frames := if tick.frame = .idle then frames else frames + 1
      advanceMany i n frames (events + tick.events) w

/-- Destroys a session and removes it; says whether it was there. -/
def drop (w : World) (i : Nat) : World × Bool :=
  match w.stage? i with
  | none => (w, false)
  | some s =>
    let w := w.put s.destroy
    ({ w with sessions := w.sessions.erase i }, true)

end World
end MediaHost
