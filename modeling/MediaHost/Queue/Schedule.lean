import MediaHost.Queue.Basic

/-!
# Queue — Schedule

One queue used by several threads at once.  Whatever the threads do comes down to moves that
each happen under the queue's lock, or to running one piece of work; a schedule is any order of
such moves.
-/

namespace MediaHost.EventQueue
variable {α : Type}

/-- One step of a thread. -/
inductive Move (α : Type)
  /-- A producer submits work. -/
  | submit (a : α)
  /-- The consumer takes what is pending as its batch. -/
  | take
  /-- The consumer runs the next piece of its batch, or ends the batch. -/
  | run
  /-- Any thread closes the queue. -/
  | close
deriving DecidableEq, Repr

/-- A queue and what was run so far, in order. -/
structure Run (α : Type) where
  queue : EventQueue α := {}
  executed : Array α := #[]
deriving DecidableEq, Repr

namespace Run

/-- Runs the next piece of the batch, or ends the batch. -/
def step (r : Run α) : Run α :=
  match r.queue.running with
  | none => r
  | some [] => { r with queue := r.queue.finish }
  | some (a :: _) => { queue := r.queue.next, executed := r.executed.push a }

def move (r : Run α) : Move α → Run α
  | .submit a => { r with queue := r.queue.submit a }
  | .take =>
    match r.queue.begin with
    | .batch _ queue => { r with queue := queue }
    | _ => r
  | .run => r.step
  | .close => { r with queue := r.queue.close }

def moves (r : Run α) (ms : List (Move α)) : Run α := ms.foldl move r

end Run

/-- A schedule in which every producer submits `each` numbered pieces, one producer after the
other in each round, and the consumer runs every round as one batch. -/
def rounds (producers each : Nat) : List (Move (Nat × Nat)) :=
  (List.range each).flatMap fun n =>
    ((List.range producers).map fun p => .submit (p, n)) ++
      [.take] ++ List.replicate (producers + 1) .run

/-- What a run of `rounds` shows: how many pieces were run, and whether each producer's pieces
all ran in the order of their submission. -/
def storm (queue : EventQueue (Nat × Nat)) (producers each : Nat) : Nat × Bool :=
  let executed := (Run.moves { queue := queue } (rounds producers each)).executed.toList
  (executed.length,
    (List.range producers).all fun p =>
      (executed.filter (·.1 = p)).map (·.2) = List.range each)

end MediaHost.EventQueue
