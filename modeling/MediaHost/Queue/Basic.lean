/-!
# Queue — Basic

The mailbox between the threads that produce work and the one that does it.  A drain takes
everything pending as one batch and runs it; what is submitted meanwhile waits for the next
drain, so one drain does a bounded amount of work.  Closing discards what is pending and
refuses whatever comes later.
-/

namespace MediaHost

/-- Work waiting to be done, oldest first. -/
structure EventQueue (α : Type) where
  pending : List α := []
  /-- What is left of the batch being run, while a drain is going on. -/
  running : Option (List α) := none
  closed : Bool := false
deriving DecidableEq, Repr

/-- How a drain begins. -/
inductive DrainStart (α : Type)
  /-- Another drain of the same queue is going on. -/
  | busy
  /-- There is nothing to run. -/
  | idle
  /-- The batch to run, and the queue while it runs. -/
  | batch (jobs : List α) (queue : EventQueue α)

namespace EventQueue
variable {α : Type}

instance : Inhabited (EventQueue α) := ⟨{}⟩

/-- Adds work at the end; a closed queue drops it. -/
def submit (q : EventQueue α) (a : α) : EventQueue α :=
  if q.closed then q else { q with pending := q.pending ++ [a] }

/-- Takes everything pending as the batch to run. -/
def begin (q : EventQueue α) : DrainStart α :=
  if q.running.isSome then .busy
  else if q.pending.isEmpty then .idle
  else .batch q.pending { q with pending := [], running := some q.pending }

/-- Takes the next piece of work out of the batch. -/
def next (q : EventQueue α) : EventQueue α := { q with running := q.running.map (·.drop 1) }

/-- The batch is over. -/
def finish (q : EventQueue α) : EventQueue α := { q with running := none }

/-- Discards what is pending and refuses whatever comes later. -/
def close (q : EventQueue α) : EventQueue α := { q with pending := [], closed := true }

def length (q : EventQueue α) : Nat := q.pending.length

def describe (q : EventQueue α) : String :=
  "EventQueue \x7b pending: " ++ toString q.length ++
    ", closed: " ++ (if q.closed then "true" else "false") ++ " \x7d"

end EventQueue
end MediaHost
