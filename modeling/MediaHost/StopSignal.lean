/-!
# StopSignal

A flag with a wait that ends as soon as the flag is raised.  The flag is stored outside the
lock; a thread that stops then takes the lock and wakes the sleepers.  A thread that waits takes
the lock, tests the flag, and falls asleep in the same step that lets go of the lock; once it is
awake it takes the lock again and tests the flag anew.  The clones of a signal share its flag,
its lock and its sleepers.
-/

namespace MediaHost.StopSignal

/-- What a thread asks of a signal.  Looking at the flag is no step of its own: it changes
nothing. -/
inductive Call
  | stop
  | wait
deriving DecidableEq, Repr

/-- Where a thread is in its call. -/
inductive Place
  /-- About to raise the flag. -/
  | raising
  /-- The flag is raised; the lock is to be taken. -/
  | locking
  /-- Has the lock; the sleepers are to be woken. -/
  | notifying
  /-- Has woken the sleepers; the lock is to be let go of. -/
  | unlocking
  /-- The stop has returned. -/
  | stopped
  /-- Has come to wait; the lock is to be taken. -/
  | entering
  /-- Has the lock; the flag is to be tested. -/
  | testing
  /-- Has the lock and found the flag down; falls asleep unless its time is out. -/
  | drowsing
  | asleep
  /-- Is awake; the lock is to be taken again. -/
  | waking
  /-- Has the lock and waits no more; looks at the flag once more. -/
  | leaving
  /-- Has the lock and its answer; the lock is to be let go of. -/
  | answering (raised : Bool)
  /-- The wait has returned. -/
  | waited (raised : Bool)
deriving DecidableEq, Repr

/-- Where a call starts. -/
def Call.start : Call → Place
  | .stop => .raising
  | .wait => .entering

namespace Place

def hasLock : Place → Bool
  | .notifying | .unlocking | .testing | .drowsing | .leaving | .answering _ => true
  | _ => false

/-- The thread goes on only by taking the lock. -/
def needsLock : Place → Bool
  | .locking | .entering | .waking => true
  | _ => false

/-- The call has returned. -/
def isOver : Place → Bool
  | .stopped | .waited _ => true
  | _ => false

/-- The time of the wait is running. -/
def isTimed : Place → Bool
  | .testing | .drowsing | .asleep | .waking => true
  | _ => false

/-- Where a thread comes to by itself, as the flag is and as its time is out or not. -/
def next (raised late : Bool) : Place → Place
  | .raising => .locking
  | .locking => .notifying
  | .notifying => .unlocking
  | .unlocking => .stopped
  | .entering | .waking => .testing
  | .testing => if raised then .leaving else .drowsing
  | .drowsing => if late then .leaving else .asleep
  | .leaving => .answering raised
  | .answering raised => .waited raised
  | .stopped => .stopped
  | .asleep => .asleep
  | .waited raised => .waited raised

end Place

/-- A thread in one call of a signal. -/
structure Thread where
  place : Place
  /-- The time of its wait is out. -/
  late : Bool := false
deriving DecidableEq, Repr

namespace Thread

/-- The thread can go on, given who has the lock. -/
def isReady (holder : Option Nat) (t : Thread) : Bool :=
  t.place ≠ .asleep && !t.place.isOver && (!t.place.needsLock || holder.isNone)

/-- A sleeper is awake. -/
def wake (t : Thread) : Thread :=
  if t.place = .asleep then { t with place := .waking } else t

/-- The time of a wait is out. -/
def expire (t : Thread) : Thread := { t with late := t.late || t.place.isTimed }

end Thread

/-- What the clones of a signal share: the flag, who has the lock, and where each thread is. -/
structure Signal where
  raised : Bool := false
  holder : Option Nat := none
  threads : List Thread := []
deriving DecidableEq, Repr

/-- What may happen next. -/
inductive Step
  /-- A thread comes to the signal. -/
  | enter (call : Call)
  /-- The thread goes on. -/
  | go (thread : Nat)
  /-- The time of the thread's wait is out. -/
  | expire (thread : Nat)
  /-- The thread wakes up unasked, because its time is out or for no reason at all. -/
  | wake (thread : Nat)
deriving DecidableEq, Repr

namespace Signal

/-- A thread goes on from where it is; on the way it takes the lock or lets go of it, raises the
flag or wakes all sleepers. -/
def advance (s : Signal) (i : Nat) (t : Thread) : Signal :=
  let place := t.place.next s.raised t.late
  { raised := s.raised || t.place == .raising
    holder := if place.hasLock then some i else if t.place.hasLock then none else s.holder
    threads :=
      (if t.place = .notifying then s.threads.map Thread.wake else s.threads).set i
        { t with place := place } }

/-- One step.  A thread that cannot take it stays where it is. -/
def step (s : Signal) : Step → Signal
  | .enter call => { s with threads := s.threads ++ [{ place := call.start }] }
  | .go i =>
    match s.threads[i]? with
    | some t => if t.isReady s.holder then s.advance i t else s
    | none => s
  | .expire i => { s with threads := s.threads.modify i Thread.expire }
  | .wake i => { s with threads := s.threads.modify i Thread.wake }

/-- What the last thread's wait returned. -/
def answer (s : Signal) : Bool := (s.threads.getLast?.map Thread.place) = some (.waited true)

/-- One thread stops the signal. -/
def stop (s : Signal) : List Step := .enter .stop :: .replicate 4 (.go s.threads.length)

/-- One thread waits, and nobody else does anything until its time is out. -/
def wait (s : Signal) : List Step :=
  let waiter := s.threads.length
  .enter .wait :: .replicate 4 (.go waiter) ++ [.expire waiter, .wake waiter] ++
    .replicate 5 (.go waiter)

/-- One thread waits and another stops the signal meanwhile. -/
def waitStopped (s : Signal) : List Step :=
  let stopper := s.threads.length
  let waiter := stopper + 1
  [.enter .stop, .enter .wait] ++ .replicate 4 (.go waiter) ++ .replicate 4 (.go stopper) ++
    .replicate 4 (.go waiter)

end Signal

/-! ### Clones -/

/-- All signals, and the clones of them. -/
structure Signals where
  /-- What each family of clones shares. -/
  shared : List Signal := [{}]
  /-- The family of each clone. -/
  clones : List Nat := [0]
deriving DecidableEq, Repr

/-- What may happen to the signals. -/
inductive Move
  /-- A signal of its own is made, with one clone. -/
  | new
  | clone (clone : Nat)
  /-- A thread does something through a clone. -/
  | act (clone : Nat) (step : Step)
deriving DecidableEq, Repr

namespace Signals

/-- What the clones of a family share. -/
def signal (s : Signals) (family : Nat) : Signal := s.shared.getD family {}

/-- What a clone shares. -/
def through (s : Signals) (clone : Nat) : Signal := (s.clones[clone]?.map s.signal).getD {}

/-- The flag, looked at through a clone. -/
def stopped (s : Signals) (clone : Nat) : Bool := (s.through clone).raised

def move (s : Signals) : Move → Signals
  | .new =>
    { shared := s.shared ++ [{}]
      clones := s.clones ++ [s.shared.length] }
  | .clone c => { s with clones := s.clones ++ (s.clones[c]?).toList }
  | .act c a =>
    match s.clones[c]? with
    | some family => { s with shared := s.shared.set family ((s.signal family).step a) }
    | none => s

/-- What threads do through one clone, one step after the other. -/
def acts (s : Signals) (clone : Nat) (l : List Step) : Signals :=
  l.foldl (fun s a => s.move (.act clone a)) s

end Signals
end MediaHost.StopSignal
