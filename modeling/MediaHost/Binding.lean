import MediaHost.Event
import MediaHost.Table

/-!
# Binding

The numbers by which the engine knows the owners of pipelines.  A callback brings such a number
back, from any thread and perhaps long after its owner is gone; a number that was released
finds nobody, and no number is given out twice.
-/

namespace MediaHost

/-- Where the callbacks of one pipeline go. -/
structure Binding (Target : Type) where
  /-- The queue on which the owner is told. -/
  queue : Nat
  target : Target
  /-- The end of the stream was reported since the last setup. -/
  endSeen : Bool := false
  /-- An error was reported since the last setup. -/
  errorSeen : Bool := false
  registered : Bool := true
deriving DecidableEq, Repr

namespace Binding
variable {Target : Type}

/-- Forgets earlier reports. -/
def rearm (b : Binding Target) : Binding Target := { b with endSeen := false, errorSeen := false }

def markEnd (b : Binding Target) : Binding Target := { b with endSeen := true }

def markError (b : Binding Target) : Binding Target := { b with errorSeen := true }

/-- Remembers that an event was reported. -/
def mark (b : Binding Target) : Event → Binding Target
  | .finished => b.markEnd
  | .failed _ => b.markError
  | .quality _ => b

/-- Nothing more is to come: the end or an error was reported. -/
def isOver (b : Binding Target) : Bool := b.endSeen || b.errorSeen

end Binding

/-- All bindings ever made.  Those released are only kept for whoever holds on to them. -/
structure Arena (Target : Type) where
  next : Nat := 1
  bindings : Table (Binding Target) := {}

namespace Arena
variable {Target : Type}

instance : Inhabited (Arena Target) := ⟨{}⟩

/-- Gives out the next number. -/
def register (a : Arena Target) (queue : Nat) (target : Target) : Arena Target × Nat :=
  ({ next := a.next + 1
     bindings := a.bindings.set a.next { queue := queue, target := target } },
    a.next)

/-- The binding of a number that is registered. -/
def resolve (a : Arena Target) (token : Nat) : Option (Binding Target) :=
  (a.bindings.get? token).filter (·.registered)

/-- The binding of a number, registered or not. -/
def held (a : Arena Target) (token : Nat) : Option (Binding Target) := a.bindings.get? token

def modify (a : Arena Target) (token : Nat) (f : Binding Target → Binding Target) :
    Arena Target :=
  { a with bindings := a.bindings.modify token f }

/-- Takes a number back; says whether it was registered. -/
def release (a : Arena Target) (token : Nat) : Arena Target × Bool :=
  (a.modify token fun b => { b with registered := false }, (a.resolve token).isSome)

/-- How many numbers are registered. -/
def size (a : Arena Target) : Nat := a.bindings.count (·.registered)

end Arena

/-- How a number is written. -/
def tokenText (token : Nat) : String := "#" ++ toString token

end MediaHost
