/-!
# Queue — Program

Queued work as a program on the queue that runs it.  A program may submit further programs,
drain or close its queue, and end early by a panic.
-/

namespace MediaHost

/-- How a program breaks off. -/
inductive Panic
  | text (message : String)
  /-- With something that is no text. -/
  | other
deriving DecidableEq, Repr

/-- What is reported of a panic. -/
def Panic.message : Panic → String
  | .text message => message
  | .other => "<non-string panic payload>"

/-- One step of a program. -/
inductive Step
  /-- Leaves a text behind. -/
  | log (text : String)
  /-- Submits a program to the same queue. -/
  | submit (body : List Step)
  /-- Drains the same queue. -/
  | drain
  | close
  /-- Looks how much is pending. -/
  | length
  | panic (p : Panic)
deriving Repr

/-- Steps in order; none after a panic is run. -/
abbrev Program := List Step

end MediaHost
