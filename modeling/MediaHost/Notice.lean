import MediaHost.Event
import MediaHost.Text.Blank
import MediaHost.Text.Elapsed
import MediaHost.Text.Quoted
import MediaHost.Text.Utf8

/-!
# Notice

The lines that reach the log: what the host warns of, and what the engine says itself.
-/

namespace MediaHost

inductive Level
  | error
  | warn
  | info
  | debug
  | trace
deriving DecidableEq, Repr

def Level.name : Level → String
  | .error => "ERROR"
  | .warn => "WARN"
  | .info => "INFO"
  | .debug => "DEBUG"
  | .trace => "TRACE"

/-- The kinds of observers, by what they are told of. -/
inductive Topic
  | start
  | finish
  | error
  | quality
deriving DecidableEq, Repr

def Topic.name : Topic → String
  | .start => "start"
  | .finish => "finish"
  | .error => "error"
  | .quality => "qos"

/-- How a pipeline is written: its number in hexadecimal. -/
def pipelineText (id : Nat) : String := "0x" ++ hexadecimal id

/-- A message of the engine: text bytes up to a NUL, or no text at all. -/
def engineMessage : Option (List UInt8) → String
  | none => "<no message>"
  | some bytes => Utf8.decodeLenient (bytes.takeWhile (· ≠ 0))

inductive Notice
  /-- A queue was to be drained from inside its own drain. -/
  | reentrantDrain
  /-- Queued work panicked. -/
  | workPanicked (message : String)
  | observerPanicked (topic : Topic)
  /-- The engine was released more often than it was taken. -/
  | releasedPastZero
  | engineNotStarted
  /-- A pipeline was given up without being destroyed. -/
  | leaked (name : String) (id : Nat)
  /-- The queue of an initialized session stays. -/
  | queueFixed (name : String)
  /-- The end of an encoded stream did not come in time. -/
  | noEndOfStream (name : String) (timeout : Nat)
  | pipelineFailed (name message : String)
  /-- The engine says something itself, at a level of its own scale. -/
  | engine (level : Int) (message : String)
deriving DecidableEq, Repr

namespace Notice

/-- The engine's scale: error, assertion, warning, message, exception, and anything else. -/
def engineLevel (level : Int) : Level :=
  if level = 0 || level = 1 || level = 4 then .error
  else if level = 2 then .warn
  else if level = 3 then .debug
  else .trace

def level : Notice → Level
  | .reentrantDrain | .releasedPastZero | .leaked .. | .queueFixed _ | .noEndOfStream .. => .warn
  | .workPanicked _ | .observerPanicked _ | .engineNotStarted | .pipelineFailed .. => .error
  | .engine level _ => engineLevel level

def text : Notice → String
  | .reentrantDrain => "EventQueue: re-entrant drain ignored"
  | .workPanicked message => "EventQueue: queued action panicked: " ++ message
  | .observerPanicked topic => "A " ++ topic.name ++ " observer panicked"
  | .releasedPastZero => "Trying to release the engine past zero"
  | .engineNotStarted => "Failed to initialize the native engine"
  | .leaked name id =>
    "[" ++ name ++ "] Leaking native pipeline " ++ pipelineText id ++ " without destroying it"
  | .queueFixed name => "[" ++ name ++ "] Cannot switch queues on an initialized session"
  | .noEndOfStream name timeout =>
    "[" ++ name ++ "] No end of stream after " ++ elapsedText timeout
  | .pipelineFailed name message => "[" ++ name ++ "] Pipeline error: " ++ message
  | .engine _ message => withoutTrailingBlanks message

/-- Level and text. -/
def line (n : Notice) : String := n.level.name ++ " " ++ n.text

end Notice
end MediaHost
