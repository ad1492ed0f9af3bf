/-!
# Error

Why a host's request was refused.  Trouble the engine finds on its own is no error in this
sense: it arrives later, as an event.  Nor is an overflow: the request that computes too large a
number returns nothing and panics, and what it had changed until then stays.
-/

namespace MediaHost

inductive Error
  | notInitialized
  | destroyed
  /-- The engine made no pipeline for the name given. -/
  | pipelineCreation (reason : String)
  | notConfigured
  /-- The pipeline runs the other way. -/
  | wrongDirection (expected : String)
  /-- The picture has the wrong number of bytes. -/
  | frameSize (expected actual : Nat)
  /-- The settings make no sense. -/
  | config (reason : String)
  /-- A number is too large for its type. -/
  | overflow
deriving DecidableEq, Repr

namespace Error

def message : Error → String
  | .notInitialized => "session has not been initialized"
  | .destroyed => "session has been destroyed"
  | .pipelineCreation reason => "native engine refused to create pipeline '" ++ reason ++ "'"
  | .notConfigured => "pipeline has not been configured"
  | .wrongDirection expected => "operation requires a " ++ expected ++ " pipeline"
  | .frameSize expected actual =>
    "frame size mismatch: expected " ++ toString expected ++ " bytes, got " ++ toString actual
  | .config reason => "invalid configuration: " ++ reason
  | .overflow => "arithmetic overflow"

/-- The request that meets this returns it. -/
def isReturned (e : Error) : Bool := e ≠ .overflow

end Error
end MediaHost
