import MediaHost.Demo.Run

/-!
# Main

The program: reads the command line and the configuration file, and prints the log of the run.
-/

namespace MediaHost.Demo

/-- What a failed reading comes to.  The system's number comes with either sign. -/
def faultOf : IO.Error → FileFault
  | .inappropriateType _ code _ => if code = 20 || code = -20 then .notFolder else .isFolder
  | .invalidArgument _ code _ => if code = 36 || code = -36 then .nameTooLong else .nulInPath
  | _ => .notFound

/-- The bytes of a file. -/
def readFile (name : String) : IO (Except FileFault (List UInt8)) := do
  try
    return .ok (← IO.FS.readBinFile name).toList
  catch fault =>
    return .error (faultOf fault)

/-- Reads what the command line names, runs it, and prints the lines of the report. -/
def execute (args : List String) : IO UInt32 := do
  let request := parse args
  let content ← match request with
    | .run { config := some name, .. } => readFile name
    | _ => pure (.error .notFound)
  let report := run request fun _ => content
  for line in report.lines do
    IO.println line.render
  return report.exit.toUInt32

end MediaHost.Demo

def main (args : List String) : IO UInt32 := MediaHost.Demo.execute args
