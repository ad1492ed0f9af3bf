/-!
# Demo — Options

The command line.  A long option is written `--name value` or `--name=value`, a short one `-n
value`, `-nvalue` or `-n=value`; short options without a value may be written together.  Each
option may stand once, and there are no other arguments.
-/

namespace MediaHost.Demo

/-- What the command line asks for. -/
structure Options where
  /-- The configuration file. -/
  config : Option String := none
  uri : Option String := none
  video : Option Int32 := none
  audio : Option Int32 := none
  ticks : Option UInt64 := none
  /-- Milliseconds to a tick. -/
  tick : Option UInt64 := none
  looping : Bool := false
deriving DecidableEq, Repr

/-- What becomes of a command line. -/
inductive Request
  | run (options : Options)
  /-- Help or the version is asked for. -/
  | information
  | invalid
deriving DecidableEq, Repr

/-- The options there are. -/
inductive Key
  | config
  | uri
  | video
  | audio
  | ticks
  | tick
  | looping
  | help
  | version
deriving DecidableEq, Repr

namespace Key

def long? : String → Option Key
  | "config" => some config
  | "uri" => some uri
  | "video" => some video
  | "audio" => some audio
  | "ticks" => some ticks
  | "tick-ms" => some tick
  | "loop" => some looping
  | "help" => some help
  | "version" => some version
  | _ => none

def short? : Char → Option Key
  | 'c' => some config
  | 'u' => some uri
  | 'n' => some ticks
  | 'l' => some looping
  | 'h' => some help
  | 'V' => some version
  | _ => none

/-- The option stands alone. -/
def isFlag : Key → Bool
  | looping | help | version => true
  | _ => false

/-- The option's value may be a negative number. -/
def takesNegative : Key → Bool
  | video | audio => true
  | _ => false

end Key

/-- The value of decimal digits, of which there must be some. -/
def natural? (cs : List Char) : Option Nat :=
  if cs.isEmpty || !cs.all Char.isDigit then none
  else some (cs.foldl (fun n c => n * 10 + (c.toNat - '0'.toNat)) 0)

/-- A number below `2 ^ 64`, perhaps with a plus sign. -/
def unsigned? (s : String) : Option UInt64 := do
  let n ← match s.toList with
    | '+' :: cs => natural? cs
    | cs => natural? cs
  if n < UInt64.size then some (UInt64.ofNat n) else none

/-- A number of 32 bits with its sign. -/
def signed? (s : String) : Option Int32 := do
  let n : Int ← match s.toList with
    | '+' :: cs => (natural? cs).map fun n => (n : Int)
    | '-' :: cs => (natural? cs).map fun n => -(n : Int)
    | cs => (natural? cs).map fun n => (n : Int)
  if Int32.minValue.toInt ≤ n && n ≤ Int32.maxValue.toInt then some (Int32.ofInt n) else none

namespace Options

/-- The options with a value added; none if the option was there before, or does not take the
value. -/
def set (o : Options) (key : Key) (value : String) : Option Options :=
  match key with
  | .config =>
    if o.config.isSome || value.isEmpty then none else some { o with config := some value }
  | .uri => if o.uri.isSome then none else some { o with uri := some value }
  | .video =>
    if o.video.isSome then none else (signed? value).map fun n => { o with video := some n }
  | .audio =>
    if o.audio.isSome then none else (signed? value).map fun n => { o with audio := some n }
  | .ticks =>
    if o.ticks.isSome then none else (unsigned? value).map fun n => { o with ticks := some n }
  | .tick =>
    if o.tick.isSome then none
    else (unsigned? value).bind fun n => if n = 0 then none else some { o with tick := some n }
  | .looping | .help | .version => none

end Options

/-- Whether an argument can be the value of the option before it, and not an option itself. -/
def isValueFor (key : Key) (arg : String) : Bool :=
  match arg.toList with
  | '-' :: c :: cs => key.takesNegative && (natural? (c :: cs)).isSome
  | _ => true

/-- What one argument comes to. -/
inductive Reading
  | options (o : Options)
  /-- The next argument is the value of this option. -/
  | awaits (key : Key) (o : Options)
  | information
  | invalid

/-- A flag. -/
def Reading.flag (o : Options) : Key → Reading
  | .looping => if o.looping then .invalid else .options { o with looping := true }
  | .help | .version => .information
  | _ => .invalid

/-- The options with a value added, if it fits. -/
def Reading.value (o : Options) (key : Key) (value : String) : Reading :=
  match o.set key value with
  | some o => .options o
  | none => .invalid

/-- A long option, after its two dashes. -/
def readLong (o : Options) (cs : List Char) : Reading :=
  let name := cs.takeWhile (· ≠ '=')
  let attached := cs.dropWhile (· ≠ '=')
  match Key.long? (String.ofList name), attached with
  | none, _ => .invalid
  | some key, [] => if key.isFlag then .flag o key else .awaits key o
  | some key, _ :: value => if key.isFlag then .invalid else .value o key (String.ofList value)

/-- Short options written together, after their dash. -/
def readShort (o : Options) : List Char → Reading
  | [] => .options o
  | c :: cs =>
    match Key.short? c with
    | none => .invalid
    | some key =>
      if key.isFlag then
        match Reading.flag o key with
        | .options o => readShort o cs
        | other => other
      else
        match cs with
        | [] => .awaits key o
        | '=' :: value => .value o key (String.ofList value)
        | value => .value o key (String.ofList value)

/-- One argument that is not a value. -/
def readOption (o : Options) (arg : String) : Reading :=
  match arg.toList with
  | '-' :: '-' :: cs => readLong o cs
  | '-' :: c :: cs => readShort o (c :: cs)
  | _ => .invalid

/-- Reads the arguments in order; the first that is wrong, or asks for information, decides. -/
def parseFrom (o : Options) : List String → Request
  | [] => .run o
  | arg :: rest =>
    if arg = "--" then
      if rest.isEmpty then .run o else .invalid
    else
      match readOption o arg with
      | .options o => parseFrom o rest
      | .awaits key o =>
        match rest with
        | [] => .invalid
        | value :: rest =>
          if isValueFor key value then
            match o.set key value with
            | some o => parseFrom o rest
            | none => .invalid
          else .invalid
      | .information => .information
      | .invalid => .invalid

def parse (args : List String) : Request := parseFrom {} args

end MediaHost.Demo
