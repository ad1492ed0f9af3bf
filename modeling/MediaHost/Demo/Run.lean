import MediaHost.Config.Reader
import MediaHost.Demo.Options
import MediaHost.Text.Terminal
import MediaHost.World.Operations

/-!
# Demo — Run

A host that plays one medium for a number of ticks and logs what it sees.
-/

namespace MediaHost.Demo

/-- One line of the log. -/
structure Line where
  level : Level
  text : String
deriving DecidableEq, Repr

/-- The line as it is shown. -/
def Line.render (l : Line) : String := l.level.name ++ " " ++ terminalText l.text

/-- What a run leaves behind. -/
structure Report where
  exit : Nat
  lines : List Line
deriving DecidableEq, Repr

/-- The line for what an observer was called for. -/
def occasionLine : Occasion → Line
  | .started => ⟨.info, "Playback started"⟩
  | .event .finished => ⟨.info, "Playback finished"⟩
  | .event (.failed message) => ⟨.warn, "Playback error: " ++ message⟩
  | .event (.quality report) => ⟨.info, "QoS: " ++ report.text⟩

/-- The occasions on which observers were called, in order. -/
def occasions (w : World) : List Occasion :=
  w.host.happenings.toList.filterMap fun
    | .observed _ _ occasion => some occasion
    | _ => none

/-- The configuration the options ask for, over the one that was loaded. -/
def Options.applyTo (o : Options) (c : Config) : Config :=
  let p := c.playback
  let uri := o.uri.getD p.uri
  { c with
    playback := { p with
      uri := if uri.isEmpty then "sim://demo" else uri
      videoIndex := o.video.getD p.videoIndex
      audioIndex := o.audio.getD p.audioIndex
      looping := o.looping || p.looping } }

/-- Milliseconds as seconds. -/
def seconds (milliseconds : Nat) : Double :=
  (Binary.ofNat (milliseconds / 1000)).add
    ((Binary.ofNat (milliseconds % 1000 * 1000000)).div (Binary.ofNat 1000000000))

/-- An engine whose media makes a frame every tick. -/
def engine (tick : Nat) : Engine where
  autoFrames := some ⟨⟨320, 180⟩, seconds tick⟩
  duration := Binary.ofNat 3

/-- The one session, observed on every topic. -/
def world (c : Config) (tick : Nat) (image : Image) : World :=
  let w : World := { host := { context := .new (engine tick) c.diagnostics } }
  let w := w.addSession 0 c image 0
  [Topic.start, .finish, .error, .quality].foldl
    (fun w topic => w.modifySession 0 (·.observe topic "" [])) w

/-- The line about the frame of every sixtieth tick. -/
def frameLine (n : Nat) (size : Size) (w : World) : World × Line :=
  let (w, position) := w.act 0 (·.position)
  let (w, duration) := w.act 0 (·.duration)
  let text : Option (Except Error Double) → String
    | some (.ok x) => x.toFixed 2
    | _ => ""
  (w, ⟨.info, "Tick " ++ toString n ++ ": frame " ++ size.text ++ " at " ++ text position ++
    "/" ++ text duration ++ "s"⟩)

/-- The ticks from number `n` on, with the lines so far, and the error that ended them, if one
did. -/
def ticks (looping : Bool) :
    (remaining n : Nat) → List Line → World → World × List Line × Option Error
  | 0, _, lines, w => (w, lines, none)
  | remaining + 1, n, lines, w =>
    match w.advance 0 with
    | (w, none) => (w, lines, none)
    | (w, some (.error e)) => (w, lines, some e)
    | (w, some (.ok tick)) =>
      let seen := occasions w
      let lines := lines ++ seen.map occasionLine
      let w := w.onHost (·.forget)
      let (w, lines) :=
        match tick.frame with
        | .frame size _ _ =>
          if n % 60 = 0 then
            let (w, line) := frameLine n size w
            (w, lines ++ [line])
          else (w, lines)
        | .idle | .overflow => (w, lines)
      if seen.contains (.event .finished) && !looping then (w, lines, none)
      else ticks looping remaining (n + 1) lines w

/-- The account of the session. -/
def summary (w : World) : Except Error String :=
  ((w.sessions.get? 0).map (·.health.text)).getD (.ok "")

/-- A run that met an error after some lines.  One that is not returned ends the run there. -/
def failed (lines : List Line) (about : String) (e : Error) : Report :=
  if e.isReturned then ⟨1, lines ++ [⟨.error, about ++ e.message⟩]⟩ else ⟨101, lines⟩

/-- Plays the configured medium in a session with the given image. -/
def present (c : Config) (tick ticks : Nat) (lines : List Line) (image : Image) : Report :=
  match (world c tick image).act 0 (·.start) with
  | (_, some (.error e)) => failed lines "starting playback: " e
  | (w, _) =>
    let active := if w.host.context.isActive then "true" else "false"
    let begun := lines ++ [⟨.info, "Engine active: " ++ active⟩]
    match Demo.ticks c.playback.looping ticks 0 begun w with
    | (_, lines, some e) => failed lines "" e
    | (w, lines, none) =>
      match summary w with
      | .error e => failed lines "" e
      | .ok text => ⟨0, lines ++ [⟨.info, text⟩]⟩

/-- Plays the configured medium. -/
def play (o : Options) (c : Config) : Report :=
  let c := o.applyTo c
  let running : List Line := [⟨.info, "Running against the simulated engine"⟩]
  match Session.initialImage c with
  | .error e => failed running "" e
  | .ok image => present c (o.tick.getD 16).toNat (o.ticks.getD 600).toNat running image

/-- Runs what the command line asks for.  `read` gives the content of a file. -/
def run (request : Request) (read : String → Except FileFault (List UInt8)) : Report :=
  match request with
  | .invalid => ⟨2, []⟩
  | .information => ⟨0, []⟩
  | .run o =>
    match o.config with
    | none => play o {}
    | some name =>
      match Config.load name (read name) with
      | .error e => ⟨1, [⟨.error, e.message⟩]⟩
      | .ok c => play o c

end MediaHost.Demo
