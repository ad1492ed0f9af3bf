import MediaHost.Config.Basic
import MediaHost.FileTree
import MediaHost.Json.Record
import MediaHost.Text.Utf8

/-!
# Config — Reader

Configurations as JSON.  Each section is a record, and so is the whole; whatever is left out
keeps its default.
-/

namespace MediaHost
open Json

namespace Playback

def fields : List (Json.Field Playback) := [
  .of "name" (.optional .text) fun v p => { p with name := v },
  .of "uri" .text fun v p => { p with uri := v },
  .of "video_index" .int32 fun v p => { p with videoIndex := v },
  .of "audio_index" .int32 fun v p => { p with audioIndex := v },
  .of "looping" .boolean fun v p => { p with looping := v },
  .of "volume" .double fun v p => { p with volume := v },
  .of "adaptive_bitrate_limit" .single fun v p => { p with bitrateLimit := v },
  .of "initial_width" .uint32 fun v p => { p with initialWidth := v },
  .of "initial_height" .uint32 fun v p => { p with initialHeight := v }]

end Playback

namespace Crop

def fields : List (Json.Field Crop) := [
  .of "left" .single fun v c => { c with left := v },
  .of "top" .single fun v c => { c with top := v },
  .of "right" .single fun v c => { c with right := v },
  .of "bottom" .single fun v c => { c with bottom := v }]

end Crop

namespace Synchronization

def fields : List (Json.Field Synchronization) := [
  .of "enabled" .boolean fun v s => { s with enabled := v },
  .of "master_clock_address" .text fun v s => { s with clockAddress := v },
  .of "master_clock_port" .uint16 fun v s => { s with clockPort := v },
  .of "clock_mode" (.choice (ClockMode.all.map fun m => (m.name, m)))
    fun v s => { s with clockMode := v },
  .of "base_time" .uint64 fun v s => { s with baseTime := v }]

end Synchronization

namespace Diagnostics

def fields : List (Json.Field Diagnostics) := [
  .of "enabled" .boolean fun v d => { d with enabled := v },
  .of "engine_debug" .text fun v d => { d with levels := v }]

end Diagnostics

namespace Teardown

def fields : List (Json.Field Teardown) := [
  .of "eos_poll_interval_ms" .uint64 fun v t => { t with pollInterval := v },
  .of "eos_timeout_ms" (.optional .uint64) fun v t => { t with timeout := v }]

end Teardown

namespace Config

def fields : List (Json.Field Config) := [
  .of "playback" (.record Playback.fields {}) fun v c => { c with playback := v },
  .of "cropping" (.record Crop.fields {}) fun v c => { c with crop := v },
  .of "synchronization" (.record Synchronization.fields {})
    fun v c => { c with synchronization := v },
  .of "debug" (.record Diagnostics.fields {}) fun v c => { c with diagnostics := v },
  .of "teardown" (.record Teardown.fields {}) fun v c => { c with teardown := v }]

/-- The configuration that a text describes. -/
def parse (text : String) : Except Fault Config := (Reader.record fields {}).run text

/-- Why a configuration file could not be loaded. -/
inductive LoadError
  | reading (name : String) (fault : FileFault)
  | parsing (name : String) (fault : Fault)
deriving DecidableEq, Repr

namespace LoadError

/-- What was being done when it failed. -/
def context : LoadError → String
  | .reading name _ => "reading config " ++ name
  | .parsing name _ => "parsing config " ++ name

/-- What was being done, and for a file the system's reason. -/
def message : LoadError → String
  | .reading name fault => (LoadError.reading name fault).context ++ ": " ++ fault.message
  | .parsing name fault => (LoadError.parsing name fault).context

end LoadError

/-- The configuration in a file, given the file's bytes or why there are none. -/
def load (name : String) (content : Except FileFault (List UInt8)) : Except LoadError Config := do
  let bytes ← content.mapError (.reading name)
  match Utf8.decode? bytes with
  | none => throw (.reading name .notUtf8)
  | some text => (parse text).mapError (.parsing name)

end Config
end MediaHost
