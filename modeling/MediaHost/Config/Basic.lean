import MediaHost.Config.Crop

/-!
# Config — Basic

The settings of a session, in five sections, and the two descriptions of media made from them:
what to decode, and what to encode into.
-/

namespace MediaHost

/-- What is played, and how. -/
structure Playback where
  /-- The name given to the engine. -/
  name : Option String := none
  uri : String := ""
  /-- Counted from zero; a negative index turns the stream off. -/
  videoIndex : Int32 := 0
  audioIndex : Int32 := 0
  /-- Go back to the start when the media finishes. -/
  looping : Bool := false
  /-- From `0`, mute, to `1`. -/
  volume : Double := Double.one
  /-- From `0`, the lowest quality, to `1`. -/
  bitrateLimit : Single := Single.one
  initialWidth : UInt32 := 64
  initialHeight : UInt32 := 64
deriving DecidableEq

/-- How a clock is followed over the network. -/
inductive ClockMode
  | netClient
  | dvbWallClock
deriving DecidableEq, Repr

namespace ClockMode

/-- The name of the mode in a configuration. -/
def name : ClockMode → String
  | .netClient => "net_client"
  | .dvbWallClock => "dvb_wall_clock"

def all : List ClockMode := [.netClient, .dvbWallClock]

end ClockMode

/-- A clock to follow. -/
structure NetworkClock where
  address : String
  portNumber : UInt16
  mode : ClockMode
deriving DecidableEq

/-- Playing in step with others. -/
structure Synchronization where
  enabled : Bool := false
  clockAddress : String := ""
  clockPort : UInt16 := 0
  clockMode : ClockMode := .netClient
  /-- In nanoseconds; zero plays from the beginning. -/
  baseTime : UInt64 := 0
deriving DecidableEq

/-- The clock to follow, if synchronization is on and a clock is named. -/
def Synchronization.clock (s : Synchronization) : Option NetworkClock :=
  if s.enabled && !s.clockAddress.isEmpty then
    some ⟨s.clockAddress, s.clockPort, s.clockMode⟩
  else none

/-- The engine's diagnostics. -/
structure Diagnostics where
  /-- Pass the engine's messages on to the log. -/
  enabled : Bool := false
  /-- Categories and levels in the engine's own notation; empty turns them off. -/
  levels : String := "2"
deriving DecidableEq

/-- Waiting for the end of an encoded stream, in milliseconds. -/
structure Teardown where
  pollInterval : UInt64 := 10
  /-- How long to wait at most; without it, as long as it takes. -/
  timeout : Option UInt64 := none
deriving DecidableEq

/-- The time between two looks, at least a millisecond. -/
def Teardown.interval (t : Teardown) : Nat := max t.pollInterval.toNat 1

/-- Everything a session needs besides the engine. -/
structure Config where
  playback : Playback := {}
  crop : Crop := {}
  synchronization : Synchronization := {}
  diagnostics : Diagnostics := {}
  teardown : Teardown := {}
deriving DecidableEq

instance : Inhabited Config := ⟨{}⟩

/-- Media to decode. -/
structure Decoding where
  uri : String
  videoIndex : Int32
  audioIndex : Int32
  clock : Option NetworkClock := none
  /-- In nanoseconds. -/
  baseTime : UInt64 := 0
  crop : Crop := {}
deriving DecidableEq

namespace Decoding

def hasVideo (d : Decoding) : Bool := 0 ≤ d.videoIndex

def hasAudio (d : Decoding) : Bool := 0 ≤ d.audioIndex

end Decoding

/-- A file to encode into, from raw pictures of one size. -/
structure Encoding where
  path : String
  size : Size
deriving DecidableEq

namespace Config

/-- The media `uri` with the configured clock and crop. -/
def decoding (c : Config) (uri : String) (videoIndex audioIndex : Int32) : Decoding where
  uri := uri
  videoIndex := videoIndex
  audioIndex := audioIndex
  clock := c.synchronization.clock
  baseTime := c.synchronization.baseTime
  crop := c.crop.normalized

/-- Equal to the configuration that says nothing, numbers compared as numbers. -/
def isDefault (c : Config) : Bool :=
  let d : Config := {}
  c.playback.volume.same d.playback.volume &&
    c.playback.bitrateLimit.same d.playback.bitrateLimit &&
    c.crop.same d.crop &&
    { c with
      playback := { c.playback with
        volume := d.playback.volume, bitrateLimit := d.playback.bitrateLimit }
      crop := d.crop } = d

end Config
end MediaHost
