import MediaHost.Proofs.Flow

/-!
# Proofs — Aside

What a session has besides its media and its pipeline: its queue, its account, its observers.
Every command that neither sets up media nor is about these very things leaves them as they are
(`Aside.exec`).
-/

namespace MediaHost

/-- Something of a session that depends neither on its media nor on its pipeline. -/
structure Aside {β : Type} (view : Session → β) : Prop where
  media (x : Session) (config : Config) (image : Image) (status : Status) (frames : Acquisition) :
    view { x with config := config, image := image, status := status, frames := frames } = view x
  wiring (x : Session) (status : Status) (pipeline : Option Handle) (lease : Option Lease)
      (token : Option Nat) :
    view { x with status := status, pipeline := pipeline, lease := lease, token := token } = view x

/-- The queue of a session is none of its media's business. -/
theorem aside_queue : Aside Session.queue := ⟨fun _ _ _ _ _ => rfl, fun _ _ _ _ _ => rfl⟩

theorem aside_health : Aside Session.health := ⟨fun _ _ _ _ _ => rfl, fun _ _ _ _ _ => rfl⟩

namespace Aside
open Stage
variable {β : Type} {view : Session → β} (hv : Aside view) {s : Stage}
include hv

/-- A setting is part of the configuration. -/
theorem configure (s : Stage) (f : Playback → Playback) :
    view (s.configure f).session = view s.session :=
  hv.media s.session _ s.session.image s.session.status s.session.frames

/-- The transport moves the phase and leaves the rest. -/
theorem transport (s : Stage) (op : Transport) :
    view (s.transport op).1.session = view s.session := by
  simp only [Stage.transport, withLive]
  split
  · rfl
  · split
    · rfl
    · exact hv.media _ _ _ _ _

/-- Playing starts a wait for the first frame besides. -/
theorem play (s : Stage) : view s.play.1.session = view s.session := by
  have ht := hv.transport s .play
  simp only [Stage.play]
  split
  · next heq =>
      rw [heq] at ht
      exact (hv.media _ _ _ _ _).trans ht
  · next heq => rwa [heq] at ht
  · next heq => rwa [heq] at ht

/-- Closing stops first. -/
theorem close (s : Stage) : view s.close.1.session = view s.session := by
  simp only [Stage.close]
  split
  · have ht := hv.transport s .stop
    split
    · next heq =>
        rw [heq] at ht
        exact (hv.transport _ .close).trans ht
    · next heq => rwa [heq] at ht
  · exact hv.transport s .close

/-- Bringing a session up gives it its wiring, or nothing. -/
theorem bringUp (s : Stage) : view s.bringUp.1.session = view s.session := by
  simp only [Stage.bringUp]
  split
  · rfl
  split
  · rfl
  split
  · rfl
  split
  · rfl
  · exact hv.wiring _ _ _ _ _

omit hv in
/-- Without a pipeline nothing happens, so nothing is lost. -/
theorem withLive {α : Type} {f : Handle → Stage → Stage × α}
    (hf : ∀ h, view (f h s).1.session = view s.session) :
    view (s.withLive f).1.session = view s.session := by
  simp only [Stage.withLive]
  split
  · rfl
  · exact hf _

omit hv in
/-- A question changes nothing of the session. -/
theorem query {α : Type} (s : Stage) (f : Engine → Nat → Engine × α) :
    view (s.query f).1.session = view s.session :=
  withLive fun _ => rfl

omit hv in
/-- A picture goes to the engine, or is refused. -/
theorem consume (s : Stage) (data : Array UInt8) :
    view (s.consume data).1.session = view s.session := by
  simp only [Stage.consume]
  split
  · rfl
  · split <;> rfl

omit hv in
theorem orFalse {x : Stage × Except Error Bool} (hx : view x.1.session = view s.session) :
    view (Stage.orFalse x).1.session = view s.session := by
  rcases x with ⟨s', _ | _⟩ <;> exact hx

end Aside

/-- A command about the session itself: its queue, its observers, or its end. -/
def Command.isOwn : Command → Bool
  | .share _ | .observe .. | .destroy => true
  | _ => false

/-- A command that sets no media up, or may do so only together with other things. -/
def Command.isPlain : Command → Bool
  | .setup .. | .setupWith _ | .setupEncoding _ | .start | .consumeSized .. => false
  | _ => true

/-- A command that is not about a thing, and sets up no media, leaves that thing as it is. -/
theorem Aside.exec {β : Type} {view : Session → β} (hv : Aside view) {c : Command}
    (ho : c.isOwn = false) (hp : c.isPlain = true) (s : Stage) :
    view (c.exec s).1.session = view s.session := by
  cases c with
  | share | observe | destroy => cases ho
  | setup | setupWith | setupEncoding | start | consumeSized => cases hp
  | bringUp => exact hv.bringUp s
  | play => exact hv.play s
  | pause => exact hv.transport s .pause
  | stop => exact hv.transport s .stop
  | close => exact hv.close s
  | consume data => exact Aside.consume s data
  | duration => exact Aside.query s Engine.durationOf
  | position => exact Aside.query s Engine.positionOf
  | isPlaying | isLoaded => exact Aside.orFalse (Aside.query s _)
  | setPosition seconds => exact Aside.withLive fun _ => rfl
  | setBaseTime time => exact Aside.withLive fun _ => hv.media _ _ _ _ _
  | setVolume volume => exact Aside.withLive fun _ => hv.configure _ _
  | setBitrateLimit limit =>
      refine Aside.withLive fun h => (hv.configure _ _).trans ?_
      split <;> rfl
  | setLooping looping =>
      exact hv.media s.session _ s.session.image { s.session.status with looping := looping }
        s.session.frames

end MediaHost
