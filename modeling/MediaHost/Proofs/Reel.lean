import MediaHost.Proofs.Course

/-!
# Proofs — Reel

What a session knows of its media, and what the engine knows of the same media for the session's
pipeline (`Reel`).  A command that makes one change at most is one step of these (`Reel.Step`,
`Stage.step_exec`).  In every step the phase stays or moves as a phase may (`Reel.Step.edge`), and
the session and the engine keep to the same settings and the same pictures (`Reel.Step.shows`).
-/

namespace MediaHost

/-- The phase stays, or moves as a phase may. -/
def Phase.Edge (a b : Phase) : Prop := b = a ∨ a.canMoveTo b = true

instance (a b : Phase) : Decidable (a.Edge b) := inferInstanceAs (Decidable (_ ∨ _))

/-- What the engine knows of the media of a pipeline. -/
@[ext]
structure Strip where
  direction : Option Direction := none
  encoding : Option Encoding := none
  consumed : Nat := 0
  last : Option (Array UInt8) := none
deriving DecidableEq

def Pipeline.strip (p : Pipeline) : Strip where
  direction := p.direction
  encoding := p.encoding
  consumed := p.consumed
  last := p.lastConsumed

/-- What session and engine know of the media of a session. -/
@[ext]
structure Reel where
  isUp : Bool
  phase : Phase
  direction : Option Direction
  encoding : Option Encoding
  /-- As the engine has it for the session's pipeline. -/
  strip : Option Strip

def Host.stripOf (a : Host) (h : Handle) : Option Strip :=
  (a.engine.pipelines.get? h.id).map (·.strip)

def Stage.reel (s : Stage) : Reel where
  isUp := s.session.isUp
  phase := s.session.phase
  direction := s.session.status.direction
  encoding := s.session.encoding
  strip := s.session.pipeline.bind s.host.stripOf

/-- What an encoder is fed. -/
inductive Feed
  /-- The encoder was set up, and has no picture yet. -/
  | anew
  | picture (data : Array UInt8)
deriving DecidableEq

/-- The pictures since the last setup of the encoder, if there were `l` before. -/
def Feed.after (l : List (Array UInt8)) : Feed → List (Array UInt8)
  | .anew => []
  | .picture data => l ++ [data]

namespace Reel
variable {r r' : Reel} {fs : List Feed} {l : List (Array UInt8)}

/-- Media to decode is set up; the engine may never see a text that it would not take. -/
def decoded (r : Reel) (seen : Bool) : Reel :=
  { r with
    phase := .configured
    direction := some .decoding
    encoding := none
    strip := r.strip.map fun t =>
      { t with direction := if seen then some .decoding else t.direction } }

/-- A file to encode into is set up. -/
def encoded (r : Reel) (enc : Encoding) : Reel :=
  { r with
    phase := .configured
    direction := some .encoding
    encoding := some enc
    strip := r.strip.map fun _ => { direction := some .encoding, encoding := some enc } }

/-- The engine has one picture more. -/
def fed (r : Reel) (data : Array UInt8) : Reel :=
  { r with
    strip := r.strip.map fun t => { t with consumed := t.consumed + 1, last := some data } }

/-- One step of a session's media, with what the encoder is fed. -/
inductive Step : Reel → List Feed → Reel → Prop
  | rest (r : Reel) : Step r [] r
  | bringUp (r : Reel) (h : r.phase = .unloaded) :
      Step r [] { r with isUp := true, direction := none, strip := some {} }
  | decode (r : Reel) (hu : r.isUp = true) (hd : r.phase.isDestroyed = false) (seen : Bool) :
      Step r [] (r.decoded seen)
  | encode (r : Reel) (hu : r.isUp = true) (hd : r.phase.isDestroyed = false) {enc : Encoding}
      (he : enc.size.isEmpty = false) : Step r [.anew] (r.encoded enc)
  | move (r : Reel) {op : Transport} (h : r.phase.after op = some op.target) :
      Step r [] { r with phase := op.target }
  | picture (r : Reel) {enc : Encoding} {data : Array UInt8} (he : r.encoding = some enc)
      (h : data.size = enc.size.bytes) : Step r [.picture data] (r.fed data)
  /-- What the session remembers of its media is of no use any more. -/
  | destroy (r : Reel) (h : r.phase.isDestroyed = false) (direction : Option Direction)
      (encoding : Option Encoding) : Step r [] ⟨false, .destroyed, direction, encoding, none⟩

/-- Every step is an edge of the phases. -/
theorem Step.edge (h : Step r fs r') : r.phase.Edge r'.phase := by
  cases h with
  | rest | bringUp | picture => exact .inl rfl
  | decode hu hd | encode hu hd he =>
      refine .inr ?_
      cases hp : r.phase <;> first | rfl | (rw [hp] at hd; cases hd)
  | move ha =>
      refine .inr ?_
      simp only [Phase.after] at ha
      split at ha
      · next hc => exact (Bool.and_eq_true_iff.mp hc).2
      · cases ha
  | destroy hd =>
      refine .inr ?_
      cases hp : r.phase <;> first | rfl | (rw [hp] at hd; cases hd)

/-- The session and the engine are of one mind about the media: they have the same settings for
an encoder, and the engine has counted the pictures `l` since it was set up. -/
structure Shows (r : Reel) (l : List (Array UInt8)) : Prop where
  down : r.isUp = false → r.phase = .unloaded ∨ r.phase = .destroyed
  unloaded : r.phase = .unloaded → r.direction = none ∧ r.encoding = none ∧ l = []
  direction : r.isUp = true → (r.direction = some .encoding ↔ r.encoding.isSome = true)
  settings : r.isUp = true → ∀ enc, r.encoding = some enc → enc.size.isEmpty = false ∧
    ∀ t, r.strip = some t → t.direction = some .encoding ∧ t.encoding = some enc
  pictures : ∀ t, r.strip = some t → t.consumed = l.length ∧ t.last = l.getLast?

/-- Before its first media a session has shown nothing. -/
theorem Shows.unopened : Shows ⟨false, .unloaded, none, none, none⟩ [] :=
  ⟨fun _ => .inl rfl, fun _ => ⟨rfl, rfl, rfl⟩, nofun, nofun, nofun⟩

theorem Shows.isUp (hr : r.Shows l) (hc : r.phase.isConfigured = true) : r.isUp = true := by
  refine Bool.not_eq_false _ ▸ fun hd => ?_
  rcases hr.down hd with hp | hp <;> (rw [hp] at hc; cases hc)

/-- The engine's pipeline shows what was fed to it since its last setup, step after step. -/
theorem Step.shows (h : Step r fs r') (hr : r.Shows l) : r'.Shows (fs.foldl Feed.after l) := by
  cases h with
  | rest => exact hr
  | bringUp hp =>
      obtain ⟨-, henc, rfl⟩ := hr.unloaded hp
      refine ⟨nofun, fun _ => ⟨rfl, henc, rfl⟩, fun _ => ?_, fun _ enc he => ?_, ?_⟩
      · simp [henc]
      · cases henc.symm.trans he
      · rintro t ⟨⟩
        exact ⟨rfl, rfl⟩
  | decode hu hd seen =>
      refine ⟨fun hn => ?_, nofun, fun _ => by simp [decoded], nofun, fun t ht => ?_⟩
      · cases hu.symm.trans hn
      · obtain ⟨u, hu, rfl⟩ := Option.map_eq_some_iff.mp ht
        exact hr.pictures u hu
  | encode hu hd he =>
      refine ⟨fun hn => ?_, nofun, fun _ => by simp [encoded], fun _ enc' henc => ?_,
        fun t ht => ?_⟩
      · cases hu.symm.trans hn
      · obtain rfl := Option.some.inj henc
        refine ⟨he, fun t ht => ?_⟩
        obtain ⟨-, -, rfl⟩ := Option.map_eq_some_iff.mp ht
        exact ⟨rfl, rfl⟩
      · obtain ⟨-, -, rfl⟩ := Option.map_eq_some_iff.mp ht
        exact ⟨rfl, rfl⟩
  | @move op ha =>
      have hu := hr.isUp (Coupled.isConfigured_of_after ha)
      refine ⟨fun hn => ?_, fun hp => ?_, hr.direction, hr.settings, hr.pictures⟩
      · cases hu.symm.trans hn
      · cases op <;> cases hp
  | picture he hsize =>
      refine ⟨hr.down, fun hp => ?_, hr.direction, fun hu enc henc => ?_, fun t ht => ?_⟩
      · cases he.symm.trans (hr.unloaded hp).2.1
      · obtain ⟨hempty, hset⟩ := hr.settings hu enc henc
        refine ⟨hempty, fun t ht => ?_⟩
        obtain ⟨u, hu, rfl⟩ := Option.map_eq_some_iff.mp ht
        exact hset u hu
      · obtain ⟨u, hu, rfl⟩ := Option.map_eq_some_iff.mp ht
        simp [Feed.after, (hr.pictures u hu).1]
  | destroy hd =>
      refine ⟨fun _ => .inr rfl, nofun, nofun, nofun, nofun⟩

/-- Media that is set up was stopped by a failure, or nothing changed. -/
def Fails (r r' : Reel) : Prop :=
  r' = r ∨ r.phase.isConfigured = true ∧ r' = { r with phase := .stopped }

/-- An error that stops the session leaves what is shown alone. -/
theorem Fails.shows (h : Fails r r') (hr : r.Shows l) : r'.Shows l := by
  rcases h with rfl | ⟨hc, rfl⟩
  · exact hr
  · refine ⟨fun hn => ?_, nofun, hr.direction, hr.settings, hr.pictures⟩
    cases (hr.isUp hc).symm.trans hn

end Reel

/-! ### Commands that leave the media alone -/

theorem Host.stripOf_pipelines {a b : Host} (hp : b.engine.pipelines = a.engine.pipelines)
    (h : Handle) : b.stripOf h = a.stripOf h := by
  simp only [stripOf, hp]

/-- Work on one pipeline, whatever it does to the strip. -/
theorem Host.stripOf_alters {a b : Host} {k : Nat} {f : Pipeline → Pipeline} {g : Strip → Strip}
    (ha : Alters k f a b) (hf : ∀ p, (f p).strip = g p.strip) (h : Handle) :
    b.stripOf h = if k = h.id then (a.stripOf h).map g else a.stripOf h :=
  ha.reading hf h.id

/-- Work that leaves the strip of a pipeline alone changes nobody's strip. -/
theorem Host.stripOf_kept {a b : Host} {k : Nat} {f : Pipeline → Pipeline} (ha : Alters k f a b)
    (hf : ∀ p, (f p).strip = p.strip) (h : Handle) : b.stripOf h = a.stripOf h :=
  ha.kept hf h.id

namespace Stage
variable {s s' : Stage} {h : Handle}

/-- A session sees of the host only its own pipeline's strip. -/
theorem reel_onHost {f : Host → Host} (hf : ∀ h, (f s.host).stripOf h = s.host.stripOf h) :
    (s.onHost f).reel = s.reel := by
  refine Reel.ext rfl rfl rfl rfl ?_
  simp only [reel, onHost]
  cases s.session.pipeline with
  | none => rfl
  | some h => exact hf h

theorem reel_tell {g : Engine → Engine} {k : Nat} {f : Pipeline → Pipeline}
    (ha : Engine.Alters k f s.host.engine (g s.host.engine))
    (hf : ∀ p, (f p).strip = p.strip) : (s.onHost (·.tell g)).reel = s.reel :=
  reel_onHost (Host.stripOf_kept (Host.alters_tell ha) hf)

theorem reel_query {α : Type} {f : Engine → Nat → Engine × α}
    (hf : ∀ e k, (f e k).1.pipelines = e.pipelines) : (s.query f).1.reel = s.reel :=
  reading_withLive fun h _ => reel_onHost (Host.stripOf_pipelines (hf s.host.engine h.id))

theorem reel_share (queue : Nat) : (s.share queue).reel = s.reel := by
  simp only [share]
  split
  · exact reel_onHost fun _ => rfl
  · rfl

theorem reel_setBitrateLimit (limit : Single) : (s.setBitrateLimit limit).1.reel = s.reel := by
  refine reading_withLive fun h _ => ?_
  dsimp only
  split
  · exact reel_tell (g := (h.setBitrateLimit · _)) (Engine.alters_setBitrateLimit _) fun _ => rfl
  · rfl

/-! ### Commands that move it -/

/-- Work on the session's own pipeline. -/
theorem strip_works {f : Pipeline → Pipeline} {g : Strip → Strip} (hw : Works h f s s')
    (hp : s.session.pipeline = some h) (hf : ∀ p, (f p).strip = g p.strip) :
    s'.reel.strip = s.reel.strip.map g := by
  simp only [reel, pipeline_of_wiring hw.wiring, hp, Option.bind_some]
  rw [Host.stripOf_alters hw.host hf, if_pos rfl]

/-- A live session is up. -/
theorem isUp_of_live (hl : s.session.live = .ok h) :
    s.reel.isUp = true ∧ s.reel.phase.isDestroyed = false := by
  obtain ⟨hd, hp⟩ := live_eq_ok.mp hl
  exact ⟨by simp [reel, Session.isUp, hp], hd⟩

theorem isUp_works {f : Pipeline → Pipeline} (hw : Works h f s s') :
    s'.reel.isUp = s.reel.isUp := by
  simp only [reel, Session.isUp, pipeline_of_wiring hw.wiring]

theorem strip_cleared (p : Pipeline) : p.cleared.strip = p.strip := by
  simp only [Pipeline.cleared]
  split <;> rfl

theorem strip_moved (volume : Double) (op : Transport) (p : Pipeline) :
    (p.moved volume op).strip = p.strip := by
  cases op <;> rfl

/-- A decoding setup takes the pipeline from the encoder, or changes nothing. -/
theorem step_setupWith (s : Stage) (d : Decoding) : Reel.Step s.reel [] (s.setupWith d).1.reel := by
  cases hl : s.session.live with
  | error e =>
      have hsame : (s.setupWith d).1 = s := by simp only [setupWith, changeLive, withLive, hl]
      rw [hsame]
      exact .rest _
  | ok h =>
      have hsession := session_setupWith hl d
      have hw : Works h (decoded d ∘ (·.cleared)) s (s.setupWith d).1 := by
        rw [setupWith_eq, changeLive, withLive_of_live hl]
        exact works_setupWith hl d
      have hstrip := strip_works (g := fun t =>
        { t with direction := if isUsable d.uri then some .decoding else t.direction })
        hw (live_eq_ok.mp hl).2 fun p => by
          rw [← strip_cleared p]
          simp only [Function.comp_apply, decoded]
          split <;> rfl
      obtain ⟨hu, hd⟩ := isUp_of_live hl
      have heq : (s.setupWith d).1.reel = s.reel.decoded (isUsable d.uri) :=
        Reel.ext (isUp_works hw) (congrArg Session.phase hsession)
          (congrArg (·.status.direction) hsession) (congrArg Session.encoding hsession) hstrip
      rw [heq]
      exact .decode s.reel hu hd (isUsable d.uri)

/-- On a live session an encoding setup of a size that has pictures always goes through. -/
theorem setupEncoding_of_live (hl : s.session.live = .ok h) {enc : Encoding}
    (he : enc.size.isEmpty = false) : s.setupEncoding enc = (encode h enc s, .ok ()) := by
  rw [setupEncoding_eq s he, changeLive, withLive_of_live hl]

/-- An encoder is set up, or nothing happens. -/
theorem setupEncoding_cases (s : Stage) (enc : Encoding) :
    (∃ e, e.isReturned = true ∧ s.setupEncoding enc = (s, .error e)) ∨
    ∃ h, s.session.live = .ok h ∧ enc.size.isEmpty = false ∧
      s.setupEncoding enc = (encode h enc s, .ok ()) := by
  by_cases he : enc.size.isEmpty = true
  · simp only [setupEncoding, he, if_true]
    exact .inl ⟨_, rfl, rfl⟩
  rw [Bool.not_eq_true] at he
  cases hl : s.session.live with
  | error e =>
      rw [setupEncoding_eq s he]
      exact .inl ⟨e, Session.returned_live hl, by simp only [changeLive, withLive, hl]⟩
  | ok h => exact .inr ⟨h, rfl, he, setupEncoding_of_live hl he⟩

theorem session_encode (h : Handle) (enc : Encoding) (s : Stage) : (encode h enc s).session =
    { s.session with
      status := ⟨.configured, some .encoding, false⟩
      encoding := some enc
      health := {}
      frames := {} } := by
  simp only [encode, session_resetStream, modify, onHost, session_closeMedia]

/-- An encoding setup starts a new strip. -/
theorem step_encode (hl : s.session.live = .ok h) {enc : Encoding}
    (he : enc.size.isEmpty = false) : Reel.Step s.reel [.anew] (encode h enc s).reel := by
  have hsession := session_encode h enc s
  have hw := works_encode hl enc
  have hstrip := strip_works (g := fun _ => { direction := some .encoding, encoding := some enc })
    hw (live_eq_ok.mp hl).2 fun p => rfl
  obtain ⟨hu, hd⟩ := isUp_of_live hl
  have heq : (encode h enc s).reel = s.reel.encoded enc :=
    Reel.ext (isUp_works hw) (congrArg Session.phase hsession)
      (congrArg (·.status.direction) hsession) (congrArg Session.encoding hsession) hstrip
  rw [heq]
  exact .encode s.reel hu hd he

/-- An operation fails, does not apply, or is carried out. -/
theorem transport_cases (s : Stage) (op : Transport) :
    (∃ e, s.session.live = .error e ∧ s.transport op = (s, .error e)) ∨
    (∃ h, s.session.live = .ok h ∧ s.session.phase.after op = none ∧
      s.transport op = (s, .ok false)) ∨
    ∃ h, s.session.live = .ok h ∧ s.session.phase.after op = some op.target ∧
      s.transport op =
        ((s.onHost (·.tell (transportCalls h s.session.config.playback.volume op))).setPhase
          op.target, .ok true) := by
  cases hl : s.session.live with
  | error e => exact .inl ⟨e, rfl, by simp only [transport, withLive, hl]⟩
  | ok h =>
      simp only [transport, withLive_of_live hl]
      cases ha : s.session.phase.after op with
      | none => exact .inr (.inl ⟨h, rfl, rfl, rfl⟩)
      | some next =>
          obtain rfl := Coupled.after_eq_target ha
          exact .inr (.inr ⟨h, rfl, rfl, rfl⟩)

/-- No transport call touches what was pushed. -/
theorem step_transport (s : Stage) (op : Transport) :
    Reel.Step s.reel [] (s.transport op).1.reel := by
  rcases transport_cases s op with ⟨e, -, hs⟩ | ⟨h, -, -, hs⟩ | ⟨h, hl, ha, hs⟩
  · rw [hs]
    exact .rest _
  · rw [hs]
    exact .rest _
  · rw [hs]
    have hw := works_tell (s := s) (h := h) _
      (alters_transportCalls h s.session.config.playback.volume op s.host.engine)
    have hstrip := strip_works (g := id) hw (live_eq_ok.mp hl).2 (strip_moved _ op)
    rw [Option.map_id] at hstrip
    have heq : ((s.onHost (·.tell (transportCalls h s.session.config.playback.volume
        op))).setPhase op.target).reel = { s.reel with phase := op.target } :=
      Reel.ext rfl rfl rfl rfl hstrip
    rw [heq]
    exact .move s.reel ha

theorem host_play (s : Stage) : s.play.1.host = (s.transport .play).1.host := by
  simp only [play]
  split
  · next heq =>
      rw [heq]
      rfl
  · next heq => rw [heq]
  · next heq => rw [heq]

/-- Playing is the transport call and nothing that a picture would notice. -/
theorem reel_play (s : Stage) : s.play.1.reel = (s.transport .play).1.reel := by
  simp only [play]
  split
  · next heq =>
      rw [heq]
      rfl
  · next heq => rw [heq]
  · next heq => rw [heq]

theorem step_play (s : Stage) : Reel.Step s.reel [] s.play.1.reel := by
  rw [reel_play]
  exact step_transport s .play

/-- A picture is handed over, or nothing happens. -/
theorem consume_cases (s : Stage) (data : Array UInt8) :
    (∃ e, s.consume data = (s, .error e)) ∨
    ∃ h enc, s.session.live = .ok h ∧ s.session.phase.isConfigured = true ∧
      s.session.status.direction = some .encoding ∧ s.session.encoding = some enc ∧
      data.size = enc.size.bytes ∧
      s.consume data = (s.onHost (·.tell (·.consume h.id data)), .ok ()) := by
  cases hl : s.session.live with
  | error e => exact .inl ⟨e, by simp only [consume, hl]⟩
  | ok h =>
      cases hr : refusal s.session data.size with
      | error e => exact .inl ⟨e, by simp only [consume, hl, hr]⟩
      | ok u =>
          simp only [refusal] at hr
          split at hr
          · cases hr
          · cases hr
          next hdir =>
          split at hr
          · cases hr
          next enc henc =>
          split at hr
          · cases hr
          next hconf =>
          obtain ⟨hsize, -⟩ := Size.check_eq_ok.mp hr
          refine .inr ⟨h, enc, rfl, by simpa using hconf, hdir, henc, hsize, ?_⟩
          have hr : refusal s.session data.size = .ok () := by
            simp only [refusal, hdir, henc, hconf]
            exact hr
          simp only [consume, hl, hr]

/-- A picture of the right size goes onto the strip. -/
theorem step_consumed (hl : s.session.live = .ok h) {enc : Encoding} {data : Array UInt8}
    (henc : s.session.encoding = some enc) (hsize : data.size = enc.size.bytes) :
    Reel.Step s.reel [.picture data] (s.onHost (·.tell (·.consume h.id data))).reel := by
  have hw := works_tell (s := s) (h := h) (·.consume h.id data) (Engine.alters_consume data)
  have hstrip := strip_works
    (g := fun t => { t with consumed := t.consumed + 1, last := some data })
    hw (live_eq_ok.mp hl).2 fun p => rfl
  have heq : (s.onHost (·.tell (·.consume h.id data))).reel = s.reel.fed data :=
    Reel.ext rfl rfl rfl rfl hstrip
  rw [heq]
  exact .picture s.reel henc hsize

/-- A session that is down has no strip, whatever becomes of its host. -/
theorem reel_of_down (hp : s.session.pipeline = none) (hs : s'.session = s.session) :
    s'.reel = s.reel := by
  simp only [reel, hs, hp, Option.bind_none]

/-- A new pipeline has no strip yet. -/
theorem step_bringUp (ha : Books.Attached s.host.ledger s.index s.session.wiring)
    (hd : s.reel.isUp = false → s.reel.phase = .unloaded ∨ s.reel.phase = .destroyed) :
    Reel.Step s.reel [] s.bringUp.1.reel := by
  by_cases hdes : s.session.phase.isDestroyed = true
  · simp only [bringUp, hdes, if_true]
    exact .rest _
  by_cases hl : s.session.lease.isSome = true
  · simp only [bringUp, hdes, hl, if_true]
    exact .rest _
  rw [Bool.not_eq_true] at hdes hl
  have hnone : s.session.pipeline = none := congrArg Wiring.pipeline (wiring_of_lease ha hl)
  have hph : s.reel.phase = .unloaded := by
    refine (hd (by simp [reel, Session.isUp, hnone])).resolve_right fun hp => ?_
    rw [show s.session.phase = .destroyed from hp] at hdes
    cases hdes
  by_cases hact : s.host.addRef.context.isActive = true
  · rcases hc : s.bound.engine.create s.session.name .all s.host.addRef.arena.next with
      ⟨e, _ | id⟩
    · have hsame : s.bringUp.1.session = s.session := by rw [bringUp_refused hdes hl hact hc]
      rw [reel_of_down hnone hsame]
      exact .rest _
    · rw [bringUp_made hdes hl hact hc]
      obtain ⟨hid, hp⟩ := pipelines_create hc
      have heq : Stage.reel { s with
            session :=
              { s.session with
                pipeline := some ⟨s.session.name, id⟩
                status := {}
                lease := some {}
                token := some s.host.addRef.arena.next }
            host := s.bound.setEngine e } =
          { s.reel with isUp := true, direction := none, strip := some {} } := by
        refine Reel.ext rfl hph.symm rfl rfl ?_
        change (e.pipelines.get? id).map _ = _
        rw [hid, hp, Table.get?_set, if_pos rfl]
        rfl
      rw [heq]
      exact .bringUp s.reel hph
  · have hsame : s.bringUp.1.session = s.session := by
      rw [bringUp_inactive hdes hl (by simpa using hact)]
    rw [reel_of_down hnone hsame]
    exact .rest _

/-- A session that is destroyed loses its pipeline, and its strip with it. -/
theorem step_destroy (ha : Books.Attached s.host.ledger s.index s.session.wiring)
    (hc : s.Coupled) : Reel.Step s.reel [] s.destroy.reel := by
  by_cases hd : s.session.phase.isDestroyed = true
  · simp only [destroy, hd, if_true]
    exact .rest _
  rw [Bool.not_eq_true] at hd
  have hw := (destroys_destroy ha hc).wiring
  have hp : s.destroy.session.pipeline = none := congrArg Wiring.pipeline hw
  have hph : s.destroy.session.phase = .destroyed := by
    have hdes : s.destroy.session.phase.isDestroyed = true := congrArg Wiring.destroyed hw
    exact of_decide_eq_true hdes
  have heq : s.destroy.reel =
      ⟨false, .destroyed, s.destroy.session.status.direction, s.destroy.session.encoding, none⟩ :=
    Reel.ext (by simp [reel, Session.isUp, hp]) hph rfl rfl (by simp [reel, hp])
  rw [heq]
  exact .destroy s.reel hd _ _

end Stage

/-! ### Every command -/

namespace Command

/-- What a command has for the encoder. -/
def offers (c : Command) (x : Session) : List Feed :=
  match c with
  | .setupEncoding _ => [.anew]
  | .consume data => [.picture data]
  | .consumeSized size data =>
      (if x.encoding.any (·.size ≠ size) then [.anew] else []) ++ [.picture data]
  | _ => []

/-- What the encoder is fed by a command, which has to succeed for that. -/
def feeds (c : Command) (s : Stage) : List Feed :=
  if (c.exec s).2.isOk then c.offers s.session else []

/-- The command makes no more than one change of its own. -/
def isSingle (c : Command) (s : Stage) : Bool :=
  match c with
  | .close => !s.session.phase.isActive
  | .start | .consumeSized .. => false
  | _ => true

end Command

namespace Stage
variable {s s' : Stage} {h : Handle}

/-- A command that fails feeds nothing. -/
theorem feeds_of_error {c : Command} {e : Error} (he : (c.exec s).2 = .error e) :
    c.feeds s = [] := by
  simp [Command.feeds, he, Except.isOk, Except.toBool]

theorem feeds_of_ok {c : Command} (hok : (c.exec s).2 = .ok ()) :
    c.feeds s = c.offers s.session := by
  simp [Command.feeds, hok, Except.isOk, Except.toBool]

/-- Most commands have nothing for the encoder. -/
theorem feeds_of_offers {c : Command} (hc : c.offers s.session = []) : c.feeds s = [] := by
  simp [Command.feeds, hc]

/-- A command that leaves the media alone. -/
theorem step_of_reel {c : Command} (hc : c.offers s.session = [])
    (hs : (c.exec s).1.reel = s.reel) : Reel.Step s.reel (c.feeds s) (c.exec s).1.reel := by
  rw [feeds_of_offers hc, hs]
  exact .rest _

/-- Refused or not, an encoding setup is one step. -/
theorem step_setupEncoding (s : Stage) (enc : Encoding) :
    Reel.Step s.reel ((Command.setupEncoding enc).feeds s) (s.setupEncoding enc).1.reel := by
  rcases setupEncoding_cases s enc with ⟨e, -, he⟩ | ⟨h, hl, hempty, hs⟩
  · rw [feeds_of_error (c := .setupEncoding enc) (congrArg Prod.snd he), he]
    exact .rest _
  · rw [feeds_of_ok (c := .setupEncoding enc) (congrArg Prod.snd hs), hs]
    exact step_encode hl hempty

/-- Refused or not, a pushed picture is one step. -/
theorem step_consume (s : Stage) (data : Array UInt8) :
    Reel.Step s.reel ((Command.consume data).feeds s) (s.consume data).1.reel := by
  rcases consume_cases s data with ⟨e, he⟩ | ⟨h, enc, hl, -, -, henc, hsize, hs⟩
  · rw [feeds_of_error (c := .consume data) (congrArg Prod.snd he), he]
    exact .rest _
  · rw [feeds_of_ok (c := .consume data) (congrArg Prod.snd hs), hs]
    exact step_consumed hl henc hsize

/-- Without an active phase there is nothing to stop before the close. -/
theorem close_of_idle (ha : s.session.phase.isActive = false) :
    s.close = done (s.transport .close) := by
  simp only [close, ha]
  rfl

/-- Every command that makes one change at most, one by one. -/
theorem step_exec (ha : Books.Attached s.host.ledger s.index s.session.wiring) (hc : s.Coupled)
    (hd : s.reel.isUp = false → s.reel.phase = .unloaded ∨ s.reel.phase = .destroyed)
    {c : Command} (hsingle : c.isSingle s = true) :
    Reel.Step s.reel (c.feeds s) (c.exec s).1.reel := by
  have hstep : c.offers s.session = [] → Reel.Step s.reel [] (c.exec s).1.reel →
      Reel.Step s.reel (c.feeds s) (c.exec s).1.reel :=
    fun hn hs => (feeds_of_offers hn).symm ▸ hs
  cases c with
  | share queue => exact step_of_reel rfl (reel_share queue)
  | bringUp => exact hstep rfl (step_bringUp ha hd)
  | setup uri video audio => exact hstep rfl (step_setupWith s _)
  | setupWith d => exact hstep rfl (step_setupWith s d)
  | setupEncoding enc => exact step_setupEncoding s enc
  | play => exact hstep rfl (step_play s)
  | pause => exact hstep rfl (step_transport s .pause)
  | stop => exact hstep rfl (step_transport s .stop)
  | close =>
      refine hstep rfl ?_
      change Reel.Step s.reel [] s.close.1.reel
      rw [close_of_idle (by simpa [Command.isSingle] using hsingle)]
      exact step_transport s .close
  | start => cases hsingle
  | consume data => exact step_consume s data
  | consumeSized size data => cases hsingle
  | duration => exact step_of_reel rfl (reel_query (f := Engine.durationOf) fun _ _ => rfl)
  | position => exact step_of_reel rfl (reel_query (f := Engine.positionOf) fun _ _ => rfl)
  | isPlaying => exact step_of_reel rfl (reading_orFalse (reel_query fun _ _ => rfl))
  | isLoaded => exact step_of_reel rfl (reading_orFalse (reel_query fun _ _ => rfl))
  | setPosition seconds =>
      exact step_of_reel rfl (reading_withLive fun h _ =>
        reel_tell (Engine.alters_setPosition seconds) fun _ => rfl)
  | setBaseTime time =>
      exact step_of_reel rfl (reading_withLive fun h _ =>
        reel_tell (Engine.alters_setBaseTime time) fun _ => rfl)
  | setVolume volume =>
      exact step_of_reel rfl (reading_withLive fun h _ =>
        reel_tell (g := (h.setVolume · _)) (Engine.alters_setVolume _) fun _ => rfl)
  | setBitrateLimit limit => exact step_of_reel rfl (reel_setBitrateLimit limit)
  | setLooping looping => exact step_of_reel rfl rfl
  | observe topic label program => exact step_of_reel rfl rfl
  | destroy => exact hstep rfl (step_destroy ha hc)

end Stage
end MediaHost
