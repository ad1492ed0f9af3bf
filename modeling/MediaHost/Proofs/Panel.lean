import MediaHost.Proofs.Parts
import MediaHost.Proofs.Tick

/-!
# Proofs — Panel

The settings that a session keeps and its pipeline has too (`Panel`): the volume and the base time,
which the engine takes, and whether media loops, which the session has as configured and as it goes
by.  A command moves them in steps (`Panel.Step`, `Stage.panel_exec`), and some steps bring the
volume or the base time to the engine.  From then on the engine has what the session is configured
for (`Panel.Course.shows`), and media that is being decoded goes by the configured loop
(`Panel.Course.fits`).
-/

namespace MediaHost

/-- The settings of a session that the engine has for its pipeline. -/
@[ext]
structure Dials where
  volume : Double
  baseTime : UInt64
deriving DecidableEq

/-- The settings as the pipeline has them. -/
def Pipeline.dials (p : Pipeline) : Dials where
  volume := p.volume
  baseTime := p.baseTime

/-- The settings of a session and those of its pipeline. -/
@[ext]
structure Panel where
  isUp : Bool
  destroyed : Bool
  direction : Option Direction
  /-- As the session goes by. -/
  looping : Bool
  /-- As configured. -/
  loops : Bool
  volume : Double
  baseTime : UInt64
  /-- As the engine has them for the session's pipeline. -/
  dials : Option Dials

def Host.dialsOf (a : Host) (h : Handle) : Option Dials :=
  (a.engine.pipelines.get? h.id).map (·.dials)

/-- The settings of both sides, and whether there is media to apply them to. -/
def Stage.panel (s : Stage) : Panel where
  isUp := s.session.isUp
  destroyed := s.session.phase.isDestroyed
  direction := s.session.status.direction
  looping := s.session.status.looping
  loops := s.session.config.playback.looping
  volume := s.session.config.playback.volume
  baseTime := s.session.config.synchronization.baseTime
  dials := s.session.pipeline.bind s.host.dialsOf

/-- What is brought to the engine: the volume, the base time. -/
structure Brought where
  volume : Bool := false
  baseTime : Bool := false
deriving DecidableEq

/-- What one step or the next brings. -/
def Brought.also (b c : Brought) : Brought where
  volume := b.volume || c.volume
  baseTime := b.baseTime || c.baseTime

@[simp] theorem Brought.also_nothing (b : Brought) : b.also {} = b := by simp [also]

theorem Brought.also_assoc (b c d : Brought) : (b.also c).also d = b.also (c.also d) := by
  simp [also, Bool.or_assoc]

namespace Panel
variable {r r₁ r' : Panel} {b c : Brought} {free : Bool}

/-- Media to decode is set up; the engine may never see a text that it would not take. -/
def decoded (r : Panel) (seen : Bool) (time : UInt64) : Panel :=
  { r with
    direction := some .decoding
    looping := r.loops
    dials := r.dials.map fun x => { x with baseTime := if seen then time else x.baseTime } }

/-- One step of the settings, with what it brings to the engine.  Media that is free to may come
with a base time of its own. -/
inductive Step (free : Bool) : Panel → Brought → Panel → Prop
  | rest (r : Panel) : Step free r {} r
  | bringUp (r : Panel) (hu : r.isUp = false) (hd : r.destroyed = false) :
      Step free r {}
        { r with
          isUp := true, direction := none, looping := false, dials := some ⟨Double.one, 0⟩ }
  | decode (r : Panel) (hu : r.isUp = true) (seen : Bool) (time : UInt64)
      (h : free = false → time = r.baseTime) :
      Step free r { baseTime := seen } (r.decoded seen time)
  | encode (r : Panel) (hu : r.isUp = true) :
      Step free r {} { r with direction := some .encoding, looping := false }
  | play (r : Panel) (hu : r.isUp = true) :
      Step free r { volume := true }
        { r with dials := r.dials.map fun x => { x with volume := Double.toUnit r.volume .zero } }
  | setVolume (r : Panel) (hu : r.isUp = true) (volume : Double) :
      Step free r { volume := true }
        { r with
          volume := volume
          dials := r.dials.map fun x => { x with volume := Double.toUnit volume .zero } }
  | setBaseTime (r : Panel) (hu : r.isUp = true) (time : UInt64) :
      Step free r { baseTime := true }
        { r with
          baseTime := time
          dials := r.dials.map fun x => { x with baseTime := time } }
  | setLooping (r : Panel) (looping : Bool) :
      Step free r {} { r with looping := looping, loops := looping }
  /-- What the session remembers of its media is of no use any more. -/
  | destroy (r r' : Panel) (hu : r'.isUp = false) (hd : r'.destroyed = true)
      (hn : r'.dials = none) : Step free r {} r'

/-- Any number of steps. -/
inductive Course (free : Bool) : Panel → Brought → Panel → Prop
  | refl (r : Panel) : Course free r {} r
  | more {r r₁ r' : Panel} {b c : Brought} (h : Step free r b r₁) (t : Course free r₁ c r') :
      Course free r (b.also c) r'

theorem Course.one (h : Step free r b r') : Course free r b r' := by
  have ht := Course.more h (.refl r')
  rwa [Brought.also_nothing] at ht

/-- The engine has what the session is configured for, as far as it was brought there. -/
structure Shows (r : Panel) (b : Brought) : Prop where
  down : r.isUp = false → r.destroyed = true ∨ b = {}
  volume : b.volume = true → ∀ x, r.dials = some x → x.volume = Double.toUnit r.volume .zero
  baseTime : b.baseTime = true → ∀ x, r.dials = some x → x.baseTime = r.baseTime

/-- Nothing was brought to the engine yet. -/
theorem Shows.nothing (r : Panel) : r.Shows {} := ⟨fun _ => .inr rfl, nofun, nofun⟩

/-- The volume is set on both sides. -/
theorem Shows.setVolume (hr : r.Shows b) (hu : r.isUp = true) (volume : Double) :
    Shows
      { r with
        volume := volume
        dials := r.dials.map fun x => { x with volume := Double.toUnit volume .zero } }
      (b.also { volume := true }) := by
  refine ⟨fun hn => (nomatch hu.symm.trans hn), fun _ x hx => ?_, fun hb x hx => ?_⟩
  · obtain ⟨y, -, rfl⟩ := Option.map_eq_some_iff.mp hx
    rfl
  · obtain ⟨y, hy, rfl⟩ := Option.map_eq_some_iff.mp hx
    exact hr.baseTime (by simpa [Brought.also] using hb) y hy

/-- A step shows what it brings, and what was shown before. -/
theorem Step.shows (h : Step false r c r') (hr : r.Shows b) : r'.Shows (b.also c) := by
  cases h with
  | rest => exact (Brought.also_nothing b).symm ▸ hr
  | bringUp hu hd =>
      rcases hr.down hu with hdes | rfl
      · cases hd.symm.trans hdes
      · exact .nothing _
  | decode hu seen time ht =>
      obtain rfl := ht rfl
      refine ⟨fun hn => (nomatch hu.symm.trans hn), fun hv x hx => ?_, fun hb x hx => ?_⟩
      · obtain ⟨y, hy, rfl⟩ := Option.map_eq_some_iff.mp hx
        exact hr.volume (by simpa [Brought.also] using hv) y hy
      · obtain ⟨y, hy, rfl⟩ := Option.map_eq_some_iff.mp hx
        cases seen with
        | true => rfl
        | false => exact hr.baseTime (by simpa [Brought.also] using hb) y hy
  | encode hu =>
      rw [Brought.also_nothing]
      exact ⟨fun hn => (nomatch hu.symm.trans hn), hr.volume, hr.baseTime⟩
  | play hu => exact hr.setVolume hu r.volume
  | setVolume hu volume => exact hr.setVolume hu volume
  | setBaseTime hu time =>
      refine ⟨fun hn => (nomatch hu.symm.trans hn), fun hv x hx => ?_, fun _ x hx => ?_⟩
      · obtain ⟨y, hy, rfl⟩ := Option.map_eq_some_iff.mp hx
        exact hr.volume (by simpa [Brought.also] using hv) y hy
      · obtain ⟨y, -, rfl⟩ := Option.map_eq_some_iff.mp hx
        rfl
  | setLooping looping =>
      rw [Brought.also_nothing]
      exact ⟨hr.down, hr.volume, hr.baseTime⟩
  | destroy _ hu hd hn =>
      exact ⟨fun _ => .inl hd, fun _ x hx => (nomatch hn.symm.trans hx),
        fun _ x hx => (nomatch hn.symm.trans hx)⟩

/-- So does a course. -/
theorem Course.shows (h : Course false r c r') : ∀ {b}, r.Shows b → r'.Shows (b.also c) := by
  induction h with
  | refl => exact fun hr => (Brought.also_nothing _).symm ▸ hr
  | more h _ ih => exact fun hr => Brought.also_assoc _ _ _ ▸ ih (h.shows hr)

/-- Media that is being decoded goes by the configured loop. -/
def Fits (r : Panel) : Prop :=
  r.destroyed = false → r.direction = some .decoding → r.looping = r.loops

/-- Media that is being decoded goes by the configured loop after every step. -/
theorem Step.fits (h : Step free r b r') (hr : r.Fits) : r'.Fits := by
  cases h with
  | rest => exact hr
  | bringUp | encode => exact fun _ hdir => nomatch hdir
  | decode | setLooping => exact fun _ _ => rfl
  | play | setVolume | setBaseTime => exact hr
  | destroy _ hu hd hn => exact fun hl => nomatch hd.symm.trans hl

theorem Course.fits (h : Course free r b r') (hr : r.Fits) : r'.Fits := by
  induction h with
  | refl => exact hr
  | more h _ ih => exact ih (h.fits hr)

end Panel

/-! ### Commands that leave the settings alone -/

theorem Host.dialsOf_pipelines {a b : Host} (hp : b.engine.pipelines = a.engine.pipelines)
    (h : Handle) : b.dialsOf h = a.dialsOf h := by
  simp only [dialsOf, hp]

/-- A pipeline that was changed, seen through its settings. -/
theorem Host.dialsOf_alters {a b : Host} {k : Nat} {f : Pipeline → Pipeline} {g : Dials → Dials}
    (ha : Alters k f a b) (hf : ∀ p, (f p).dials = g p.dials) (h : Handle) :
    b.dialsOf h = if k = h.id then (a.dialsOf h).map g else a.dialsOf h :=
  ha.reading hf h.id

theorem Host.dialsOf_kept {a b : Host} {k : Nat} {f : Pipeline → Pipeline} (ha : Alters k f a b)
    (hf : ∀ p, (f p).dials = p.dials) (h : Handle) : b.dialsOf h = a.dialsOf h :=
  ha.kept hf h.id

/-! ### What a command brings -/

namespace Command

/-- What a command brings to the engine with the one change that it makes. -/
def effect (c : Command) (s : Stage) : Brought :=
  match c with
  | .play => { volume := (s.transport .play).2.toOption == some true }
  | .setVolume _ => { volume := (c.exec s).2.isOk }
  | .setup uri .. => { baseTime := (c.exec s).2.isOk && Stage.isUsable uri }
  | .setupWith d => { baseTime := (c.exec s).2.isOk && Stage.isUsable d.uri }
  | .setBaseTime _ => { baseTime := (c.exec s).2.isOk }
  | _ => {}

/-- What commands bring to the engine one after another, as long as they succeed. -/
def effects : List Command → Stage → Brought
  | [], _ => {}
  | c :: cs, s =>
    (c.effect s).also <|
      match (c.exec s).2 with
      | .ok () => effects cs (c.exec s).1
      | .error _ => {}

/-- What a command brings to the engine: the volume with every play that goes through and every
volume that is set, the base time with every setup of media that the engine sees and every base time
that is set. -/
def brings (c : Command) (s : Stage) : Brought := effects (c.parts s) s

/-- The command makes one change at most, to a pipeline that is there and stays. -/
def isUse : Command → Bool
  | .bringUp | .close | .start | .consumeSized .. | .destroy => false
  | _ => true

theorem effects_one (c : Command) (s : Stage) : effects [c] s = c.effect s := by
  simp only [effects]
  split <;> exact Brought.also_nothing _

/-- A command that is one step brings its effect. -/
theorem brings_of_isSingle {c : Command} {s : Stage} (h : c.isSingle s = true) :
    c.brings s = c.effect s := by
  rw [brings, parts_of_isSingle h, effects_one]

theorem isSingle_of_isUse {c : Command} (s : Stage) (h : c.isUse = true) :
    c.isSingle s = true := by
  cases c <;> first | rfl | cases h

end Command

namespace Stage
variable {s s' : Stage} {h : Handle} {free : Bool}

/-- A panel depends on the session's pipeline, status, configuration and settings. -/
theorem panel_congr (hp : s'.session.pipeline = s.session.pipeline)
    (hst : s'.session.status = s.session.status) (hcf : s'.session.config = s.session.config)
    (hd : ∀ h, s.session.pipeline = some h → s'.host.dialsOf h = s.host.dialsOf h) :
    s'.panel = s.panel := by
  simp only [panel, Session.isUp, Session.phase, hp, hst, hcf]
  cases hpipe : s.session.pipeline with
  | none => rfl
  | some h => rw [Option.bind_some, Option.bind_some, hd h hpipe]

theorem panel_onHost {f : Host → Host} (hf : ∀ h, (f s.host).dialsOf h = s.host.dialsOf h) :
    (s.onHost f).panel = s.panel := panel_congr rfl rfl rfl fun h _ => hf h

/-- The engine is told something that is no setting. -/
theorem panel_tell {g : Engine → Engine} {k : Nat} {f : Pipeline → Pipeline}
    (ha : Engine.Alters k f s.host.engine (g s.host.engine))
    (hf : ∀ p, (f p).dials = p.dials) : (s.onHost (·.tell g)).panel = s.panel :=
  panel_onHost (Host.dialsOf_kept (Host.alters_tell ha) hf)

/-- A question leaves all settings. -/
theorem panel_query {α : Type} {f : Engine → Nat → Engine × α}
    (hf : ∀ e k, (f e k).1.pipelines = e.pipelines) : (s.query f).1.panel = s.panel :=
  reading_withLive fun h _ => panel_onHost (Host.dialsOf_pipelines (hf s.host.engine h.id))

theorem panel_share (queue : Nat) : (s.share queue).panel = s.panel := by
  simp only [share]
  split
  · exact panel_onHost fun _ => rfl
  · rfl

theorem panel_setBitrateLimit (limit : Single) : (s.setBitrateLimit limit).1.panel = s.panel := by
  refine reading_withLive fun h _ => ?_
  dsimp only
  split
  · exact panel_tell (g := (h.setBitrateLimit · _)) (Engine.alters_setBitrateLimit _) fun _ => rfl
  · rfl

theorem panel_consume (s : Stage) (data : Array UInt8) : (s.consume data).1.panel = s.panel := by
  rcases consume_cases s data with ⟨e, he⟩ | ⟨h, -, -, -, -, -, -, hs⟩
  · rw [he]
  · rw [hs]
    exact panel_tell (Engine.alters_consume data) fun _ => rfl

/-! ### Commands that move them -/

/-- Work on the session's own pipeline, which keeps what the session is configured for. -/
theorem panel_works {f : Pipeline → Pipeline} {g : Dials → Dials} (hw : Works h f s s')
    (hp : s.session.pipeline = some h) (hf : ∀ p, (f p).dials = g p.dials) :
    s'.panel =
      { s.panel with
        direction := s'.session.status.direction
        looping := s'.session.status.looping
        loops := s'.session.config.playback.looping
        volume := s'.session.config.playback.volume
        baseTime := s'.session.config.synchronization.baseTime
        dials := s.panel.dials.map g } := by
  refine Panel.ext ?_ (congrArg Wiring.destroyed hw.wiring) rfl rfl rfl rfl rfl ?_
  · simp only [panel, Session.isUp, pipeline_of_wiring hw.wiring]
  · simp only [panel, pipeline_of_wiring hw.wiring, hp, Option.bind_some]
    rw [Host.dialsOf_alters hw.host hf, if_pos rfl]

/-- A session with a pipeline is up. -/
theorem panel_of_live (hl : s.session.live = .ok h) : s.panel.isUp = true := by
  simp [panel, Session.isUp, (live_eq_ok.mp hl).2]

theorem dials_cleared (p : Pipeline) : p.cleared.dials = p.dials := by
  simp only [Pipeline.cleared]
  split <;> rfl

/-- A change of the session that works on its live pipeline; without one nothing happens. -/
theorem changeLive_cases (s : Stage) (f : Handle → Stage → Stage) :
    (∃ e, s.changeLive f = (s, .error e)) ∨
    ∃ h, s.session.live = .ok h ∧ s.changeLive f = (f h s, .ok ()) := by
  cases hl : s.session.live with
  | error e => exact .inl ⟨e, by simp only [changeLive, withLive, hl]⟩
  | ok h => exact .inr ⟨h, rfl, by rw [changeLive, withLive_of_live hl]⟩

/-- A setup to decode brings the base time, if the engine takes the media. -/
theorem panel_setupWith (s : Stage) (d : Decoding)
    (hfree : free = false → d.baseTime = s.session.config.synchronization.baseTime) :
    Panel.Step free s.panel { baseTime := (s.setupWith d).2.isOk && isUsable d.uri }
      (s.setupWith d).1.panel := by
  rcases changeLive_cases s fun h s => report d (decode h d (closeMedia h s)) with
    ⟨e, he⟩ | ⟨h, hl, hs⟩
  · rw [setupWith_eq, he]
    exact .rest _
  · have hsession := session_setupWith hl d
    rw [setupWith_eq, hs] at hsession ⊢
    have hpanel := panel_works
      (g := fun x => { x with baseTime := if isUsable d.uri then d.baseTime else x.baseTime })
      (works_setupWith hl d) (live_eq_ok.mp hl).2 fun p => by
        rw [← dials_cleared p]
        simp only [Function.comp_apply, decoded]
        split <;> rfl
    rw [hpanel, hsession]
    exact .decode s.panel (panel_of_live hl) (isUsable d.uri) d.baseTime hfree

/-- A setup to encode brings no setting. -/
theorem panel_setupEncoding (s : Stage) (enc : Encoding) :
    Panel.Step free s.panel {} (s.setupEncoding enc).1.panel := by
  rcases setupEncoding_cases s enc with ⟨e, -, he⟩ | ⟨h, hl, -, hs⟩
  · rw [he]
    exact .rest _
  · have hpanel := panel_works (g := id) (works_encode hl enc) (live_eq_ok.mp hl).2 fun p => by
      rw [← dials_cleared p]
      rfl
    rw [session_encode, Option.map_id] at hpanel
    rw [hs, hpanel]
    exact .encode s.panel (panel_of_live hl)

/-- A pause, a stop and a close leave the settings alone. -/
theorem panel_transport (s : Stage) (op : Transport) (hop : op ≠ .play) :
    (s.transport op).1.panel = s.panel := by
  rcases transport_cases s op with ⟨e, -, hs⟩ | ⟨h, -, -, hs⟩ | ⟨h, hl, ha, hs⟩
  · rw [hs]
  · rw [hs]
  · have hw := (keeps_transport s op).wiring
    have ht := works_tell (s := s) (h := h) _
      (alters_transportCalls h s.session.config.playback.volume op s.host.engine)
    rw [hs] at hw ⊢
    refine Panel.ext rfl (congrArg Wiring.destroyed hw) rfl rfl rfl rfl rfl ?_
    refine congrArg s.session.pipeline.bind (funext fun g => ?_)
    refine Host.dialsOf_kept ht.host (fun p => ?_) g
    cases op with
    | play => exact absurd rfl hop
    | pause | stop | close => rfl

/-- Playing brings the volume. -/
theorem panel_play (s : Stage) :
    Panel.Step free s.panel { volume := (s.transport .play).2.toOption == some true }
      s.play.1.panel := by
  have hplay : s.play.1.panel = (s.transport .play).1.panel := by
    simp only [play]
    split
    · next heq =>
        rw [heq]
        rfl
    · next heq => rw [heq]
    · next heq => rw [heq]
  rw [hplay]
  rcases transport_cases s .play with ⟨e, -, hs⟩ | ⟨h, -, -, hs⟩ | ⟨h, hl, ha, hs⟩
  · rw [hs]
    exact .rest _
  · rw [hs]
    exact .rest _
  · have ht := works_tell (s := s) (h := h) _
      (alters_transportCalls h s.session.config.playback.volume .play s.host.engine)
    have hphase := (live_eq_ok.mp hl).1
    have hm := ht.thenSame (same_setPhase (p := Transport.play.target) hphase rfl)
    have hpanel := panel_works
      (g := fun x => { x with volume := Double.toUnit s.session.config.playback.volume .zero })
      hm (live_eq_ok.mp hl).2 fun p => rfl
    rw [hs, hpanel]
    exact .play s.panel (panel_of_live hl)

/-- A volume that is set is brought at once. -/
theorem panel_setVolume (s : Stage) (volume : Double) :
    Panel.Step free s.panel { volume := (s.setVolume volume).2.isOk }
      (s.setVolume volume).1.panel := by
  rcases changeLive_cases s fun h s =>
    (s.onHost (·.tell (h.setVolume · (Double.toUnit volume .zero)))).configure
      fun p => { p with volume := Double.toUnit volume .zero } with ⟨e, he⟩ | ⟨h, hl, hs⟩
  · rw [setVolume, he]
    exact .rest _
  · have ht := works_tell (s := s) (h := h) (h.setVolume · (Double.toUnit volume .zero))
      (Engine.alters_setVolume _)
    have hm := ht.thenSame (same_modify (f := fun x => { x with config := { x.config with
      playback := { x.config.playback with volume := Double.toUnit volume .zero } } }) rfl)
    have hpanel := panel_works
      (g := fun x => { x with volume := Double.toUnit (Double.toUnit volume .zero) .zero })
      hm (live_eq_ok.mp hl).2 fun p => rfl
    rw [setVolume, hs]
    exact hpanel ▸ .setVolume s.panel (panel_of_live hl) (Double.toUnit volume .zero)

/-- So is a base time. -/
theorem panel_setBaseTime (s : Stage) (time : UInt64) :
    Panel.Step free s.panel { baseTime := (s.setBaseTime time).2.isOk }
      (s.setBaseTime time).1.panel := by
  rcases changeLive_cases s fun h s =>
    (s.onHost (·.tell (·.setBaseTime h.id time))).modify fun x =>
      { x with
        config := { x.config with
          synchronization := { x.config.synchronization with baseTime := time } } } with
    ⟨e, he⟩ | ⟨h, hl, hs⟩
  · rw [setBaseTime, he]
    exact .rest _
  · have ht := works_tell (s := s) (h := h) (·.setBaseTime h.id time)
      (Engine.alters_setBaseTime time)
    have hm := ht.thenSame (same_modify (f := fun x => { x with config := { x.config with
      synchronization := { x.config.synchronization with baseTime := time } } }) rfl)
    have hpanel := panel_works (g := fun x => { x with baseTime := time })
      hm (live_eq_ok.mp hl).2 fun p => rfl
    rw [setBaseTime, hs]
    exact hpanel ▸ .setBaseTime s.panel (panel_of_live hl) time

/-- A new pipeline has seen no setting. -/
theorem panel_bringUp (ha : Books.Attached s.host.ledger s.index s.session.wiring) :
    Panel.Step free s.panel {} s.bringUp.1.panel := by
  by_cases hdes : s.session.phase.isDestroyed = true
  · simp only [bringUp, hdes, if_true]
    exact .rest _
  by_cases hl : s.session.lease.isSome = true
  · simp only [bringUp, hdes, hl, if_true]
    exact .rest _
  rw [Bool.not_eq_true] at hdes hl
  have hnone : s.session.pipeline = none := congrArg Wiring.pipeline (wiring_of_lease ha hl)
  have hu : s.panel.isUp = false := by simp [panel, Session.isUp, hnone]
  have hdown : ∀ x : Stage, x.session = s.session → x.panel = s.panel := fun x hx => by
    simp only [panel, hx, hnone, Option.bind_none]
  by_cases hact : s.host.addRef.context.isActive = true
  · rcases hc : s.bound.engine.create s.session.name .all s.host.addRef.arena.next with
      ⟨e, _ | id⟩
    · have hsame : s.bringUp.1.session = s.session := by rw [bringUp_refused hdes hl hact hc]
      rw [hdown _ hsame]
      exact .rest _
    · rw [bringUp_made hdes hl hact hc]
      obtain ⟨hid, hp⟩ := pipelines_create hc
      have heq : Stage.panel { s with
            session :=
              { s.session with
                pipeline := some ⟨s.session.name, id⟩
                status := {}
                lease := some {}
                token := some s.host.addRef.arena.next }
            host := s.bound.setEngine e } =
          { s.panel with
            isUp := true, direction := none, looping := false, dials := some ⟨Double.one, 0⟩ } := by
        refine Panel.ext rfl hdes.symm rfl rfl rfl rfl rfl ?_
        change (e.pipelines.get? id).map _ = _
        rw [hid, hp, Table.get?_set, if_pos rfl]
        rfl
      rw [heq]
      exact .bringUp s.panel hu hdes
  · have hsame : s.bringUp.1.session = s.session := by
      rw [bringUp_inactive hdes hl (by simpa using hact)]
    rw [hdown _ hsame]
    exact .rest _

/-- A destroyed one shows none. -/
theorem panel_destroy (ha : Books.Attached s.host.ledger s.index s.session.wiring)
    (hc : s.Coupled) : Panel.Step free s.panel {} s.destroy.panel := by
  by_cases hd : s.session.phase.isDestroyed = true
  · simp only [destroy, hd, if_true]
    exact .rest _
  have hw := (destroys_destroy ha hc).wiring
  have hp : s.destroy.session.pipeline = none := congrArg Wiring.pipeline hw
  refine .destroy _ _ ?_ (congrArg Wiring.destroyed hw) ?_ <;> simp [panel, Session.isUp, hp]

theorem panel_close (s : Stage) : s.close.1.panel = s.panel := by
  have hop : ∀ x : Stage, (done (x.transport .close)).1.panel = x.panel :=
    fun x => panel_transport x .close (by simp)
  simp only [close]
  split
  · have hstop := panel_transport s .stop (by simp)
    split
    · next heq =>
        rw [heq] at hstop
        exact (hop _).trans hstop
    · next heq => rwa [heq] at hstop
  · exact hop s

/-! ### Every command -/

/-- Every command that makes one change at most to a pipeline that is there, one by one. -/
theorem panel_use {c : Command} (hc : c.isUse = true)
    (hfree : free = false → ∀ d, c ≠ .setupWith d) :
    Panel.Step free s.panel (c.effect s) (c.exec s).1.panel := by
  have hsame : ∀ {x : Stage}, x.panel = s.panel → Panel.Step free s.panel {} x.panel :=
    fun hx => hx.symm ▸ .rest _
  cases c with
  | share queue => exact hsame (panel_share queue)
  | setup uri video audio => exact panel_setupWith s _ fun _ => rfl
  | setupWith d => exact panel_setupWith s d fun hf => absurd rfl (hfree hf d)
  | setupEncoding enc => exact panel_setupEncoding s enc
  | play => exact panel_play s
  | pause => exact hsame (panel_transport s .pause (by simp))
  | stop => exact hsame (panel_transport s .stop (by simp))
  | consume data => exact hsame (panel_consume s data)
  | duration => exact hsame (panel_query (f := Engine.durationOf) fun _ _ => rfl)
  | position => exact hsame (panel_query (f := Engine.positionOf) fun _ _ => rfl)
  | isPlaying => exact hsame (reading_orFalse (panel_query fun _ _ => rfl))
  | isLoaded => exact hsame (reading_orFalse (panel_query fun _ _ => rfl))
  | setPosition seconds =>
      exact hsame (reading_withLive fun h _ =>
        panel_tell (Engine.alters_setPosition seconds) fun _ => rfl)
  | setBaseTime time => exact panel_setBaseTime s time
  | setVolume volume => exact panel_setVolume s volume
  | setBitrateLimit limit => exact hsame (panel_setBitrateLimit limit)
  | setLooping looping => exact .setLooping s.panel looping
  | observe topic label program => exact hsame rfl
  | bringUp | close | start | consumeSized | destroy => cases hc

/-- A command, and the commands after it if it succeeds. -/
theorem panel_cons {c : Command} {cs : List Command}
    (hstep : Panel.Step free s.panel (c.effect s) (c.exec s).1.panel)
    (hrest : ∀ s₁, Panel.Course free s₁.panel (Command.effects cs s₁)
      (((through cs s₁).getLast?).getD s₁).panel) :
    Panel.Course free s.panel (Command.effects (c :: cs) s)
      (((through (c :: cs) s).getLast?).getD s).panel := by
  rcases hc : c.exec s with ⟨s₁, e | u⟩
  · rw [through_error hc]
    simp only [Command.effects, hc] at hstep ⊢
    exact .more hstep (.refl _)
  · rw [through_ok hc, List.getLast?_cons, Option.getD_some]
    simp only [Command.effects, hc] at hstep ⊢
    exact .more hstep (hrest s₁)

/-- Commands one after another, the last one's panel at the end. -/
theorem panel_through {cs : List Command} (hcs : ∀ c ∈ cs, c.isUse = true)
    (hfree : free = false → ∀ c ∈ cs, ∀ d, c ≠ .setupWith d) (s : Stage) :
    Panel.Course free s.panel (Command.effects cs s)
      (((through cs s).getLast?).getD s).panel := by
  induction cs generalizing s with
  | nil => exact .refl _
  | cons c cs ih =>
      have hc := List.mem_cons_self (a := c) (l := cs)
      refine panel_cons (panel_use (hcs c hc) fun hf => hfree hf c hc) fun s₁ => ?_
      exact ih (fun x hx => hcs x (List.mem_cons_of_mem c hx))
        (fun hf x hx => hfree hf x (List.mem_cons_of_mem c hx)) s₁

/-- A start is a setup and a play. -/
theorem panel_start (ha : Books.Attached s.host.ledger s.index s.session.wiring) :
    Panel.Course free s.panel (Command.start.brings s) s.start.1.panel := by
  rw [start_parts]
  simp only [Command.brings, Command.parts]
  split
  · exact panel_cons (panel_bringUp ha) fun s₁ => .refl _
  · refine panel_cons (panel_bringUp ha) fun s₁ => panel_through ?_ ?_ s₁ <;> simp [Command.isUse]

/-- A picture of another size may set up and play. -/
theorem panel_consumeSized (s : Stage) (size : Size) (data : Array UInt8) :
    Panel.Course free s.panel ((Command.consumeSized size data).brings s)
      (s.consumeSized size data).1.panel := by
  rw [consumeSized_parts]
  refine panel_through ?_ ?_ s <;>
    · simp only [Command.parts]
      split
      · simp
      · split
        · simp [Command.isUse]
        · split <;> simp [Command.isUse]

/-- Every command moves the settings in steps, and brings to the engine what its parts bring. -/
theorem panel_exec (ha : Books.Attached s.host.ledger s.index s.session.wiring) (hco : s.Coupled)
    {c : Command} (hfree : free = false → ∀ d, c ≠ .setupWith d) :
    Panel.Course free s.panel (c.brings s) (c.exec s).1.panel := by
  by_cases huse : c.isUse = true
  · rw [Command.brings_of_isSingle (Command.isSingle_of_isUse s huse)]
    exact .one (panel_use huse hfree)
  cases c with
  | bringUp =>
      rw [Command.brings_of_isSingle rfl]
      exact .one (panel_bringUp ha)
  | destroy =>
      rw [Command.brings_of_isSingle rfl]
      exact .one (panel_destroy ha hco)
  | close =>
      have hone : ∀ x, Command.effects [.close] x = {} := Command.effects_one .close
      have hnothing : Command.close.brings s = {} := by
        simp only [Command.brings, Command.parts]
        split
        · simp only [Command.effects.eq_2 s .stop, hone]
          split <;> rfl
        · exact hone s
      rw [hnothing, show (Command.close.exec s).1.panel = s.panel from panel_close s]
      exact .refl _
  | start => exact panel_start ha
  | consumeSized size data => exact panel_consumeSized s size data
  | _ => exact absurd rfl huse

end Stage
end MediaHost
