import MediaHost.Proofs.Renewal

/-!
# Proofs — Flow

What decides when the frames of a session count as the first ones, and which bitrate limit the
engine has for it: the session's phase, the frames it got, the limit it is configured with, and
the engine's limit (`Flow`).  Every command moves these in steps of a few kinds, some of which
are a cue: new media is set up, or media starts to play (`Stage.course_exec`).
-/

namespace MediaHost

/-- What happened to the media of a session, as far as it matters for the first frame. -/
inductive Cue
  /-- New media was set up. -/
  | setup
  /-- Media that was not playing started to play. -/
  | play
  /-- A frame was delivered. -/
  | frame
deriving DecidableEq, Repr

@[ext]
structure Flow where
  phase : Phase
  frames : Acquisition
  /-- As the session is configured. -/
  limit : Single
  /-- As the engine has it for the session's pipeline. -/
  engine : Option Single

/-- The limit that the engine has for a pipeline. -/
def Host.limitOf (a : Host) (h : Handle) : Option Single :=
  (a.engine.pipelines.get? h.id).map (·.bitrateLimit)

def Stage.flow (s : Stage) : Flow where
  phase := s.session.phase
  frames := s.session.frames
  limit := s.session.config.playback.bitrateLimit
  engine := s.session.pipeline.bind s.host.limitOf

namespace Flow

/-- One step of the flow, with the cue it gives. -/
inductive Step : Flow → List Cue → Flow → Prop
  | setup (f : Flow) : Step f [.setup] { f with phase := .configured, frames := {} }
  | play (f : Flow) (h : f.phase ≠ .playing) :
      Step f [.play] { f with phase := .playing, frames := f.frames.rearm }
  /-- The session is not playing, whatever becomes of its pipeline. -/
  | rest (f : Flow) {ph : Phase} (h : ph ≠ .playing) (e : Option Single) :
      Step f [] { f with phase := ph, engine := e }
  /-- The engine is not told of a new limit before frames flow. -/
  | limitLater (f : Flow) (l : Single) (h : ¬(f.frames.last.isSome ∧ f.phase = .playing)) :
      Step f [] { f with limit := l }
  | limitNow (f : Flow) (l : Single) :
      Step f [] { f with limit := l, engine := f.engine.map fun _ => Single.toUnit l Single.one }
  /-- A frame; the first one may bring the limit with it. -/
  | frame (f : Flow) (size : Size) :
      Step f [.frame]
        { f with
          frames := f.frames.record size
          engine :=
            if f.frames.awaitingFirst && !f.limit.same Single.one then
              f.engine.map fun _ => Single.toUnit f.limit Single.one
            else f.engine }

/-- Steps one after another, with all their cues in order. -/
inductive Course : Flow → List Cue → Flow → Prop
  | refl (f : Flow) : Course f [] f
  | more {f f₁ f' : Flow} {l ls : List Cue} (h : Step f l f₁) (t : Course f₁ ls f') :
      Course f (l ++ ls) f'

/-- One step is a course. -/
theorem Course.one {f f' : Flow} {l : List Cue} (h : Step f l f') : Course f l f' := by
  simpa using Course.more h (.refl f')

theorem Course.trans {f f₁ f' : Flow} {l ls : List Cue} (h₁ : Course f l f₁)
    (h₂ : Course f₁ ls f') : Course f (l ++ ls) f' := by
  induction h₁ with
  | refl => exact h₂
  | more h _ ih =>
      rw [List.append_assoc]
      exact .more h (ih h₂)

/-- The session may have ceased to play, and that is all. -/
structure Halts (f f' : Flow) : Prop where
  phase : f'.phase = f.phase ∨ f'.phase ≠ .playing
  frames : f'.frames = f.frames
  limit : f'.limit = f.limit
  engine : f'.engine = f.engine

theorem Halts.refl (f : Flow) : Halts f f := ⟨.inl rfl, rfl, rfl, rfl⟩

theorem Halts.trans {f f₁ f' : Flow} (h₁ : Halts f f₁) (h₂ : Halts f₁ f') : Halts f f' where
  phase := by
    rcases h₂.phase with h | h
    · rw [h]
      exact h₁.phase
    · exact .inr h
  frames := h₂.frames.trans h₁.frames
  limit := h₂.limit.trans h₁.limit
  engine := h₂.engine.trans h₁.engine

/-- Halting is a course without a cue. -/
theorem Halts.course {f f' : Flow} (h : Halts f f') : Course f [] f' := by
  obtain ⟨ph, fr, l, e⟩ := f
  obtain ⟨ph', fr', l', e'⟩ := f'
  obtain ⟨hp, rfl, rfl, rfl⟩ := h
  rcases hp with rfl | hp
  · exact .refl _
  · exact .one (.rest ⟨ph, fr', l', e'⟩ hp e')

/-- What every step preserves, a course preserves. -/
theorem Course.preserves {P : Flow → Prop} (hP : ∀ f l f', Step f l f' → P f → P f')
    {f f' : Flow} {l : List Cue} (h : Course f l f') : P f → P f' := by
  induction h with
  | refl => exact id
  | more h _ ih => exact fun hf => ih (hP _ _ _ h hf)

end Flow

/-! ### The engine's limit -/

namespace Host
variable {a b : Host}

/-- Work that leaves the limit of a pipeline alone changes nobody's limit. -/
theorem limitOf_alters {k : Nat} {f : Pipeline → Pipeline} (ha : Alters k f a b)
    (hf : ∀ p, (f p).bitrateLimit = p.bitrateLimit) (h : Handle) : b.limitOf h = a.limitOf h :=
  ha.kept hf h.id

theorem limitOf_pipelines (hp : b.engine.pipelines = a.engine.pipelines) (h : Handle) :
    b.limitOf h = a.limitOf h := by
  simp only [limitOf, hp]

/-- What the engine keeps of a limit is what it is clamped to. -/
theorem limitOf_setBitrateLimit (h : Handle) (l : Single) :
    (a.tell (h.setBitrateLimit · l)).limitOf h =
      (a.limitOf h).map fun _ => Single.toUnit l Single.one := by
  have ha := alters_tell (h := a) (g := (h.setBitrateLimit · l))
    (Engine.alters_setBitrateLimit (k := h.id) _)
  simp only [limitOf, ha.pipeline, if_true, Option.map_map]
  rfl

end Host

namespace Stage
variable {s s₁ s' : Stage} {h : Handle}

/-- Nothing that the flow depends on changed but the phase and the frames. -/
theorem engine_flow (hp : s'.session.pipeline = s.session.pipeline)
    (hl : ∀ h, s'.host.limitOf h = s.host.limitOf h) : s'.flow.engine = s.flow.engine := by
  simp only [flow, hp]
  cases s.session.pipeline with
  | none => rfl
  | some h => exact hl h

/-- Work on the session's own pipeline leaves the engine's limit as it is. -/
theorem engine_flow_works {f : Pipeline → Pipeline} (hw : Works h f s s')
    (hf : ∀ p, (f p).bitrateLimit = p.bitrateLimit) : s'.flow.engine = s.flow.engine :=
  engine_flow (pipeline_of_wiring hw.wiring) (Host.limitOf_alters hw.host hf)

/-- The host changed without concerning anybody's limit. -/
theorem flow_onHost {f : Host → Host} (hl : ∀ h, (f s.host).limitOf h = s.host.limitOf h) :
    (s.onHost f).flow = s.flow := by
  have he : (s.onHost f).flow.engine = s.flow.engine := engine_flow rfl hl
  simpa only [flow, onHost] using congrArg (Flow.mk _ _ _) he

theorem flow_tell {g : Engine → Engine} {k : Nat} {f : Pipeline → Pipeline}
    (ha : Engine.Alters k f s.host.engine (g s.host.engine))
    (hf : ∀ p, (f p).bitrateLimit = p.bitrateLimit) : (s.onHost (·.tell g)).flow = s.flow :=
  flow_onHost (Host.limitOf_alters (Host.alters_tell ha) hf)

theorem flow_query {α : Type} {f : Engine → Nat → Engine × α}
    (hf : ∀ e k, (f e k).1.pipelines = e.pipelines) : (s.query f).1.flow = s.flow := by
  refine reading_withLive fun h _ => flow_onHost ?_
  exact Host.limitOf_pipelines (hf s.host.engine h.id)

theorem flow_consume (data : Array UInt8) : (s.consume data).1.flow = s.flow := by
  simp only [consume]
  split
  · rfl
  · split
    · rfl
    · exact flow_tell (Engine.alters_consume data) fun _ => rfl

theorem flow_share (queue : Nat) : (s.share queue).flow = s.flow := by
  simp only [share]
  split
  · exact flow_onHost fun _ => rfl
  · rfl

theorem flow_configure (f : Playback → Playback)
    (hf : ∀ p, (f p).bitrateLimit = p.bitrateLimit) : (s.configure f).flow = s.flow := by
  simp only [flow, configure, modify, hf, Session.phase]

end Stage

/-! ### Commands -/

namespace Command

/-- Whether a command that succeeds sets up new media. -/
def renews (c : Command) (x : Session) : Bool :=
  match c with
  | .setup .. | .setupWith _ | .setupEncoding _ | .start => true
  | .consumeSized size _ => x.encoding.any (·.size ≠ size)
  | _ => false

/-- A command set up new media. -/
def renewed (c : Command) (s : Stage) : Bool := c.renews s.session && (c.exec s).2.isOk

/-- The cues that a command gives: whether it set up new media, and whether it made the session
play that did not play, or plays new media. -/
def cues (c : Command) (s : Stage) : List Cue :=
  (if c.renewed s then [.setup] else []) ++
    (if (c.exec s).1.session.phase = .playing &&
        (s.session.phase ≠ .playing || c.renewed s) then [.play] else [])

end Command

namespace Stage
variable {s s₁ s' : Stage} {h : Handle} {c : Command}

/-- A command that sets nothing up, and after which the session does not play or plays as before,
gives no cue. -/
theorem cues_eq_nil (hc : c.renewed s = false)
    (hp : (c.exec s).1.session.phase = s.session.phase ∨
      (c.exec s).1.session.phase ≠ .playing) : c.cues s = [] := by
  simp only [Command.cues, hc]
  rcases hp with hp | hp
  · simp [hp]
  · simp [hp]

open MediaHost.Flow (Step Course)

/-- The command let the session cease to play at most. -/
theorem course_of_halts (hc : c.renewed s = false) (hf : Flow.Halts s.flow (c.exec s).1.flow) :
    Course s.flow (c.cues s) (c.exec s).1.flow := by
  rw [cues_eq_nil hc hf.phase]
  exact hf.course

/-- An operation is carried out, or changes nothing. -/
theorem flow_transport (s : Stage) (op : Transport) :
    (s.transport op).1 = s ∧ (s.transport op).2 ≠ .ok true ∨
    (s.transport op).2 = .ok true ∧ s.session.phase.after op = some op.target ∧
      (s.transport op).1.flow = { s.flow with phase := op.target } := by
  simp only [transport, withLive]
  split
  · exact .inl ⟨rfl, by simp⟩
  · next h hl =>
      split
      · exact .inl ⟨rfl, by simp⟩
      · next next ha =>
          obtain rfl := Coupled.after_eq_target ha
          refine .inr ⟨rfl, ha, ?_⟩
          have ht := works_tell (s := s) (h := h) _
            (alters_transportCalls h s.session.config.playback.volume op s.host.engine)
          have he := engine_flow_works ht fun p => by cases op <;> rfl
          exact congrArg (Flow.mk _ _ _) he

/-- Playing starts the wait for the first frame once more, or does nothing. -/
theorem flow_play (s : Stage) : s.play.1 = s ∨ s.session.phase ≠ .playing ∧
    s.play.1.flow = { s.flow with phase := .playing, frames := s.session.frames.rearm } := by
  rcases flow_transport s .play with ⟨hs, hr⟩ | ⟨hr, ha, hf⟩
  · refine .inl ?_
    simp only [play]
    split
    · next heq => exact absurd (congrArg Prod.snd heq) hr
    · next heq => rwa [heq] at hs
    · next heq => rwa [heq] at hs
  · have hp : s.session.phase ≠ .playing := by
      intro hp
      rw [hp] at ha
      cases ha
    refine .inr ⟨hp, ?_⟩
    simp only [play]
    split
    · next s₁ heq =>
        rw [heq] at hf
        change Flow.mk s₁.flow.phase s₁.flow.frames.rearm s₁.flow.limit s₁.flow.engine = _
        rw [hf]
        rfl
    · next heq => rw [heq] at hr; cases hr
    · next heq => rw [heq] at hr; cases hr

/-- Playing is a cue if it goes through. -/
theorem course_play (s : Stage) : Course s.flow (Command.play.cues s) s.play.1.flow := by
  have hc : Command.play.renewed s = false := rfl
  rcases flow_play s with hs | ⟨hp, hf⟩
  · have hflow : s.play.1.flow = s.flow := congrArg flow hs
    exact course_of_halts (c := .play) hc (hflow ▸ .refl _)
  · have hplaying : s.play.1.session.phase = .playing := congrArg Flow.phase hf
    have hcues : Command.play.cues s = [.play] := by
      simp [Command.cues, hc, Command.exec, hplaying, hp]
    rw [hcues, hf]
    exact .one (.play s.flow hp)

/-- An operation after which a session does not play. -/
theorem halts_transport (s : Stage) {op : Transport} (hop : op ≠ .play) :
    Flow.Halts s.flow (s.transport op).1.flow := by
  rcases flow_transport s op with ⟨hs, -⟩ | ⟨-, -, hf⟩
  · rw [hs]
    exact .refl _
  · rw [hf]
    refine ⟨.inr ?_, rfl, rfl, rfl⟩
    cases op with
    | play => exact absurd rfl hop
    | _ => nofun

/-- A close halts the flow. -/
theorem halts_close (s : Stage) : Flow.Halts s.flow s.close.1.flow := by
  have hclose : ∀ a : Stage, Flow.Halts a.flow (done (a.transport .close)).1.flow :=
    fun a => halts_transport a (by decide)
  simp only [close]
  split
  · have hstop : Flow.Halts s.flow (s.transport .stop).1.flow := halts_transport s (by decide)
    split
    · next heq =>
        rw [heq] at hstop
        exact hstop.trans (hclose _)
    · next heq =>
        rwa [heq] at hstop
  · exact hclose s

/-! ### New media -/

theorem session_report (d : Decoding) (s : Stage) : (report d s).session = s.session := by
  simp only [report]
  split <;> rfl

/-- What a session remembers of the media it was set up for. -/
theorem session_setupWith (hl : s.session.live = .ok h) (d : Decoding) :
    (s.setupWith d).1.session =
      { s.session with
        status := ⟨.configured, some .decoding, s.session.config.playback.looping⟩
        encoding := none
        health := {}
        frames := {} } := by
  simp only [setupWith_eq, changeLive, withLive_of_live hl, session_report, decode_eq,
    session_resetStream, session_closeMedia]

/-- After a setup the flow starts anew, and the engine keeps its limit. -/
theorem flow_setupWith (hl : s.session.live = .ok h) (d : Decoding) :
    (s.setupWith d).1.flow = { s.flow with phase := .configured, frames := {} } := by
  have hs := session_setupWith hl d
  have he : (s.setupWith d).1.flow.engine = s.flow.engine := by
    simp only [setupWith_eq, changeLive, withLive_of_live hl]
    refine engine_flow_works (works_setupWith hl d) fun p => ?_
    simp only [Function.comp_apply, decoded, Pipeline.cleared]
    split <;> split <;> rfl
  refine Flow.ext ?_ ?_ ?_ he
  · exact congrArg Session.phase hs
  · exact congrArg Session.frames hs
  · exact congrArg (·.config.playback.bitrateLimit) hs

/-- For an encoder too. -/
theorem flow_setupEncoding {enc : Encoding} (hok : (s.setupEncoding enc).2 = .ok ()) :
    (s.setupEncoding enc).1.flow = { s.flow with phase := .configured, frames := {} } := by
  have hset : s.setupEncoding enc = ((s.setupEncoding enc).1, .ok ()) := Prod.ext rfl hok
  obtain ⟨h, hl, hs⟩ := setupEncoding_spec hset
  have hempty : enc.size.isEmpty = false := by
    refine Bool.eq_false_iff.mpr fun he => ?_
    simp only [setupEncoding, he, if_true] at hok
    cases hok
  have he : (s.setupEncoding enc).1.flow.engine = s.flow.engine := by
    simp only [setupEncoding_eq s hempty, changeLive, withLive_of_live hl]
    refine engine_flow_works (works_encode hl enc) fun p => ?_
    simp only [Function.comp_apply, Pipeline.cleared]
    split <;> rfl
  refine Flow.ext ?_ ?_ ?_ he
  · exact congrArg Session.phase hs
  · exact congrArg Session.frames hs
  · exact congrArg (·.config.playback.bitrateLimit) hs

/-- A setup that succeeds. -/
theorem flow_setup (hc : c.isSetup = true) (hok : (c.exec s).2 = .ok ()) :
    (c.exec s).1.flow = { s.flow with phase := .configured, frames := {} } := by
  obtain ⟨h, hl⟩ := live_of_setup hc hok
  cases c with
  | setup uri video audio => exact flow_setupWith hl _
  | setupWith d => exact flow_setupWith hl d
  | setupEncoding enc => exact flow_setupEncoding hok
  | _ => cases hc

/-- Each of the setups is a course with its own cue. -/
theorem course_setup (hc : c.isSetup = true) : Course s.flow (c.cues s) (c.exec s).1.flow := by
  have hn : c ≠ .bringUp ∧ c ≠ .start := by
    constructor <;> (rintro rfl; cases hc)
  have hr : c.renews s.session = true := by
    cases c with
    | setup | setupWith | setupEncoding => rfl
    | _ => cases hc
  cases hres : (c.exec s).2 with
  | error e =>
      have hs := unchanged_exec hn.1 hn.2 hres
      refine course_of_halts ?_ (by rw [hs]; exact .refl _)
      simp [Command.renewed, hres, Except.isOk, Except.toBool]
  | ok u =>
      have hf := flow_setup hc hres
      have hph : (c.exec s).1.session.phase = .configured := congrArg Flow.phase hf
      have hcues : c.cues s = [.setup] := by
        simp [Command.cues, Command.renewed, hr, hres, hph, Except.isOk, Except.toBool]
      rw [hcues, hf]
      exact .one (.setup s.flow)

/-- Media that was set up plays when it is asked to. -/
theorem flow_played (hc : c.isSetup = true) (hok : (c.exec s).2 = .ok ()) :
    (c.exec s).1.play.2 = .ok () ∧ (c.exec s).1.play.1.flow =
      { s.flow with phase := .playing, frames := Acquisition.rearm {} } := by
  obtain ⟨h, hl⟩ := live_of_setup hc hok
  have hk : Keeps s (c.exec s).1 := by
    refine keeps_exec s c ?_ ?_ ?_ <;> (rintro rfl; cases hc)
  have hl₁ : (c.exec s).1.session.live = .ok h := by
    rwa [Session.live_of_wiring hk.wiring]
  have hf := flow_setup hc hok
  have hph : (c.exec s).1.session.phase = .configured := congrArg Flow.phase hf
  obtain ⟨s₂, hplay, hs₂⟩ := play_of_configured hl₁ hph
  refine ⟨congrArg Prod.snd hplay, ?_⟩
  rcases flow_play (c.exec s).1 with hsame | ⟨-, hflow⟩
  · -- a session that plays is not as it was
    rw [hplay] at hsame
    have hplaying : s₂.session.phase = .playing := by rw [hs₂]; rfl
    have hsame : s₂ = (c.exec s).1 := hsame
    rw [hsame, hph] at hplaying
    cases hplaying
  · have hfr : (c.exec s).1.session.frames = {} := congrArg Flow.frames hf
    rw [hflow, hf, hfr]

/-- A command that fails renews nothing. -/
theorem renewed_of_error {e : Error} (he : (c.exec s).2 = .error e) : c.renewed s = false := by
  simp [Command.renewed, he, Except.isOk, Except.toBool]

/-- The command set up new media and played it. -/
theorem course_of_renewal {f : Flow} (hr : c.renews s.session = true)
    (hok : (c.exec s).2 = .ok ()) (hf : Course s.flow [] f)
    (hf' : (c.exec s).1.flow =
      { f with phase := .playing, frames := Acquisition.rearm {} }) :
    Course s.flow (c.cues s) (c.exec s).1.flow := by
  have hph : (c.exec s).1.session.phase = .playing := congrArg Flow.phase hf'
  have hcues : c.cues s = [.setup, .play] := by
    simp [Command.cues, Command.renewed, hr, hok, hph, Except.isOk, Except.toBool]
  rw [hcues, hf']
  exact hf.trans (.more (.setup f) (.one (.play _ nofun)))

/-- Pictures of another size than the one set up. -/
theorem flow_consumeSized {size : Size} {data : Array UInt8}
    (hsize : size.check data.size = .ok ())
    {enc : Encoding} (henc : s.session.encoding = some enc) (hne : enc.size ≠ size)
    (hok : (s.consumeSized size data).2 = .ok ()) : (s.consumeSized size data).1.flow =
      { s.flow with phase := .playing, frames := Acquisition.rearm {} } := by
  simp only [consumeSized, hsize, henc, if_false, hne] at hok ⊢
  cases hset : s.setupEncoding { enc with size := size } with
  | mk s₁ r =>
      cases r with
      | error e =>
          rw [hset] at hok
          cases hok
      | ok u =>
          obtain ⟨s₂, s₃, hplay, hconsume⟩ := consume_of_setupEncoding hset hsize
          have hc : (Command.setupEncoding { enc with size := size }).isSetup = true := rfl
          have hf := (flow_played (s := s) hc (congrArg Prod.snd hset)).2
          simp only [Command.exec, hset, hplay] at hf
          have hdata := flow_consume (s := s₂) data
          rw [hconsume] at hdata
          simp only [hplay, hconsume]
          exact hdata.trans hf

/-- A picture of another size is a setup and a play, with both their cues. -/
theorem course_consumeSized (size : Size) (data : Array UInt8) :
    Course s.flow ((Command.consumeSized size data).cues s) (s.consumeSized size data).1.flow := by
  cases hres : (s.consumeSized size data).2 with
  | error e =>
      have hsame := unchanged_consumeSized hres
      refine course_of_halts (c := .consumeSized size data) (renewed_of_error hres) ?_
      change Flow.Halts s.flow (s.consumeSized size data).1.flow
      rw [hsame]
      exact .refl _
  | ok u =>
      have hsize : size.check data.size = .ok () := by
        cases hcheck : size.check data.size with
        | ok u => rfl
        | error e =>
            simp only [consumeSized, hcheck] at hres
            cases hres
      by_cases hr : (Command.consumeSized size data).renews s.session = true
      · obtain ⟨enc, henc, hne⟩ := (Option.any_eq_true _ _).mp hr
        have hf := flow_consumeSized hsize henc (of_decide_eq_true hne) hres
        exact course_of_renewal hr hres (.refl _) hf
      · -- the pictures have the size set up
        have heq : s.consumeSized size data = s.consume data := by
          simp only [Command.renews] at hr
          simp only [consumeSized, hsize]
          split
          · rfl
          · next enc henc => simp_all
        refine course_of_halts (c := .consumeSized size data) ?_ ?_
        · simp [Command.renewed, hr]
        · change Flow.Halts s.flow (s.consumeSized size data).1.flow
          rw [heq, flow_consume]
          exact .refl _

/-! ### The limit -/

/-- The engine is told of a limit now or later; neither is a cue. -/
theorem course_setBitrateLimit (l : Single) :
    Course s.flow ((Command.setBitrateLimit l).cues s) (s.setBitrateLimit l).1.flow := by
  have hc : (Command.setBitrateLimit l).renewed s = false := rfl
  generalize hl : Single.toUnit l Single.one = l₁
  have hcases : (s.setBitrateLimit l).1.flow = s.flow ∨
      (s.setBitrateLimit l).1.flow =
        { s.flow with
          limit := l₁, engine := s.flow.engine.map fun _ => Single.toUnit l₁ Single.one } ∨
      ¬(s.flow.frames.last.isSome ∧ s.flow.phase = .playing) ∧
        (s.setBitrateLimit l).1.flow = { s.flow with limit := l₁ } := by
    simp only [setBitrateLimit, changeLive, withLive, hl]
    cases hlive : s.session.live with
    | error e => exact .inl rfl
    | ok h =>
        have hp := (live_eq_ok.mp hlive).2
        by_cases hnow : (s.session.frames.last.isSome && decide (s.session.phase = .playing)) = true
        · refine .inr (.inl ?_)
          have hset := Host.limitOf_setBitrateLimit (a := s.host) h l₁
          simp only [hnow, if_true]
          refine Flow.ext rfl rfl rfl ?_
          simp only [flow, configure, modify, onHost, hp, Option.bind_some]
          exact hset
        · refine .inr (.inr ⟨?_, ?_⟩)
          · change ¬(s.session.frames.last.isSome ∧ s.session.phase = .playing)
            simpa using hnow
          · simp only [hnow]
            rfl
  have hphase : (s.setBitrateLimit l).1.session.phase = s.session.phase := by
    rcases hcases with hf | hf | ⟨-, hf⟩ <;> exact congrArg Flow.phase hf
  rw [cues_eq_nil hc (.inl hphase)]
  rcases hcases with hf | hf | ⟨hlater, hf⟩
  · rw [hf]
    exact .refl _
  · rw [hf]
    exact .one (.limitNow s.flow l₁)
  · rw [hf]
    exact .one (.limitLater s.flow l₁ hlater)

/-! ### Bringing a session up, and destroying it -/

/-- A session that comes up has no media. -/
theorem flow_bringUp (ha : Books.Attached s.host.ledger s.index s.session.wiring) :
    s.bringUp.1.flow = s.flow ∨
      ∃ e, s.bringUp.1.flow = { s.flow with phase := .unloaded, engine := e } := by
  by_cases hd : s.session.phase.isDestroyed = true
  · refine .inl ?_
    simp only [bringUp, hd, if_true]
  by_cases hl : s.session.lease.isSome = true
  · refine .inl ?_
    simp only [bringUp, hd, hl, if_true]
    rfl
  rw [Bool.not_eq_true] at hd hl
  have hnone : s.session.pipeline = none := congrArg Wiring.pipeline (wiring_of_lease ha hl)
  have hdown : ∀ a : Host, Stage.flow { s with host := a } = s.flow := by
    intro a
    simp only [flow, hnone]
    rfl
  by_cases hact : s.host.addRef.context.isActive = true
  · rcases hc : s.bound.engine.create s.session.name .all s.host.addRef.arena.next with
      ⟨e, _ | id⟩
    · rw [bringUp_refused hd hl hact hc]
      exact .inl (hdown _)
    · rw [bringUp_made hd hl hact hc]
      exact .inr ⟨_, rfl⟩
  · rw [bringUp_inactive hd hl (by simpa using hact)]
    exact .inl (hdown _)

/-- Bringing a session up is no cue, whatever comes of it. -/
theorem course_bringUp (ha : Books.Attached s.host.ledger s.index s.session.wiring) :
    Course s.flow [] s.bringUp.1.flow ∧ (s.bringUp.1.session.phase = s.session.phase ∨
      s.bringUp.1.session.phase ≠ .playing) := by
  rcases flow_bringUp ha with hf | ⟨e, hf⟩
  · have hph : s.bringUp.1.session.phase = s.session.phase := congrArg Flow.phase hf
    rw [hf]
    exact ⟨.refl _, .inl hph⟩
  · have hph : s.bringUp.1.session.phase = .unloaded := congrArg Flow.phase hf
    rw [hf, hph]
    exact ⟨.one (.rest s.flow (by simp) e), .inr (by simp)⟩

/-- A command that does no more than to bring the session up. -/
theorem course_of_bringUp (ha : Books.Attached s.host.ledger s.index s.session.wiring)
    (hc : c.renewed s = false) (he : (c.exec s).1 = s.bringUp.1) :
    Course s.flow (c.cues s) (c.exec s).1.flow := by
  obtain ⟨hcourse, hphase⟩ := course_bringUp ha
  rw [cues_eq_nil hc (by rwa [he]), he]
  exact hcourse

/-- What destroying a session leaves of it. -/
structure Retains (s s' : Stage) : Prop where
  frames : s'.session.frames = s.session.frames
  config : s'.session.config = s.session.config
  queue : s'.session.queue = s.session.queue
  health : s'.session.health = s.session.health

theorem Retains.trans (h₁ : Retains s s₁) (h₂ : Retains s₁ s') : Retains s s' :=
  ⟨h₂.frames.trans h₁.frames, h₂.config.trans h₁.config, h₂.queue.trans h₁.queue,
    h₂.health.trans h₁.health⟩

theorem retains_onHost (f : Host → Host) : Retains s (s.onHost f) := ⟨rfl, rfl, rfl, rfl⟩

theorem retains_withdrawn (s : Stage) : Retains s s.withdrawn := ⟨rfl, rfl, rfl, rfl⟩

theorem retains_releaseToken (s : Stage) : Retains s s.releaseToken := by
  simp only [releaseToken]
  split <;> exact ⟨rfl, rfl, rfl, rfl⟩

theorem retains_letGo (s : Stage) : Retains s s.letGo := by
  have hqueue : ∀ a : Stage, Retains a a.leaveQueue := by
    intro a
    simp only [leaveQueue]
    split <;> exact ⟨rfl, rfl, rfl, rfl⟩
  have hlease : ∀ a : Stage, Retains a a.releaseLease := by
    intro a
    simp only [releaseLease]
    split <;> exact ⟨rfl, rfl, rfl, rfl⟩
  exact (retains_releaseToken s).trans ((hqueue _).trans (hlease _))

/-- Waiting for an end changes nothing in the session. -/
theorem session_awaitEnd (h : Handle) (s : Stage) : (awaitEnd h s).1.session = s.session := by
  simp only [awaitEnd]
  split
  · rfl
  split
  · rfl
  split
  · rfl
  · rfl
  · rfl
  · split <;> rfl

theorem retains_finish (h : Handle) (x : Stage × Wait) : Retains x.1 (finish h x) := by
  have hlet : ∀ g, Retains x.1 (x.1.releaseToken.onHost g).letGo := fun g =>
    ((retains_releaseToken x.1).trans (retains_onHost g)).trans (retains_letGo _)
  simp only [finish]
  split
  · exact ⟨rfl, rfl, rfl, rfl⟩
  · exact hlet _
  · exact hlet _

theorem retains_destroy (s : Stage) : Retains s s.destroy := by
  by_cases hd : s.session.phase.isDestroyed = true
  · simp only [destroy, hd, if_true]
    exact ⟨rfl, rfl, rfl, rfl⟩
  rw [Bool.not_eq_true] at hd
  cases hp : s.session.pipeline with
  | none =>
      rw [destroy_of_none hd hp]
      exact (retains_withdrawn s).trans (retains_letGo s.withdrawn)
  | some h =>
      by_cases he : s.isEncoding = true
      · rw [destroy_of_encoding hp he]
        have hsession : (s.ending h).session = s.withdrawn.session := by
          simp only [ending]
          split <;> rfl
        refine Retains.trans ⟨?_, ?_, ?_, ?_⟩ (retains_finish h _) <;>
          rw [session_awaitEnd, hsession] <;> rfl
      · rw [destroy_of_idle hd hp (by simpa using he)]
        exact (retains_withdrawn s).trans (retains_finish h (s.withdrawn, .ended))

/-- A session that is destroyed rests, and has no pipeline with a limit. -/
theorem course_destroy (ha : Books.Attached s.host.ledger s.index s.session.wiring)
    (hco : s.Coupled) : Course s.flow (Command.destroy.cues s) s.destroy.flow := by
  have hc : Command.destroy.renewed s = false := rfl
  have hw := (destroys_destroy ha hco).wiring
  have hd : s.destroy.session.phase.isDestroyed = true := congrArg Wiring.destroyed hw
  have hph : s.destroy.session.phase ≠ .playing := by
    intro hp
    rw [hp] at hd
    cases hd
  obtain ⟨hfr, hcfg, -⟩ := retains_destroy s
  have hf : s.destroy.flow =
      { s.flow with phase := s.destroy.session.phase, engine := s.destroy.flow.engine } :=
    Flow.ext rfl hfr (congrArg (·.playback.bitrateLimit) hcfg) rfl
  rw [cues_eq_nil hc (.inr hph), hf]
  exact .one (.rest s.flow hph _)

/-- A start brings the session up, and then sets up its media and plays it, or does neither. -/
theorem start_cases (s : Stage) :
    (∃ e, s.start.2 = .error e) ∧ s.start.1 = s.bringUp.1 ∨
    ∃ uri video audio, (s.bringUp.1.setup uri video audio).2 = .ok () ∧
      s.start = (s.bringUp.1.setup uri video audio).1.play := by
  rcases hb : s.bringUp with ⟨s₁, e | u⟩
  · refine .inl ⟨⟨e, ?_⟩, ?_⟩ <;> simp only [start, hb]
  by_cases hu : s₁.session.config.playback.uri.isEmpty = true
  · refine .inl ⟨⟨.config "no media URI configured", ?_⟩, ?_⟩ <;>
      simp only [start, hb, hu, if_true]
  generalize hset : s₁.setup s₁.session.config.playback.uri s₁.session.config.playback.videoIndex
    s₁.session.config.playback.audioIndex = x
  rcases x with ⟨s₂, e | u'⟩
  · refine .inl ?_
    have hsame : s₂ = s₁ := by
      have hun := unchanged_withLive (congrArg Prod.snd hset)
      exact (congrArg Prod.fst hset).symm.trans hun
    simp only [start, hb, hu, hset]
    exact ⟨⟨e, rfl⟩, hsame⟩
  · refine .inr ⟨_, _, _, congrArg Prod.snd hset, ?_⟩
    simp only [start, hb, hu, hset]
    rfl

/-- A start is bringing up and a setup that is played, with their cues. -/
theorem course_start (ha : Books.Attached s.host.ledger s.index s.session.wiring) :
    Course s.flow (Command.start.cues s) s.start.1.flow := by
  rcases start_cases s with ⟨⟨e, he⟩, hs⟩ | ⟨uri, video, audio, hok, hs⟩
  · exact course_of_bringUp (c := .start) ha (renewed_of_error he) hs
  · have hc : (Command.setup uri video audio).isSetup = true := rfl
    obtain ⟨hplayed, hf⟩ := flow_played (s := s.bringUp.1) hc hok
    refine course_of_renewal (c := .start) (f := s.bringUp.1.flow) rfl ?_ (course_bringUp ha).1 ?_
    · change s.start.2 = _
      rw [hs]
      exact hplayed
    · change s.start.1.flow = _
      rw [hs]
      exact hf

/-- Every command moves the flow in steps that give the command's cues. -/
theorem course_exec (ha : Books.Attached s.host.ledger s.index s.session.wiring)
    (hco : s.Coupled) (c : Command) : Course s.flow (c.cues s) (c.exec s).1.flow := by
  have hsame : c.renewed s = false → (c.exec s).1.flow = s.flow →
      Course s.flow (c.cues s) (c.exec s).1.flow :=
    fun hc hf => course_of_halts hc (hf ▸ .refl _)
  cases c with
  | share queue => exact hsame rfl (flow_share queue)
  | bringUp => exact course_of_bringUp (c := .bringUp) ha rfl rfl
  | setup uri video audio => exact course_setup rfl
  | setupWith d => exact course_setup rfl
  | setupEncoding enc => exact course_setup rfl
  | play => exact course_play s
  | pause =>
      exact course_of_halts (c := .pause) rfl
        (halts_transport s (nofun : Transport.pause ≠ .play))
  | stop =>
      exact course_of_halts (c := .stop) rfl
        (halts_transport s (nofun : Transport.stop ≠ .play))
  | close => exact course_of_halts (c := .close) rfl (halts_close s)
  | start => exact course_start ha
  | consume data => exact hsame rfl (flow_consume data)
  | consumeSized size data => exact course_consumeSized size data
  | duration => exact hsame rfl (flow_query (f := Engine.durationOf) fun _ _ => rfl)
  | position => exact hsame rfl (flow_query (f := Engine.positionOf) fun _ _ => rfl)
  | isPlaying => exact hsame rfl (reading_orFalse (flow_query fun _ _ => rfl))
  | isLoaded => exact hsame rfl (reading_orFalse (flow_query fun _ _ => rfl))
  | setPosition seconds =>
      exact hsame rfl (reading_withLive fun h _ =>
        flow_tell (Engine.alters_setPosition seconds) fun _ => rfl)
  | setBaseTime time =>
      refine hsame rfl (reading_withLive fun h _ => ?_)
      exact flow_tell (Engine.alters_setBaseTime time) fun _ => rfl
  | setVolume volume =>
      refine hsame rfl (reading_withLive fun h _ => ?_)
      exact (flow_configure _ fun _ => rfl).trans
        (flow_tell (g := (h.setVolume · _)) (Engine.alters_setVolume _) fun _ => rfl)
  | setBitrateLimit limit => exact course_setBitrateLimit limit
  | setLooping looping => exact hsame rfl rfl
  | observe topic label program => exact hsame rfl rfl
  | destroy => exact course_destroy ha hco

end Stage
end MediaHost
