import MediaHost.Proofs.Look
import MediaHost.Proofs.Run
import MediaHost.Proofs.Stage

/-!
# Proofs — Commands

Every command of a session but bringing it up, starting it and destroying it `Keeps` what the
session and its host hold (`keeps_exec`), and so does a look for a frame (`keeps_pull`).
-/

namespace MediaHost

namespace Stage
variable {s : Stage} {h : Handle}

/-! ### What keeps the coupling by itself -/

/-- A change of the session that leaves what it holds and its phase alone. -/
theorem keeps_modify (f : Session → Session) (hw : (f s.session).wiring = s.session.wiring)
    (hs : (f s.session).status = s.session.status) : Keeps s (s.modify f) := by
  refine (same_modify hw).keeps fun p hc => ?_
  change MediaHost.Coupled (f s.session).status p
  rwa [hs]

/-- A request to the engine works on the pipeline it alters. -/
theorem works_tell (g : Engine → Engine) {f : Pipeline → Pipeline}
    (he : Engine.Alters h.id f s.host.engine (g s.host.engine)) :
    Works h f s (s.onHost (·.tell g)) :=
  ⟨rfl, rfl, Host.alters_tell he⟩

/-- A request to the session's pipeline that leaves its gear alone. -/
theorem keeps_tell (g : Engine → Engine) {f : Pipeline → Pipeline}
    (hp : s.session.pipeline = some h)
    (he : Engine.Alters h.id f s.host.engine (g s.host.engine))
    (hf : ∀ p, (f p).gear = p.gear) : Keeps s (s.onHost (·.tell g)) :=
  (works_tell g he).keeps hp fun p hc => hc.of_gear (hf p)

/-- The playback the session was configured with is not what it holds. -/
theorem keeps_configure (f : Playback → Playback) : Keeps s (s.configure f) :=
  keeps_modify (s := s) _ rfl rfl

theorem keeps_done {α : Type} {x : Stage × Except Error α} (hx : Keeps s x.1) :
    Keeps s (done x).1 := hx

/-! ### Transport -/

/-- What a transport asks of the engine moves the one pipeline. -/
theorem alters_transportCalls (h : Handle) (volume : Double) (op : Transport) (e : Engine) :
    Engine.Alters h.id (·.moved (Double.toUnit volume .zero) op) e
      (transportCalls h volume op e) := by
  cases op with
  | play => exact (Engine.alters_setVolume _).trans Engine.alters_play
  | pause => exact Engine.alters_pause
  | stop => exact Engine.alters_stop
  | close => exact Engine.alters_close

/-- A transport moves the pipeline's gear and the session's phase together, or neither. -/
theorem keeps_transport (s : Stage) (op : Transport) : Keeps s (s.transport op).1 := by
  refine Keeps.withLive fun h hl => ?_
  obtain ⟨hd, hp⟩ := live_eq_ok.mp hl
  split
  · exact .refl s
  · next next ha =>
      have ht := works_tell (s := s) (h := h) _
        (alters_transportCalls h s.session.config.playback.volume op s.host.engine)
      have hnext : next.isDestroyed = false := by
        rw [Coupled.after_eq_target ha]
        cases op <;> rfl
      have hm : Works h _ s ((s.onHost _).setPhase next) :=
        ht.thenSame (same_setPhase hd hnext)
      exact hm.keeps hp fun p hc => hc.moved ha _

/-- Playing also makes the next frame a first one. -/
theorem keeps_play (s : Stage) : Keeps s s.play.1 := by
  have ht := keeps_transport s .play
  simp only [play]
  split
  · next heq =>
      rw [heq] at ht
      exact ht.trans (keeps_modify (fun x => { x with frames := x.frames.rearm }) rfl rfl)
  · next heq => rwa [heq] at ht
  · next heq => rwa [heq] at ht

/-- Closing may stop first. -/
theorem keeps_close (s : Stage) : Keeps s s.close.1 := by
  simp only [close]
  split
  · have ht := keeps_transport s .stop
    split
    · next heq =>
        rw [heq] at ht
        exact ht.trans (keeps_done (keeps_transport _ .close))
    · next heq => rwa [heq] at ht
  · exact keeps_done (keeps_transport s .close)

/-! ### Media -/

/-- A picture to encode goes to the session's own pipeline. -/
theorem keeps_consume (s : Stage) (data : Array UInt8) : Keeps s (s.consume data).1 := by
  simp only [consume]
  split
  · exact .refl s
  · next h hl =>
      split
      · exact .refl s
      · exact keeps_tell _ (live_eq_ok.mp hl).2 (Engine.alters_consume data) fun _ => rfl

/-- A picture of another size sets the encoder up anew and plays it. -/
theorem keeps_consumeSized (s : Stage) (size : Size) (data : Array UInt8) :
    Keeps s (s.consumeSized size data).1 := by
  simp only [consumeSized]
  split
  · exact .refl s
  split
  · exact keeps_consume s data
  · next enc _ =>
      split
      · exact keeps_consume s data
      -- frames of another size are a setup of their own, which plays on
      have hs := keeps_setupEncoding s { enc with size := size }
      split
      · next heq => rwa [heq] at hs
      · next heq =>
          rw [heq] at hs
          have hp := keeps_play ‹Stage›
          split
          · next heq' =>
              rw [heq'] at hp
              exact hs.trans hp
          · next heq' =>
              rw [heq'] at hp
              exact (hs.trans hp).trans (keeps_consume _ data)

/-- A question is written down, and that is all. -/
theorem keeps_query {α : Type} {f : Engine → Nat → Engine × α}
    (hf : ∀ e k, (f e k).1.inventory = e.inventory ∧ (f e k).1.pipelines = e.pipelines) :
    Keeps s (s.query f).1 := by
  refine Keeps.withLive fun h _ => ?_
  obtain ⟨hi, hp⟩ := hf s.host.engine h.id
  have hs : Same s (s.onHost (·.setEngine (f s.host.engine h.id).1)) :=
    ⟨rfl, rfl, Host.same_setEngine hi hp⟩
  exact hs.keeps fun _ => id

theorem keeps_duration (s : Stage) : Keeps s s.duration.1 :=
  keeps_query fun _ _ => ⟨Engine.inventory_asked rfl, rfl⟩

theorem keeps_position (s : Stage) : Keeps s s.position.1 :=
  keeps_query fun _ _ => ⟨Engine.inventory_asked rfl, rfl⟩

/-- Whatever a question is answered, the session is the same. -/
theorem keeps_orFalse {x : Stage × Except Error Bool} (hx : Keeps s x.1) :
    Keeps s (orFalse x).1 := by
  rcases x with ⟨s', _ | _⟩ <;> exact hx

theorem keeps_isPlaying (s : Stage) : Keeps s s.isPlaying.1 :=
  keeps_orFalse (keeps_query fun _ _ => ⟨Engine.inventory_asked rfl, rfl⟩)

theorem keeps_isLoaded (s : Stage) : Keeps s s.isLoaded.1 :=
  keeps_orFalse (keeps_query fun _ _ => ⟨Engine.inventory_asked rfl, rfl⟩)

/-- Moving to a position also makes the stream one that was not ended. -/
theorem keeps_setPosition (s : Stage) (seconds : Double) : Keeps s (s.setPosition seconds).1 := by
  refine Keeps.changeLive fun h hl => ?_
  exact (works_tell _ (Engine.alters_setPosition seconds)).keeps (live_eq_ok.mp hl).2
    fun p hc => hc.setPosition seconds

theorem keeps_setBaseTime (s : Stage) (time : UInt64) : Keeps s (s.setBaseTime time).1 := by
  refine Keeps.changeLive fun h hl => ?_
  have ht := keeps_tell (s := s) (·.setBaseTime h.id time) (live_eq_ok.mp hl).2
    (Engine.alters_setBaseTime time) fun _ => rfl
  exact ht.trans (keeps_modify _ rfl rfl)

/-- The volume changes with the engine and the session, and not the gear. -/
theorem keeps_setVolume (s : Stage) (volume : Double) : Keeps s (s.setVolume volume).1 := by
  refine Keeps.changeLive fun h hl => ?_
  have ht := keeps_tell (s := s) (h.setVolume · (Double.toUnit volume .zero)) (live_eq_ok.mp hl).2
    (Engine.alters_setVolume _) fun _ => rfl
  exact ht.trans (keeps_configure _)

/-- Passing a bitrate limit on, if the time has come. -/
theorem keeps_limit (s : Stage) (c : Bool) (hp : s.session.pipeline = some h) (limit : Single) :
    Keeps s (if c then s.onHost (·.tell (h.setBitrateLimit · limit)) else s) := by
  split
  · exact keeps_tell _ hp (Engine.alters_setBitrateLimit _) fun _ => rfl
  · exact .refl s

/-- The limit is passed on at most, and kept. -/
theorem keeps_setBitrateLimit (s : Stage) (limit : Single) :
    Keeps s (s.setBitrateLimit limit).1 := by
  refine Keeps.changeLive fun h hl => ?_
  exact (keeps_limit s _ (live_eq_ok.mp hl).2 _).trans (keeps_configure _)

/-- The session's looping is no part of what it holds. -/
theorem keeps_setLooping (s : Stage) (looping : Bool) : Keeps s (s.setLooping looping) := by
  refine (keeps_configure fun p => { p with looping := looping }).trans
    ((same_modify rfl).keeps fun p hc => ?_)
  exact hc.setLooping looping

/-- The queue events are delivered on is no part of what the session holds. -/
theorem keeps_share (s : Stage) (queue : Nat) : Keeps s (s.share queue) := by
  simp only [share]
  split
  · have hs : Same s (s.onHost (·.note (.queueFixed s.session.name))) :=
      ⟨rfl, rfl, Host.same_note rfl⟩
    exact hs.keeps fun _ => id
  · exact keeps_modify _ rfl rfl

/-- A look for a frame grabs it, and may copy it. -/
theorem alters_poll (a : Acquisition) (image : Image) (e : Engine) (k : Nat) :
    ∃ copy : Pipeline → Pipeline, (copy = id ∨ ∃ surface, copy = (·.blit surface)) ∧
      Engine.Alters k (copy ∘ fun p => (p.grab e.autoFrames).1) e (a.poll image e k).engine := by
  have hg := Engine.alters_grab (e := e) (k := k)
  have hr := a.outcome_poll image e k
  generalize a.poll image e k = r at hr
  cases hr with
  | idle => exact ⟨id, .inl rfl, hg⟩
  | overflow => exact ⟨id, .inl rfl, hg⟩
  | frame image' size resized copied =>
      rcases copied with rfl | ⟨surface, rfl⟩
      · exact ⟨id, .inl rfl, hg⟩
      · exact ⟨(·.blit surface), .inr ⟨surface, rfl⟩, hg.trans (Engine.alters_blit surface)⟩

/-- What the grab reports is sent afterwards. -/
theorem looked_poll (a : Acquisition) (image : Image) (host : Host) (k : Nat) (cs : List Callback) :
    ∃ f : Pipeline → Pipeline, (∀ p : Pipeline, p.Looked (f p)) ∧
      Host.Alters k f host ((host.setEngine (a.poll image host.engine k).engine).launch cs) := by
  obtain ⟨copy, hcopy, ha⟩ := alters_poll a image host.engine k
  refine ⟨_, fun p => ?_, (Host.alters_setEngine ha).thenSame (Host.same_launch cs)⟩
  rcases hcopy with rfl | ⟨surface, rfl⟩
  · exact p.looked_grab host.engine.autoFrames
  · exact (p.looked_grab host.engine.autoFrames).blit surface

/-- A copy leaves the pipeline's gear alone. -/
theorem gear_blit (p : Pipeline) (surface : Surface) : (p.blit surface).gear = p.gear := by
  simp only [Pipeline.blit]
  split <;> rfl

/-- A look for a frame of media being decoded. -/
theorem keeps_pull (s : Stage) (hp : s.session.pipeline = some h) : Keeps s (pull h s).1 := by
  by_cases hc : (s.session.status.direction = some .decoding && s.session.phase.isConfigured) = true
  · obtain ⟨hdir, -⟩ := by simpa only [Bool.and_eq_true, decide_eq_true_eq] using hc
    -- of what a look does to the pipeline, only the grab concerns its gear
    obtain ⟨copy, hcopy, hf⟩ := alters_poll s.session.frames s.session.image s.host.engine h.id
    have hgear : ∀ p, (copy p).gear = p.gear := by
      rcases hcopy with rfl | ⟨surface, rfl⟩
      · exact fun _ => rfl
      · exact fun p => gear_blit p surface
    generalize hr : s.session.frames.poll s.session.image s.host.engine h.id = r at hf
    have hm := same_modify (s := s)
      (f := fun x => { x with frames := r.acquisition, image := r.image }) rfl
    have hh : Host.Alters h.id _ s.host ((s.host.setEngine r.engine).launch r.callbacks) :=
      (Host.alters_setEngine hf).thenSame (Host.same_launch _)
    have hk := (hm.thenWorks (works_onHost
      (f := fun host => (host.setEngine r.engine).launch r.callbacks) hh)).keeps hp
        fun p hcp => (hcp.grab hdir s.host.engine.autoFrames).of_gear (hgear _)
    simp only [pull, hc, hr, if_true]
    split
    · exact hk
    · exact hk
    · refine (hk.trans (keeps_modify (fun x => { x with health := x.health.recordFrame })
        rfl rfl)).trans (keeps_limit _ _ ?_ _)
      exact hp
  · simp only [pull, hc]
    exact .refl s

/-- Every command that neither takes anything from the host nor gives anything back. -/
theorem keeps_exec (s : Stage) (c : Command) (h₁ : c ≠ .bringUp) (h₂ : c ≠ .start)
    (h₃ : c ≠ .destroy) : Keeps s (c.exec s).1 := by
  cases c with
  | share queue => exact keeps_share s queue
  | bringUp => exact absurd rfl h₁
  | setup uri video audio => exact keeps_setupWith s _
  | setupWith d => exact keeps_setupWith s d
  | setupEncoding enc => exact keeps_setupEncoding s enc
  | play => exact keeps_play s
  | pause => exact keeps_done (keeps_transport s .pause)
  | stop => exact keeps_done (keeps_transport s .stop)
  | close => exact keeps_close s
  | start => exact absurd rfl h₂
  | consume data => exact keeps_consume s data
  | consumeSized size data => exact keeps_consumeSized s size data
  | duration => exact keeps_done (keeps_duration s)
  | position => exact keeps_done (keeps_position s)
  | isPlaying => exact keeps_isPlaying s
  | isLoaded => exact keeps_isLoaded s
  | setPosition seconds => exact keeps_setPosition s seconds
  | setBaseTime time => exact keeps_setBaseTime s time
  | setVolume volume => exact keeps_setVolume s volume
  | setBitrateLimit limit => exact keeps_setBitrateLimit s limit
  | setLooping looping => exact keeps_setLooping s looping
  | observe topic label program => exact keeps_modify (·.observe topic label program) rfl rfl
  | destroy => exact absurd rfl h₃

end Stage
end MediaHost
