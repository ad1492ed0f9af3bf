import MediaHost.Proofs.Commands

/-!
# Proofs — Requests

Which requests each command makes.  Every command of a session but bringing it up, starting it
and destroying it asks the engine for the session's live pipeline only, and for nothing if there
is none (`asks_exec`); so does a look for a frame (`asks_pull`).
-/

namespace MediaHost

namespace Engine
variable {e e₁ e' : Engine} {k : Nat}

/-- Whether the engine runs, and whether it passes its messages on. -/
def mode (e : Engine) : Bool × Bool := (e.active, e.forwardsLog)

/-- From `e` to `e'` the engine was asked for the pipeline `k`, and for nothing else. -/
structure Asks (k : Nat) (e e' : Engine) : Prop where
  history : ∃ cs : List Call, e'.history = cs.map (.call k) ++ e.history
  mode : e'.mode = e.mode

theorem Asks.refl (k : Nat) (e : Engine) : Asks k e e := ⟨⟨[], rfl⟩, rfl⟩

theorem Asks.trans (h₁ : Asks k e e₁) (h₂ : Asks k e₁ e') : Asks k e e' := by
  obtain ⟨⟨cs, hcs⟩, hm₁⟩ := h₁
  obtain ⟨⟨ds, hds⟩, hm₂⟩ := h₂
  exact ⟨⟨ds ++ cs, by rw [hds, hcs, List.map_append, List.append_assoc]⟩, hm₂.trans hm₁⟩

/-- A single request. -/
theorem Asks.one {c : Call} (h : e'.history = .call k c :: e.history)
    (hm : e'.mode = e.mode) : Asks k e e' :=
  ⟨⟨[c], h⟩, hm⟩

/-- A request that changes the pipeline. -/
theorem asks_change {c : Call} {f : Pipeline → Pipeline} : Asks k e (e.change k c f) := .one rfl rfl

/-- Whether there is a frame or not, it was asked for. -/
theorem asks_grab : Asks k e (e.grab k).1 := by
  simp only [grab]
  split <;> exact .one rfl rfl

/-- A stream that has nothing to end is asked to end all the same. -/
theorem asks_stopEncoding : Asks k e (e.stopEncoding k).1 := by
  simp only [stopEncoding]
  split <;> exact .one rfl rfl

end Engine

/-- Whether a session is live shows in what it holds. -/
theorem Session.live_of_wiring {x y : Session} (h : x.wiring = y.wiring) : x.live = y.live := by
  have hd : x.phase.isDestroyed = y.phase.isDestroyed := congrArg Wiring.destroyed h
  have hp : x.pipeline = y.pipeline := congrArg Wiring.pipeline h
  simp only [live, hd, hp]

namespace Stage
variable {s s₁ s' : Stage} {h : Handle}

/-- From `s` to `s'` the engine was asked for the session's live pipeline, and for nothing else. -/
def Asks (s s' : Stage) : Prop :=
  s'.host.engine = s.host.engine ∨
    ∃ h, s.session.live = .ok h ∧ Engine.Asks h.id s.host.engine s'.host.engine

theorem Asks.refl (s : Stage) : Asks s s := .inl rfl

/-- Requests for the pipeline the session has. -/
theorem Asks.of_live (hl : s.session.live = .ok h)
    (ha : Engine.Asks h.id s.host.engine s'.host.engine) : Asks s s' := .inr ⟨h, hl, ha⟩

/-- The live pipeline is the same on the way. -/
theorem Asks.trans (hk : s₁.session.wiring = s.session.wiring) (h₁ : Asks s s₁)
    (h₂ : Asks s₁ s') : Asks s s' := by
  have hlive := Session.live_of_wiring hk
  rcases h₁ with h₁ | ⟨h, hl, h₁⟩
  · rcases h₂ with h₂ | ⟨g, hg, h₂⟩
    · exact .inl (h₂.trans h₁)
    · exact .inr ⟨g, hlive ▸ hg, h₁ ▸ h₂⟩
  · rcases h₂ with h₂ | ⟨g, hg, h₂⟩
    · exact .inr ⟨h, hl, h₂ ▸ h₁⟩
    · rw [hlive, hl] at hg
      cases hg
      exact .inr ⟨h, hl, h₁.trans h₂⟩

/-- An operation of a live session; of any other there are no requests. -/
theorem Asks.withLive {α : Type} {f : Handle → Stage → Stage × α}
    (hf : ∀ h, s.session.live = .ok h → Engine.Asks h.id s.host.engine (f h s).1.host.engine) :
    Asks s (s.withLive f).1 := by
  simp only [Stage.withLive]
  split
  · exact .refl s
  · next h hl => exact .of_live hl (hf h hl)

/-- A change of a live session; of any other there are no requests. -/
theorem Asks.changeLive {f : Handle → Stage → Stage}
    (hf : ∀ h, s.session.live = .ok h → Engine.Asks h.id s.host.engine (f h s).host.engine) :
    Asks s (s.changeLive f).1 :=
  Asks.withLive fun h hl => hf h hl

/-! ### New media -/

/-- Media is closed after the engine was asked whether there is any. -/
theorem asks_closeMedia (h : Handle) (s : Stage) :
    Engine.Asks h.id s.host.engine (closeMedia h s).host.engine := by
  have hm : Engine.Asks h.id s.host.engine (hasMedia h s).1.host.engine := by
    simp only [hasMedia]
    split
    · exact .one (c := .isLoaded) rfl rfl
    · have hloaded : Engine.Asks h.id s.host.engine (s.host.engine.isLoaded h.id).1 :=
        .one (c := .isLoaded) rfl rfl
      exact hloaded.trans (.one (c := .isPlaying) rfl rfl)
  simp only [closeMedia]
  split
  · exact hm.trans (Engine.asks_change (c := .close))
  · exact hm

/-- Starting over is between the session and its binding. -/
theorem engine_resetStream (s : Stage) : s.resetStream.host.engine = s.host.engine := by
  simp only [resetStream]
  cases s.session.token with
  | none => rfl
  | some t =>
      simp only [onHost, modify]
      split <;> rfl

/-- Media the engine cannot be told of is not asked for. -/
theorem asks_decode (h : Handle) (d : Decoding) (s : Stage) :
    Engine.Asks h.id s.host.engine (decode h d s).host.engine := by
  simp only [decode, engine_resetStream]
  split
  · simp only [modify, onHost, Host.request, Host.engine_launch]
    exact .one (c := .setupDecoding) rfl rfl
  · exact .refl _ _

/-- A report goes to the binding, past the engine. -/
theorem engine_report (d : Decoding) (s : Stage) : (report d s).host.engine = s.host.engine := by
  simp only [report]
  split
  · exact congrArg Context.engine (Host.context_signal _)
  · rfl

/-- Media to decode. -/
theorem asks_setupWith (s : Stage) (d : Decoding) : Asks s (s.setupWith d).1 := by
  rw [setupWith_eq]
  refine Asks.changeLive fun h _ => ?_
  rw [engine_report]
  exact (asks_closeMedia h s).trans (asks_decode h d _)

/-- Media to encode. -/
theorem asks_setupEncoding (s : Stage) (enc : Encoding) : Asks s (s.setupEncoding enc).1 := by
  simp only [setupEncoding]
  split
  · exact .refl s
  refine Asks.changeLive fun h _ => ?_
  rw [engine_resetStream]
  exact (asks_closeMedia h s).trans (Engine.asks_change (c := .setupEncoding))

/-! ### Transport -/

/-- Playing makes two requests, one for the volume; the others make one. -/
theorem asks_transportCalls (h : Handle) (volume : Double) (op : Transport) (e : Engine) :
    Engine.Asks h.id e (transportCalls h volume op e) := by
  cases op with
  | play =>
      have hv : Engine.Asks h.id e (h.setVolume e volume) := Engine.asks_change (c := .setVolume)
      exact hv.trans (Engine.asks_change (c := .play))
  | pause => exact Engine.asks_change (c := .pause)
  | stop => exact Engine.asks_change (c := .stop)
  | close => exact Engine.asks_change (c := .close)

/-- A transport that the phase does not allow makes no request. -/
theorem asks_transport (s : Stage) (op : Transport) : Asks s (s.transport op).1 := by
  refine Asks.withLive fun h _ => ?_
  split
  · exact .refl _ _
  · exact asks_transportCalls h _ op _

theorem asks_play (s : Stage) : Asks s s.play.1 := by
  have ht := asks_transport s .play
  simp only [play]
  split <;> (next heq => rw [heq] at ht; exact ht)

theorem asks_close (s : Stage) : Asks s s.close.1 := by
  simp only [close]
  split
  · have ht := asks_transport s .stop
    have hk := keeps_transport s .stop
    split
    · next heq =>
        rw [heq] at ht hk
        exact ht.trans hk.wiring (asks_transport _ .close)
    · next heq => rwa [heq] at ht
  · exact asks_transport s .close

/-! ### Media -/

/-- A picture to encode is one request. -/
theorem asks_consume (s : Stage) (data : Array UInt8) : Asks s (s.consume data).1 := by
  simp only [consume]
  split
  · exact .refl s
  · next h hl =>
      split
      · exact .refl s
      · exact .of_live hl (Engine.asks_change (c := .consumeImage))

/-- A picture of another size comes with the requests of a setup and of playing. -/
theorem asks_consumeSized (s : Stage) (size : Size) (data : Array UInt8) :
    Asks s (s.consumeSized size data).1 := by
  simp only [consumeSized]
  split
  · exact .refl s
  split
  · exact asks_consume s data
  · next enc _ =>
      split
      · exact asks_consume s data
      have hs := asks_setupEncoding s { enc with size := size }
      have hks := keeps_setupEncoding s { enc with size := size }
      split
      · next heq => rwa [heq] at hs
      · next s₁ heq =>
          rw [heq] at hs hks
          have hp := asks_play s₁
          have hkp := keeps_play s₁
          split
          · next heq' =>
              rw [heq'] at hp
              exact hs.trans hks.wiring hp
          · next s₂ heq' =>
              rw [heq'] at hp hkp
              exact (hs.trans hks.wiring hp).trans (hks.trans hkp).wiring (asks_consume s₂ data)

/-- A question is a request of its own. -/
theorem asks_query {α : Type} {f : Engine → Nat → Engine × α}
    (hf : ∀ e k, Engine.Asks k e (f e k).1) : Asks s (s.query f).1 :=
  Asks.withLive fun h _ => hf s.host.engine h.id

theorem asks_duration (s : Stage) : Asks s s.duration.1 :=
  asks_query fun _ _ => .one (c := .duration) rfl rfl

theorem asks_position (s : Stage) : Asks s s.position.1 :=
  asks_query fun _ _ => .one (c := .position) rfl rfl

theorem asks_done {α : Type} {x : Stage × Except Error α} (hx : Asks s x.1) : Asks s (done x).1 :=
  hx

theorem asks_orFalse {x : Stage × Except Error Bool} (hx : Asks s x.1) : Asks s (orFalse x).1 := by
  rcases x with ⟨s', _ | _⟩ <;> exact hx

/-- The bitrate limit, if the time has come. -/
theorem asks_limit (c : Bool) (limit : Single) (s : Stage) :
    Engine.Asks h.id s.host.engine
      (if c then s.onHost (·.tell (h.setBitrateLimit · limit)) else s).host.engine := by
  split
  · exact Engine.asks_change (c := .setBitrateLimit)
  · exact .refl _ _

theorem asks_share (s : Stage) (queue : Nat) : Asks s (s.share queue) := by
  simp only [share]
  split <;> exact .inl rfl

/-- A frame is grabbed, and may be copied. -/
theorem asks_poll (a : Acquisition) (image : Image) (e : Engine) (k : Nat) :
    Engine.Asks k e (a.poll image e k).engine := by
  have hg := Engine.asks_grab (e := e) (k := k)
  have hr := a.outcome_poll image e k
  generalize a.poll image e k = r at hr
  cases hr with
  | idle => exact hg
  | overflow => exact hg
  | frame image' size resized copied =>
      rcases copied with rfl | ⟨surface, rfl⟩
      · exact hg
      · exact hg.trans (Engine.asks_change (c := .blitImage))

/-- A look for a frame, and the limit that the first one brings. -/
theorem asks_pull (h : Handle) (s : Stage) :
    Engine.Asks h.id s.host.engine (pull h s).1.host.engine := by
  have hpoll := asks_poll s.session.frames s.session.image s.host.engine h.id
  simp only [pull]
  split
  · split
    · simpa only [onHost, modify, Host.engine_launch, Host.engine_setEngine] using hpoll
    · simpa only [onHost, modify, Host.engine_launch, Host.engine_setEngine] using hpoll
    · refine Engine.Asks.trans ?_ (asks_limit _ _ _)
      simpa only [onHost, modify, Host.engine_launch, Host.engine_setEngine] using hpoll
  · exact .refl _ _

/-- After it was brought up, a session that is started only makes requests for its pipeline. -/
theorem start_spec (s : Stage) : Keeps s.bringUp.1 s.start.1 ∧ Asks s.bringUp.1 s.start.1 := by
  simp only [start]
  split
  · next heq =>
      rw [heq]
      exact ⟨.refl _, .refl _⟩
  · next s₁ heq =>
      rw [heq]
      by_cases hu : s₁.session.config.playback.uri.isEmpty = true
      · simp only [hu, if_true]
        exact ⟨.refl _, .refl _⟩
      simp only [hu, Bool.false_eq_true, if_false]
      have hk := keeps_setupWith s₁ (s₁.session.config.decoding s₁.session.config.playback.uri
        s₁.session.config.playback.videoIndex s₁.session.config.playback.audioIndex)
      have ha := asks_setupWith s₁ (s₁.session.config.decoding s₁.session.config.playback.uri
        s₁.session.config.playback.videoIndex s₁.session.config.playback.audioIndex)
      split
      · next heq' =>
          change s₁.setupWith _ = _ at heq'
          rw [heq'] at hk ha
          exact ⟨hk, ha⟩
      · next s₂ heq' =>
          change s₁.setupWith _ = _ at heq'
          rw [heq'] at hk ha
          exact ⟨hk.trans (keeps_play s₂), ha.trans hk.wiring (asks_play s₂)⟩

/-- Every command that neither takes anything from the host nor gives anything back. -/
theorem asks_exec (s : Stage) (c : Command) (h₁ : c ≠ .bringUp) (h₂ : c ≠ .start)
    (h₃ : c ≠ .destroy) : Asks s (c.exec s).1 := by
  cases c with
  | share queue => exact asks_share s queue
  | bringUp => exact absurd rfl h₁
  | setup uri video audio => exact asks_setupWith s _
  | setupWith d => exact asks_setupWith s d
  | setupEncoding enc => exact asks_setupEncoding s enc
  | play => exact asks_play s
  | pause => exact asks_done (asks_transport s .pause)
  | stop => exact asks_done (asks_transport s .stop)
  | close => exact asks_close s
  | start => exact absurd rfl h₂
  | consume data => exact asks_consume s data
  | consumeSized size data => exact asks_consumeSized s size data
  | duration => exact asks_done (asks_duration s)
  | position => exact asks_done (asks_position s)
  | isPlaying => exact asks_orFalse (asks_query fun _ _ => .one (c := .isPlaying) rfl rfl)
  | isLoaded => exact asks_orFalse (asks_query fun _ _ => .one (c := .isLoaded) rfl rfl)
  | setPosition seconds => exact Asks.changeLive fun h _ => Engine.asks_change (c := .setPosition)
  | setBaseTime time => exact Asks.changeLive fun h _ => Engine.asks_change (c := .setBaseTime)
  | setVolume volume => exact Asks.changeLive fun h _ => Engine.asks_change (c := .setVolume)
  | setBitrateLimit limit => exact Asks.changeLive fun h _ => asks_limit _ _ s
  | setLooping looping => exact .inl rfl
  | observe topic label program => exact .inl rfl
  | destroy => exact absurd rfl h₃

end Stage
end MediaHost
