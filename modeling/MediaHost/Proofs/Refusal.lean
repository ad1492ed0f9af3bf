import MediaHost.Proofs.Standby

/-!
# Proofs — Refusal

What an operation that fails leaves behind.  Every operation of a session but bringing it up
refuses before it changes anything (`Stage.unchanged_exec`).  A session that cannot be brought
up has taken a reference and a number by then, and gives both back; what is left of the attempt
are entries in the engine's own records (`Host.Recovered`).
-/

namespace MediaHost

/-- The bytes of a picture: they can be counted, and there are so many. -/
theorem Size.check_eq_ok {size : Size} {count : Nat} :
    size.check count = .ok () ↔ count = size.bytes ∧ size.bytes < UInt64.size := by
  simp only [check, length]
  split
  · next heq =>
      split at heq
      · cases heq
      · next hlarge => simp [hlarge]
  · next expected heq =>
      split at heq
      · next hsmall =>
          cases heq
          simp [hsmall]
      · cases heq

/-- Too large a number is all that is not returned. -/
theorem Size.check_eq_overflow {size : Size} {count : Nat} :
    size.check count = .error .overflow ↔ UInt64.size ≤ size.bytes := by
  simp only [check, length]
  by_cases hsmall : size.bytes < UInt64.size
  · simp only [if_pos hsmall]
    refine iff_of_false (fun he => ?_) (Nat.not_le.mpr hsmall)
    split at he <;> cases he
  · simp only [if_neg hsmall, true_iff]
    exact Nat.not_lt.mp hsmall

theorem Session.returned_live {x : Session} {e : Error} (h : x.live = .error e) :
    e.isReturned = true := by
  simp only [live] at h
  split at h
  · cases h
    rfl
  · split at h <;> cases h
    rfl

/-! ### Commands -/

namespace Stage
variable {s s' : Stage} {h : Handle} {e : Error}

/-- What needs a live session and fails has not begun. -/
theorem unchanged_withLive {α : Type} {f : Handle → Stage → Stage × α}
    (he : (s.withLive f).2 = .error e) : (s.withLive f).1 = s := by
  simp only [withLive] at he ⊢
  split
  · rfl
  · next h hl =>
      rw [hl] at he
      cases he

/-- With a live pipeline nothing is refused. -/
theorem withLive_of_live {α : Type} (hl : s.session.live = .ok h) (f : Handle → Stage → Stage × α) :
    s.withLive f = ((f h s).1, .ok (f h s).2) := by
  simp only [withLive, hl]

/-- An operation whose answer does not matter fails as it does itself. -/
theorem unchanged_done {α : Type} {x : Stage × Except Error α} (hx : ∀ e, x.2 = .error e → x.1 = s)
    (he : (done x).2 = .error e) : (done x).1 = s := by
  rcases x with ⟨y, r | a⟩
  · exact hx r rfl
  · cases he

theorem unchanged_transport {op : Transport} (he : (s.transport op).2 = .error e) :
    (s.transport op).1 = s :=
  unchanged_withLive he

theorem unchanged_query {α : Type} {f : Engine → Nat → Engine × α}
    (he : (s.query f).2 = .error e) : (s.query f).1 = s :=
  unchanged_withLive he

/-- A size without pictures is refused before the engine is asked. -/
theorem unchanged_setupEncoding {enc : Encoding} (he : (s.setupEncoding enc).2 = .error e) :
    (s.setupEncoding enc).1 = s := by
  simp only [setupEncoding] at he ⊢
  split
  · rfl
  · next hempty =>
      rw [if_neg hempty] at he
      exact unchanged_withLive he

/-- A play that fails moved nothing. -/
theorem unchanged_play (he : s.play.2 = .error e) : s.play.1 = s := by
  simp only [play] at he ⊢
  split
  · next heq =>
      rw [heq] at he
      cases he
  · next heq =>
      rw [heq] at he
      cases he
  · next heq =>
      have hs := unchanged_transport (congrArg Prod.snd heq)
      rwa [heq] at hs

/-- Once it is stopped, closing does not fail any more. -/
theorem unchanged_close (he : s.close.2 = .error e) : s.close.1 = s := by
  cases hl : s.session.live with
  | error e' =>
      have hop : ∀ op, s.transport op = (s, .error e') := fun op => by
        simp only [transport, withLive, hl]
      simp only [close, hop, done]
      split <;> rfl
  | ok h =>
      have hop : ∀ (x : Stage) op, x.session.live = .ok h → ∃ y b, x.transport op = (y, .ok b) :=
        fun x op hx => ⟨_, _, withLive_of_live hx _⟩
      obtain ⟨y, b, hy⟩ := hop s .stop hl
      have hk := keeps_transport s .stop
      rw [hy] at hk
      obtain ⟨z, c, hz⟩ := hop y .close ((Session.live_of_wiring hk.wiring).trans hl)
      obtain ⟨z', c', hz'⟩ := hop s .close hl
      simp only [close, hy, hz, hz', done] at he
      split at he <;> cases he

/-- A picture of the wrong size is refused before the engine has it. -/
theorem unchanged_consume {data : Array UInt8} (he : (s.consume data).2 = .error e) :
    (s.consume data).1 = s := by
  simp only [consume] at he ⊢
  split
  · rfl
  · next h hl =>
      rw [hl] at he
      dsimp only at he
      split
      · rfl
      · next hr =>
          rw [hr] at he
          cases he

/-- Without media that is set up, no picture is taken, whatever its size. -/
theorem consume_idle (hs : s.session.phase.isConfigured = false) (data : Array UInt8) :
    ∃ e, e.isReturned = true ∧ s.consume data = (s, .error e) := by
  cases hl : s.session.live with
  | error e => exact ⟨e, Session.returned_live hl, by simp only [consume, hl]⟩
  | ok h =>
      have hrefused : ∃ e, e.isReturned = true ∧ refusal s.session data.size = .error e := by
        simp only [refusal, hs, Bool.not_false, if_true]
        split
        · exact ⟨_, rfl, rfl⟩
        · exact ⟨_, rfl, rfl⟩
        · split <;> exact ⟨_, rfl, rfl⟩
      obtain ⟨e, hr, he⟩ := hrefused
      exact ⟨e, hr, by simp only [consume, hl, he]⟩

theorem session_resetStream (s : Stage) :
    s.resetStream.session = { s.session with health := {}, frames := {} } := by
  simp only [resetStream]
  split <;> rfl

/-- A session that was set up to encode. -/
theorem setupEncoding_spec {enc : Encoding} (hs : s.setupEncoding enc = (s', .ok ())) :
    ∃ h, s.session.live = .ok h ∧ s'.session =
      { s.session with
        status := ⟨.configured, some .encoding, false⟩
        encoding := some enc
        health := {}
        frames := {} } := by
  simp only [setupEncoding] at hs
  split at hs
  · cases hs
  cases hl : s.session.live with
  | error e => simp [changeLive, withLive, hl] at hs
  | ok h =>
      simp only [changeLive, withLive_of_live hl, Prod.mk.injEq, and_true] at hs
      refine ⟨h, rfl, ?_⟩
      rw [← hs, session_resetStream]
      simp only [modify, onHost, session_closeMedia]

/-- A session that was just set up can play. -/
theorem play_of_configured (hl : s.session.live = .ok h) (hp : s.session.phase = .configured) :
    ∃ s', s.play = (s', .ok ()) ∧ s'.session =
      { s.session with
        status := { s.session.status with phase := .playing }
        frames := s.session.frames.rearm } := by
  have hafter : s.session.phase.after .play = some .playing := by rw [hp]; rfl
  refine ⟨s.play.1, ?_, ?_⟩ <;> simp only [play, transport, withLive_of_live hl, hafter]
  rfl

/-- An encoder that was set up anew plays, and takes a picture of its size. -/
theorem consume_of_setupEncoding {enc : Encoding} {data : Array UInt8}
    (hs : s.setupEncoding enc = (s', .ok ())) (hsize : enc.size.check data.size = .ok ()) :
    ∃ s₂ s₃, s'.play = (s₂, .ok ()) ∧ s₂.consume data = (s₃, .ok ()) := by
  obtain ⟨h, hl, hset⟩ := setupEncoding_spec hs
  obtain ⟨hd, hp⟩ := live_eq_ok.mp hl
  have hl' : s'.session.live = .ok h := by
    rw [hset]
    exact live_eq_ok.mpr ⟨rfl, hp⟩
  obtain ⟨s₂, hplay, hs₂⟩ := play_of_configured hl' (by rw [hset]; rfl)
  have hl₂ : s₂.session.live = .ok h := by
    rw [hs₂, hset]
    exact live_eq_ok.mpr ⟨rfl, hp⟩
  have hrefusal : refusal s₂.session data.size = .ok () := by
    rw [hs₂, hset]
    simp [refusal, Session.phase, Phase.isConfigured, hsize]
  refine ⟨s₂, s₂.onHost (·.tell (·.consume h.id data)), hplay, ?_⟩
  simp only [consume, hl₂, hrefusal]

/-- The setup and the play inside cannot fail where the picture did not, so a failure comes before
them. -/
theorem unchanged_consumeSized {size : Size} {data : Array UInt8}
    (he : (s.consumeSized size data).2 = .error e) : (s.consumeSized size data).1 = s := by
  simp only [consumeSized] at he ⊢
  cases hsize : size.check data.size with
  | error e' => rfl
  | ok u =>
      rw [hsize] at he
      cases henc : s.session.encoding with
      | none =>
          rw [henc] at he
          exact unchanged_consume he
      | some enc =>
          rw [henc] at he
          by_cases hsame : enc.size = size
          · simp only [hsame, if_true] at he ⊢
            exact unchanged_consume he
          simp only [hsame, if_false] at he ⊢
          cases hset : s.setupEncoding { enc with size := size } with
          | mk s₁ r =>
              cases r with
              | error e' =>
                  have hs := unchanged_setupEncoding (congrArg Prod.snd hset)
                  rw [hset] at hs
                  exact hs
              | ok u =>
                  -- nothing is refused any more, so there was no error
                  obtain ⟨s₂, s₃, hplay, hconsume⟩ := consume_of_setupEncoding hset hsize
                  rw [hset] at he
                  simp only [hplay, hconsume] at he
                  cases he

/-- A command that fails has changed nothing, unless it brings the session up first. -/
theorem unchanged_exec {c : Command} (h₁ : c ≠ .bringUp) (h₂ : c ≠ .start)
    (he : (c.exec s).2 = .error e) : (c.exec s).1 = s := by
  cases c with
  | share | isPlaying | isLoaded | setLooping | observe | destroy => cases he
  | bringUp => exact absurd rfl h₁
  | start => exact absurd rfl h₂
  | setup | setupWith => exact unchanged_withLive he
  | setupEncoding enc => exact unchanged_setupEncoding he
  | play => exact unchanged_play he
  | pause | stop => exact unchanged_done (fun _ => unchanged_transport) he
  | close => exact unchanged_close he
  | consume data => exact unchanged_consume he
  | consumeSized size data => exact unchanged_consumeSized he
  | duration => exact unchanged_done (x := s.duration) (fun _ => unchanged_query) he
  | position => exact unchanged_done (x := s.position) (fun _ => unchanged_query) he
  | setPosition | setBaseTime | setVolume | setBitrateLimit => exact unchanged_withLive he

end Stage

/-! ### Bringing a session up -/

/-- What is left of an attempt to use the engine that was given up.  The engine was asked to
start, to make a pipeline and to shut down at most; it remembers the levels it was started with,
and a failure that was in store for it has come.  Nothing else is different. -/
structure Context.Recovered (c c' : Context) : Prop where
  context : c' = { c with engine := c'.engine }
  engine : c'.engine =
    { c.engine with
      failingStarts := c'.engine.failingStarts
      refuseNextCreate := c'.engine.refuseNextCreate
      levels := c'.engine.levels
      history := c'.engine.history }
  failures : c'.engine.failingStarts ≤ c.engine.failingStarts ∧
    (c'.engine.refuseNextCreate = true → c.engine.refuseNextCreate = true)
  levels : c'.engine.levels = c.engine.levels ∨ c'.engine.levels = c.levels
  requests : ∃ rs, c'.engine.history = rs ++ c.engine.history ∧
    ∀ r ∈ rs, r = .startUp ∨ r = .shutDown ∨ r = .call Engine.noPipeline .create

/-- What is left of an attempt to bring a session up: the same on the host, where a number may
have been used up, and notices been given. -/
structure Host.Recovered (a b : Host) : Prop where
  context : Context.Recovered a.context b.context
  bindings : ∀ t, b.arena.resolve t = a.arena.resolve t
  size : b.arena.size = a.arena.size
  numbers : a.arena.next ≤ b.arena.next
  queues : b.queues = a.queues
  inFlight : b.inFlight = a.inFlight
  late : b.late = a.late
  happenings : b.happenings = a.happenings
  notices : ∃ ns, b.notices = a.notices ++ ns

/-- A refusal is spent, and nothing else comes of it. -/
theorem Engine.create_refused {e e' : Engine} {name : String} {callbacks : Callbacks}
    {userdata : Nat} (h : e.create name callbacks userdata = (e', none)) :
    e.refuseNextCreate = true ∧ e' = { e with
      refuseNextCreate := false
      history := .call noPipeline .create :: e.history } := by
  by_cases hr : e.refuseNextCreate = true
  · simp only [create, asked, hr, if_true, Prod.mk.injEq, and_true] at h
    exact ⟨hr, h.symm⟩
  · simp [create, asked, hr] at h

namespace Context
variable {c : Context} {e : Engine}

theorem Recovered.refl (c : Context) : Recovered c c :=
  ⟨rfl, rfl, ⟨Nat.le_refl _, id⟩, .inl rfl, [], rfl, by simp⟩

/-- An engine that does not run when it is held: it could not be started, or was not before. -/
theorem Standby.recovered_inactive (hc : c.Standby) (ha : c.addRef.1.isActive = false) :
    Recovered c c.addRef.1.release.1 := by
  by_cases hr : c.refs = 0
  · have hs := hc.started hr
    by_cases hf : 0 < c.engine.failingStarts
    · have heq : c.addRef.1.release.1 =
          { c with engine := { c.engine with failingStarts := c.engine.failingStarts - 1 } } := by
        obtain ⟨engine, levels, forwardsLog, refs, started⟩ := c
        simp_all [Context.addRef, start, Engine.startUp, Context.release]
      rw [heq]
      exact ⟨rfl, rfl, ⟨Nat.sub_le _ _, id⟩, .inl rfl, [], rfl, by simp⟩
    · simp [Context.addRef, start, Engine.startUp, hr, hf, isActive] at ha
  · have heq : c.addRef.1.release.1 = c := by simp [Context.addRef, Context.release, hr]
    rw [heq]
    exact .refl c

/-- An engine that runs when it is held, and refuses to make a pipeline.  If it runs for that
only, it is shut down again. -/
theorem Standby.recovered_refused (hc : c.Standby) (ha : c.addRef.1.isActive = true)
    {name : String} {callbacks : Callbacks} {userdata : Nat}
    (hcr : c.addRef.1.engine.create name callbacks userdata = (e, none)) :
    Recovered c ({ c.addRef.1 with engine := e } : Context).release.1 := by
  obtain ⟨-, rfl⟩ := Engine.create_refused hcr
  by_cases hr : c.refs = 0
  · have hs := hc.started hr
    by_cases hf : 0 < c.engine.failingStarts
    · simp [Context.addRef, start, Engine.startUp, hr, hf, isActive] at ha
    · have heq : ({ c.addRef.1 with engine := { c.addRef.1.engine with
            refuseNextCreate := false
            history := .call Engine.noPipeline .create :: c.addRef.1.engine.history } } :
              Context).release.1 =
          { c with engine := { c.engine with
              refuseNextCreate := false
              levels := c.levels
              history := .shutDown :: .call Engine.noPipeline .create :: .startUp ::
                c.engine.history } } := by
        have hactive := hc.active
        have hsilent := hc.silent hs
        obtain ⟨engine, levels, forwardsLog, refs, started⟩ := c
        simp_all [Context.addRef, start, Engine.startUp, Context.release, Engine.asked,
          Engine.shutDown]
      rw [heq]
      exact ⟨rfl, rfl, ⟨Nat.le_refl _, fun h => by cases h⟩, .inr rfl,
        [.shutDown, .call Engine.noPipeline .create, .startUp], rfl, by simp⟩
  · have heq : ({ c.addRef.1 with engine := { c.addRef.1.engine with
          refuseNextCreate := false
          history := .call Engine.noPipeline .create :: c.addRef.1.engine.history } } :
            Context).release.1 =
        { c with engine := { c.engine with
            refuseNextCreate := false
            history := .call Engine.noPipeline .create :: c.engine.history } } := by
      obtain ⟨engine, levels, forwardsLog, refs, started⟩ := c
      simp_all [Context.addRef, Context.release]
    rw [heq]
    exact ⟨rfl, rfl, ⟨Nat.le_refl _, fun h => by cases h⟩, .inl rfl,
      [.call Engine.noPipeline .create], rfl, by simp⟩

end Context

/-- A number that is given out and taken back finds nobody, and is not counted. -/
theorem Arena.size_release_register {Target : Type} {a : Arena Target} {q : Nat}
    {target : Target} (hd : a.bindings.Distinct) (hn : a.bindings.get? a.next = none) :
    (((a.register q target).1.release a.next).1).size = a.size := by
  have hget : (a.bindings.set a.next { queue := q, target := target }).get? a.next =
      some { queue := q, target := target } := by simp
  have hnew := Table.count_set_new hn { queue := q, target := target } (·.registered)
  have hold := Table.count_set_old hget { queue := q, target := target, registered := false }
    (·.registered)
  simp only [size, release, register, modify, (hd.set _ _).modify_eq_set hget]
  simp only [Bool.toNat_true, Bool.toNat_false, Nat.add_zero] at hnew hold
  omega

namespace Host
variable {a : Host} {e : Engine}

theorem addRef_eq (h : Host) : h.addRef =
    { h with
      context := h.context.addRef.1
      notices := h.notices ++ h.context.addRef.2.toArray } := by
  simp only [addRef, noteAll_eq]

theorem releaseLease_eq (h : Host) : h.releaseLease {} =
    { h with
      context := h.context.release.1
      notices := h.notices ++ h.context.release.2.toArray } := by
  simp only [releaseLease, Lease.release, noteAll_eq]
  rfl

theorem Recovered.refl (a : Host) : Recovered a a :=
  ⟨.refl _, fun _ => rfl, rfl, Nat.le_refl _, rfl, rfl, rfl, rfl, #[], by simp⟩

/-- An engine that does not start leaves its levels and nothing else. -/
theorem recovered_inactive (ha : a.context.Standby) (hin : a.addRef.context.isActive = false) :
    Recovered a (a.addRef.releaseLease {}) := by
  rw [addRef_eq] at hin ⊢
  rw [releaseLease_eq]
  exact ⟨ha.recovered_inactive hin, fun _ => rfl, rfl, Nat.le_refl _, rfl, rfl, rfl, rfl,
    _, Array.append_assoc⟩

/-- The number given out is taken back, and so is the reference. -/
theorem recovered_refused (ha : a.context.Standby) (hd : a.arena.bindings.Distinct)
    (hn : a.arena.bindings.get? a.arena.next = none)
    (hact : a.addRef.context.isActive = true) {name : String} {callbacks : Callbacks}
    {userdata : Nat} (hcr : a.addRef.engine.create name callbacks userdata = (e, none)) (q : Nat)
    (target : Target) :
    Recovered a ((((a.addRef.register q target).setEngine e).unregister
      a.addRef.arena.next).releaseLease {}) := by
  rw [addRef_eq] at hact hcr ⊢
  rw [releaseLease_eq]
  refine ⟨ha.recovered_refused hact hcr, fun t => ?_, Arena.size_release_register hd hn,
    Nat.le_succ _, rfl, rfl, rfl, rfl, _, Array.append_assoc⟩
  change ((a.arena.register q target).1.release a.arena.next).1.resolve t = a.arena.resolve t
  rw [Arena.resolve_release, Arena.resolve_register]
  split
  · next ht =>
      subst ht
      simp [Arena.resolve, hn]
  · rfl

end Host

/-- A session that cannot be brought up stays as it was, and so does its host. -/
theorem Stage.recovered_bringUp {s : Stage} {e : Error} (hs : s.host.context.Standby)
    (hd : s.host.arena.bindings.Distinct)
    (hn : s.host.arena.bindings.get? s.host.arena.next = none) (he : s.bringUp.2 = .error e) :
    ∃ host, s.bringUp.1 = { s with host := host } ∧ Host.Recovered s.host host := by
  by_cases hdes : s.session.phase.isDestroyed = true
  · simp only [bringUp, hdes, if_true]
    exact ⟨s.host, rfl, .refl _⟩
  by_cases hl : s.session.lease.isSome = true
  · simp [bringUp, hdes, hl] at he
  rw [Bool.not_eq_true] at hdes hl
  by_cases ha : s.host.addRef.context.isActive = true
  · rcases hc : s.bound.engine.create s.session.name .all s.host.addRef.arena.next with
      ⟨e', _ | id⟩
    · exact ⟨_, bringUp_refused hdes hl ha hc, Host.recovered_refused hs hd hn ha hc _ _⟩
    · change s.host.addRef.engine.create _ _ _ = _ at hc
      simp [bringUp, hdes, hl, onHost, Handle.create, Arena.register, ha, hc] at he
  · rw [Bool.not_eq_true] at ha
    exact ⟨_, bringUp_inactive hdes hl ha, Host.recovered_inactive hs ha⟩

namespace World
variable {w w₀ : World} {i : Nat} {s : Stage} {e : Error}

theorem act_eq {α : Type} (hs : w.stage? i = some s) (f : Stage → Stage × α) :
    w.act i f = (w.put (f s).1, some (f s).2) := by
  simp only [act, hs]

/-- An operation that fails was tried on a session that is there. -/
theorem stage_of_act {α : Type} {f : Stage → Stage × α} {a : α} (ha : (w.act i f).2 = some a) :
    ∃ s, w.stage? i = some s ∧ (f s).2 = a := by
  cases hs : w.stage? i with
  | none => simp [act, hs] at ha
  | some s =>
      rw [act_eq hs] at ha
      exact ⟨s, rfl, Option.some.inj ha⟩

/-- A tick that returns an error has not looked for a frame. -/
theorem unchanged_advance (hr : e.isReturned = true)
    (he : (w.advance i).2 = some (.error e)) : (w.advance i).1 = w := by
  have hlook : ∀ e', (w.act i (·.withLive Stage.pull)).2 = some (.error e') →
      (w.act i (·.withLive Stage.pull)).1 = w := by
    intro e' hact
    obtain ⟨s, hs, hf⟩ := stage_of_act hact
    rw [act_eq hs, Stage.unchanged_withLive hf]
    exact put_self hs
  rcases hact : w.act i (·.withLive Stage.pull) with ⟨w', _ | e' | frame⟩
  · simp [advance, hact] at he
  · rw [hact] at hlook
    simp only [advance, hact]
    exact hlook e' rfl
  · -- a look that is too large is not returned, and any other is followed by the drain
    cases frame with
    | overflow =>
        simp only [advance, hact, Option.some.injEq, Except.error.injEq] at he
        rw [← he] at hr
        cases hr
    | idle | frame => simp [advance, hact] at he

/-- In every run: an operation of a session that fails leaves everything exactly as it was,
unless it is to bring the session up; then all sessions stay as they were, and on the host there
is left what `Host.Recovered` says.  A tick that meets a frame too large to count returns no
error, but panics halfway. -/
theorem failures_change_nothing (h₀ : Fresh w₀) (hf : w₀.host.engine.forwardsLog = false)
    (as : List Action) (i : Nat) (e : Error) :
    (∀ c : Command, c ≠ .bringUp → c ≠ .start →
      ((w₀.run as).act i c.exec).2 = some (.error e) →
      ((w₀.run as).act i c.exec).1 = w₀.run as) ∧
    (e.isReturned = true → ((w₀.run as).advance i).2 = some (.error e) →
      ((w₀.run as).advance i).1 = w₀.run as) ∧
    (((w₀.run as).act i Command.bringUp.exec).2 = some (.error e) →
      ((w₀.run as).act i Command.bringUp.exec).1.sessions = (w₀.run as).sessions ∧
      Host.Recovered (w₀.run as).host ((w₀.run as).act i Command.bringUp.exec).1.host) := by
  have hstandby := h₀.standby_run hf as
  have hsound := h₀.sound.run as
  generalize w₀.run as = w at hstandby hsound ⊢
  refine ⟨fun c h₁ h₂ he => ?_, unchanged_advance, fun he => ?_⟩
  · obtain ⟨s, hs, hc⟩ := stage_of_act he
    rw [act_eq hs, Stage.unchanged_exec h₁ h₂ hc]
    exact put_self hs
  · obtain ⟨s, hs, hc⟩ := stage_of_act he
    obtain ⟨hi, hget, hh⟩ := stage?_eq_some.mp hs
    have hd : w.host.arena.bindings.Distinct := Table.distinct_map.mp hsound.books.bindings
    have hn : w.host.arena.bindings.get? w.host.arena.next = none := by
      have hnone := hsound.books.tokens (Nat.le_refl _)
      simpa [World.books, Host.ledger] using hnone
    obtain ⟨host, heq, hrec⟩ := Stage.recovered_bringUp (hh ▸ hstandby) (hh ▸ hd) (hh ▸ hn) hc
    change s.bringUp.1 = _ at heq
    rw [act_eq hs]
    change (w.put s.bringUp.1).sessions = _ ∧ Host.Recovered _ (w.put s.bringUp.1).host
    rw [heq]
    refine ⟨?_, hh ▸ hrec⟩
    simp only [put, hi, Table.set_self hget]

/-- Nothing has happened yet, and the engine will be started with levels. -/
def verbose : World := { host := { context := .new {} {} } }

theorem fresh_verbose : Fresh verbose :=
  ⟨rfl, rfl, rfl, rfl, rfl, rfl, rfl, rfl, rfl, rfl, rfl⟩

/-- A session whose pipeline will not be made. -/
def refusedSession : List Action := [.newSession 0 1 {} (.outline ⟨1, 1⟩), .refuseCreate]

/-- Without a pipeline nothing is played, and the host recovers from the one that is refused. -/
theorem refused_session_recovered :
    ((verbose.run refusedSession).act 0 Command.play.exec).1 = verbose.run refusedSession ∧
    Host.Recovered (verbose.run refusedSession).host
      ((verbose.run refusedSession).act 0 Command.bringUp.exec).1.host := by
  have hplay := failures_change_nothing fresh_verbose rfl refusedSession 0 .notInitialized
  have hup := failures_change_nothing fresh_verbose rfl refusedSession 0
    (.pipelineCreation "session")
  exact ⟨hplay.1 .play nofun nofun rfl, (hup.2.2 rfl).2⟩

/-- The levels that the engine was started with for the session stay with it. -/
theorem refused_session_sets_levels :
    ((verbose.run refusedSession).act 0 Command.bringUp.exec).2 =
      some (.error (.pipelineCreation "session")) ∧
    (verbose.run refusedSession).host.engine.levels = none ∧
    ((verbose.run refusedSession).act 0 Command.bringUp.exec).1.host.engine.levels = some "2" :=
  ⟨rfl, rfl, rfl⟩

end World
end MediaHost
