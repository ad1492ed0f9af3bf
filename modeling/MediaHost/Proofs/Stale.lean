import MediaHost.Proofs.Unasked

/-!
# Proofs — Stale

What becomes of an event that was queued before a setup and is delivered after it.  A setup
starts the account over and makes the binding forget what it was told, but leaves the queue
alone; and as long as the binding is registered, the delivery counts the event and lets it act
on the new media (`stale_event_untouched_iff`).
-/

namespace MediaHost

/-- What queued work may make of a session: it may be stopped, its account may grow, and its
observers change. -/
structure Session.Ages (x x' : Session) : Prop where
  pipeline : x'.pipeline = x.pipeline
  looping : x'.status.looping = x.status.looping
  destroyed : x'.phase.isDestroyed = x.phase.isDestroyed
  phase : x'.phase = x.phase ∨ x'.phase = .stopped
  counts : ∀ e, x.health.count e ≤ x'.health.count e

theorem Session.Ages.trans {x y z : Session} (h₁ : Ages x y) (h₂ : Ages y z) : Ages x z where
  pipeline := h₂.pipeline.trans h₁.pipeline
  looping := h₂.looping.trans h₁.looping
  destroyed := h₂.destroyed.trans h₁.destroyed
  phase := by
    rcases h₂.phase with h | h
    · rw [h]
      exact h₁.phase
    · exact .inr h
  counts e := Nat.le_trans (h₁.counts e) (h₂.counts e)

theorem Stage.Stirred.ages {s s' : Stage} (h : s.Stirred s') :
    Session.Ages s.session s'.session where
  pipeline := h.pipeline_eq
  looping := by
    rcases h.status with heq | ⟨-, heq⟩ <;> rw [heq]
  destroyed := by
    rcases h.status with heq | ⟨hconf, heq⟩
    · rw [Session.phase, Session.phase, heq]
    · rw [Session.phase, heq, Phase.isDestroyed_of_isConfigured hconf]
      rfl
  phase := by
    rcases h.status with heq | ⟨-, heq⟩
    · exact .inl (congrArg Status.phase heq)
    · exact .inr (congrArg Status.phase heq)
  counts := by
    obtain ⟨_, _, hcounts, hs⟩ := h.session
    rw [hs]
    exact hcounts

namespace World
variable {w w' : World} {i : Nat} {x : Session}

/-! ### Queued work and one session -/

theorem phase_stopFailed (hx : w.sessions.get? i = some x) (hc : x.phase.isConfigured = true) :
    ∃ x', (stopFailed i w).sessions.get? i = some x' ∧ x'.phase = .stopped := by
  have hstop : ∀ a : World, a.sessions = w.sessions →
      ∃ x', (a.modifySession i fun y =>
          { y with status := { y.status with phase := .stopped } }).sessions.get? i = some x' ∧
        x'.phase = .stopped := by
    intro a ha
    refine ⟨{ x with status := { x.status with phase := .stopped } }, ?_, rfl⟩
    rw [get?_modifySession, if_pos rfl, ha, hx]
    rfl
  simp only [stopFailed, hx, hc, if_true]
  split
  · exact hstop _ rfl
  · exact hstop _ rfl

theorem Leads.ages (hl : Leads w w') (hx : w.sessions.get? i = some x) :
    ∃ x', w'.sessions.get? i = some x' ∧ Session.Ages x x' := by
  have hs : w.stage? i = some ⟨i, x, w.host⟩ := stage?_eq_some.mpr ⟨rfl, hx, rfl⟩
  obtain ⟨s', hs', hstirred⟩ := hl.stirred hs
  exact ⟨s'.session, (stage?_eq_some.mp hs').2.1, hstirred.ages⟩

/-! ### An event that is delivered -/

section
variable {d : Drain} (hd : ∀ w q, Leads w (d w q).1)
include hd

/-- A session that is told of an event counts it. -/
theorem react_counts (hx : w.sessions.get? i = some x) (e : Event) :
    ∃ x', (react d i e w).sessions.get? i = some x' ∧ Session.Ages x x' ∧
      x.health.count e < x'.health.count e := by
  -- the event is counted first; whatever follows takes nothing away from the account
  have hleads : Leads (w.modifySession i fun y => { y with health := y.health.record e })
      (react d i e w) := by
    cases e with
    | finished => exact (leads_notify hd i _ _).trans (.one (.loopBack _ i))
    | failed message =>
        exact .more (.note _ rfl) (.more (.stopFailed _ i) (leads_notify hd i _ _))
    | quality report => exact leads_notify hd i _ _
  have hcounted :
      (w.modifySession i fun y => { y with health := y.health.record e }).sessions.get? i =
        some { x with health := x.health.record e } := by
    rw [get?_modifySession, if_pos rfl, hx]
    rfl
  obtain ⟨x', hx', ha⟩ := hleads.ages hcounted
  have haged : Session.Ages x { x with health := x.health.record e } :=
    ⟨rfl, rfl, rfl, .inl rfl, fun e' => x.health.count_le_record e e'⟩
  refine ⟨x', hx', haged.trans ha, ?_⟩
  have hle := ha.counts e
  change (x.health.record e).count e ≤ _ at hle
  rw [Health.count_record] at hle
  omega

/-- A session that is told of an error is stopped, if media is set up. -/
theorem react_stops (hx : w.sessions.get? i = some x) (hc : x.phase.isConfigured = true)
    (message : String) :
    ∃ x', (react d i (.failed message) w).sessions.get? i = some x' ∧ x'.phase = .stopped := by
  generalize hw₁ : (w.modifySession i fun y => { y with health := y.health.recordError }) = w₁
  have hx₁ : (w₁.note (.pipelineFailed (nameOf i w₁) message)).sessions.get? i =
      some { x with health := x.health.recordError } := by
    rw [← hw₁]
    change (w.modifySession i _).sessions.get? i = _
    rw [get?_modifySession, if_pos rfl, hx]
    rfl
  obtain ⟨y, hy, hstopped⟩ := phase_stopFailed hx₁ hc
  have hl : Leads (stopFailed i (w₁.note (.pipelineFailed (nameOf i w₁) message)))
      (react d i (.failed message) w) := by
    rw [← hw₁]
    exact leads_notify hd i _ _
  obtain ⟨x', hx', ha⟩ := hl.ages hy
  refine ⟨x', hx', ?_⟩
  rcases ha.phase with h | h
  · rw [h, hstopped]
  · exact h

/-- A session that is told of the end of media that loops goes back to its start. -/
theorem react_seeks (hx : w.sessions.get? i = some x) (hloop : x.status.looping = true)
    (hdes : x.phase.isDestroyed = false) {h : Handle} (hp : x.pipeline = some h) {p : Pipeline}
    (hget : (react d i .finished w).host.engine.pipelines.get? h.id = some p) :
    p.position = .zero := by
  -- the observers come before the return to the start, and leave session and pipeline alone
  generalize hw₁ : (w.modifySession i fun y => { y with health := y.health.recordFinish }) = w₁
  have hx₁ : w₁.sessions.get? i = some { x with health := x.health.recordFinish } := by
    rw [← hw₁, get?_modifySession, if_pos rfl, hx]
    rfl
  obtain ⟨y, hy, ha⟩ := (leads_notify hd i (.event .finished) w₁).ages hx₁
  have hyp : y.pipeline = some h := ha.pipeline.trans hp
  have hyl : (y.status.looping && !y.phase.isDestroyed) = true := by
    rw [ha.looping, ha.destroyed, Bool.and_eq_true, Bool.not_eq_true']
    exact ⟨hloop, hdes⟩
  have heq : react d i .finished w = loopBack i (notify d i (.event .finished) w₁) := by
    rw [← hw₁]
    rfl
  rw [heq] at hget
  simp only [loopBack, hy, hyp, hyl, if_true] at hget
  have hal := Host.alters_tell (h := (notify d i (.event .finished) w₁).host)
    (g := (·.setPosition h.id .zero)) (Engine.alters_setPosition .zero)
  change ((notify d i (.event .finished) w₁).host.tell _).engine.pipelines.get? h.id = _ at hget
  rw [hal.pipeline, if_pos rfl] at hget
  obtain ⟨q, -, rfl⟩ := Option.map_eq_some_iff.mp hget
  rfl

end

end World

/-! ### What a setup leaves queued -/

namespace Host
variable {h : Host} {q : Nat} {job : Job}

theorem pending_signal (hj : job ∈ (h.queue q).pending) (c : Callback) :
    job ∈ ((h.signal c).queue q).pending := by
  simp only [signal]
  split
  · exact hj
  · next b _ =>
      simp only [submit, modifyQueue, queue, Table.get?_set]
      split
      · next hq =>
          change job ∈ ((h.queue b.queue).submit _).pending
          rw [hq]
          simp only [EventQueue.submit]
          split
          · exact hj
          · exact List.mem_append_left _ hj
      · exact hj

theorem pending_signalAll (hj : job ∈ (h.queue q).pending) (cs : List Callback) :
    job ∈ ((h.signalAll cs).queue q).pending := by
  simp only [signalAll]
  induction cs generalizing h with
  | nil => exact hj
  | cons c cs ih => exact ih (pending_signal hj c)

theorem pending_launch (hj : job ∈ (h.queue q).pending) (cs : List Callback) :
    job ∈ ((h.launch cs).queue q).pending := by
  simp only [launch]
  split
  · exact pending_signalAll hj cs
  · exact hj

theorem pending_request (hj : job ∈ (h.queue q).pending) (f : Engine → Engine × List Callback) :
    job ∈ ((h.request f).queue q).pending :=
  pending_launch (h := h.setEngine (f h.engine).1) hj (f h.engine).2

end Host

namespace Stage
variable {s : Stage} {q : Nat} {job : Job}

theorem queues_closeMedia (h : Handle) (s : Stage) :
    (closeMedia h s).host.queues = s.host.queues := by
  have hm : (hasMedia h s).1.host.queues = s.host.queues := by
    simp only [hasMedia]
    by_cases hl : (s.host.engine.isLoaded h.id).2 = true
    · simp only [hl, if_true]
      rfl
    · simp only [hl]
      rfl
  simp only [closeMedia]
  split
  · exact hm
  · exact hm

theorem queues_resetStream (s : Stage) : s.resetStream.host.queues = s.host.queues := by
  simp only [resetStream]
  cases s.session.token with
  | none => rfl
  | some t =>
      simp only [onHost, modify]
      split <;> rfl

theorem pending_decode (hj : job ∈ (s.host.queue q).pending) (h : Handle) (d : Decoding) :
    job ∈ ((decode h d s).host.queue q).pending := by
  simp only [decode, Host.queue]
  rw [queues_resetStream]
  split
  · exact Host.pending_request hj _
  · exact hj

theorem pending_report (hj : job ∈ (s.host.queue q).pending) (d : Decoding) :
    job ∈ ((report d s).host.queue q).pending := by
  simp only [report]
  split
  · exact Host.pending_signal hj _
  · exact hj

/-- A setup discards nothing that is queued. -/
theorem pending_exec {c : Command} (hc : c.isSetup = true) (hj : job ∈ (s.host.queue q).pending) :
    job ∈ ((c.exec s).1.host.queue q).pending := by
  have hclose : ∀ h, job ∈ ((closeMedia h s).host.queue q).pending := by
    intro h
    simp only [Host.queue]
    rwa [queues_closeMedia]
  have hwith : ∀ d, job ∈ ((s.setupWith d).1.host.queue q).pending := by
    intro d
    rw [setupWith_eq]
    simp only [changeLive, withLive]
    split
    · exact hj
    · next h _ => exact pending_report (pending_decode (hclose h) h d) d
  cases c with
  | setup uri video audio => exact hwith _
  | setupWith d => exact hwith d
  | setupEncoding enc =>
      change job ∈ ((s.setupEncoding enc).1.host.queue q).pending
      simp only [setupEncoding]
      split
      · exact hj
      simp only [changeLive, withLive]
      split
      · exact hj
      · next h _ =>
          simp only [Host.queue, queues_resetStream]
          exact hclose h
  | _ => cases hc

/-- A setup that succeeds starts the account over, and leads to `configured`. -/
theorem renewed_exec {c : Command} (hc : c.isSetup = true) (hok : (c.exec s).2 = .ok ()) :
    (c.exec s).1.session.health = {} ∧ (c.exec s).1.session.phase = .configured := by
  have hwith : ∀ d, (s.setupWith d).2 = .ok () →
      (s.setupWith d).1.session.health = {} ∧ (s.setupWith d).1.session.phase = .configured := by
    intro d hok
    rw [setupWith_eq] at hok ⊢
    simp only [changeLive, withLive] at hok ⊢
    split at hok
    · cases hok
    · next h _ =>
        have hreport : ∀ a, (report d a).session = a.session := by
          intro a
          simp only [report]
          split <;> rfl
        simp only [hreport]
        exact ⟨rfl, congrArg Status.phase (status_decode h d _)⟩
  cases c with
  | setup uri video audio => exact hwith _ hok
  | setupWith d => exact hwith d hok
  | setupEncoding enc =>
      change (s.setupEncoding enc).2 = _ at hok
      change (s.setupEncoding enc).1.session.health = _ ∧
        (s.setupEncoding enc).1.session.phase = _
      simp only [setupEncoding] at hok ⊢
      split at hok
      · cases hok
      · next he =>
          rw [if_neg he]
          simp only [changeLive, withLive] at hok ⊢
          split at hok
          · cases hok
          · exact ⟨rfl, congrArg Status.phase (status_resetStream _)⟩
  | _ => cases hc

/-- Neither the session's phase nor its account nor its pipeline changed. -/
structure Untouched (s s' : Stage) : Prop where
  phase : s'.session.phase = s.session.phase
  health : s'.session.health = s.session.health
  pipeline : ∀ h, s.session.pipeline = some h →
    s'.host.engine.pipelines.get? h.id = s.host.engine.pipelines.get? h.id

/-- The event was counted; an error stopped the session and its pipeline, and the end of media
that loops took it back to its start. -/
structure Harmed (e : Event) (s s' : Stage) : Prop where
  counted : s.session.health.count e < s'.session.health.count e
  stopped : ∀ message, e = .failed message → s.session.phase.isConfigured = true →
    s'.session.phase = .stopped ∧
      ∀ h p, s.session.pipeline = some h → s'.host.engine.pipelines.get? h.id = some p →
        p.playing = false ∧ p.playRequested = false
  rewound : e = .finished → s.session.status.looping = true →
    ∀ h p, s.session.pipeline = some h → s'.host.engine.pipelines.get? h.id = some p →
      p.position = .zero

end Stage

namespace World
variable {w w₁ w₂ : World} {i t : Nat} {s s₂ : Stage}

/-- A world at any later time, also while queued work is being run. -/
inductive Later (w : World) : World → Prop
  | refl : Later w w
  | action {w₁ : World} (h : Later w w₁) (a : Action) : Later w (w₁.apply a)
  /-- A tick that has looked for a frame, and has not run the queue yet. -/
  | look {w₁ : World} (h : Later w w₁) (i : Nat) : Later w (w₁.act i (·.withLive Stage.pull)).1
  | effect {w₁ w₂ : World} (h : Later w w₁) (he : Effect w₁ w₂) : Later w w₂

/-- At any later time the world is sound, and a number still stands for its owner. -/
theorem Later.spec (hl : Later w w₂) (hw : w.Sound) {target : Target}
    (ht : w.books.ledger.Belongs t target) :
    w₂.Sound ∧ w₂.books.ledger.Belongs t target := by
  induction hl with
  | refl => exact ⟨hw, ht⟩
  | action _ a ih =>
      have hs := ih.1.apply a
      exact ⟨hs.sound, hs.belongs ih.1 ih.2⟩
  | look _ i ih =>
      have hs := ih.1.look i
      exact ⟨hs.sound, hs.belongs ih.1 ih.2⟩
  | effect _ he ih =>
      obtain ⟨hbooks, hsound⟩ := Quiet.sound ih.1 (he.quiet ih.1.distinct)
      exact ⟨hsound, hbooks ▸ ih.2⟩

/-- A session that is told of an event does not stay as it was. -/
theorem harmed_react (hw : w.Sound) (hs : w.stage? i = some s) (e : Event) (n : Nat) :
    ∃ s', (react (drainTo n) i e w).stage? i = some s' ∧ Stage.Harmed e s s' := by
  have hd := leads_drainTo n
  obtain ⟨hi, hget, hh⟩ := stage?_eq_some.mp hs
  obtain ⟨x', hx', ha, hcount⟩ := react_counts hd hget e
  have hsound := ((leads_react hd i e w).sound hw).2
  refine ⟨⟨i, x', (react (drainTo n) i e w).host⟩, stage?_eq_some.mpr ⟨rfl, hx', rfl⟩, hcount,
    ?_, ?_⟩
  · rintro message rfl hc
    obtain ⟨y, hy, hstop⟩ := react_stops hd hget hc message
    obtain rfl : y = x' := Option.some.inj (hy.symm.trans hx')
    refine ⟨hstop, fun h p hp hgetp => ?_⟩
    have hst : (react (drainTo n) i (.failed message) w).stage? i =
        some ⟨i, y, (react (drainTo n) i (.failed message) w).host⟩ :=
      stage?_eq_some.mpr ⟨rfl, hy, rfl⟩
    refine (hsound.coupled hst h p (ha.pipeline.trans hp) hgetp).idle ?_
    change y.phase ≠ _
    rw [hstop]
    simp
  · rintro rfl hloop h p hp hgetp
    obtain ⟨t, hwir⟩ := hw.wiring_of_pipeline hs hp
    exact react_seeks hd hget hloop (Stage.live_of_up hwir).1 hp hgetp

/-- A delivery to a number that still stands for the session is not without effect. -/
theorem harmed_deliver (hw : w.Sound) (hs : w.stage? i = some s)
    (ht : w.books.ledger.Belongs t (.session i)) (hr : w.host.arena.resolve t ≠ none) (q : Nat)
    (e : Event) (n : Nat) :
    ∃ s', (runJob (drainTo n) q (.deliver t e) w).1.stage? i = some s' ∧
      Stage.Harmed e s s' := by
  obtain ⟨b, hb⟩ := Option.ne_none_iff_exists'.mp hr
  have htarget : b.target = .session i := by
    obtain ⟨r, hget⟩ := ht
    exact congrArg Prod.fst
      (Option.some.inj ((Host.bindings_of_resolve hb).symm.trans hget))
  have hrun : (runJob (drainTo n) q (.deliver t e) w).1 = react (drainTo n) i e w := by
    simp only [runJob, hb, tell, htarget]
  rw [hrun]
  exact harmed_react hw hs e n

/-- An event queued before a setup is still queued after it, and its binding still registered,
while the account has been started over.  Whenever it is delivered after that, the session and
its new media stay untouched exactly if the binding is no longer registered, as the session was
destroyed meanwhile; otherwise the event is counted, an error stops the new media, and an end
takes it back to its start. -/
theorem stale_event_untouched_iff (hw : w.Reachable) (hs : w.stage? i = some s)
    (ht : s.session.token = some t) {c : Command} (hc : c.isSetup = true)
    (hok : (w.act i c.exec).2 = some (.ok ())) {q : Nat} {e : Event}
    (hj : .deliver t e ∈ (w.host.queue q).pending) :
    (∃ s₁, (w.act i c.exec).1.stage? i = some s₁ ∧ s₁.session.phase = .configured ∧
      s₁.session.health = {} ∧ .deliver t e ∈ (s₁.host.queue q).pending ∧
      (s₁.host.arena.resolve t).isSome = true) ∧
    ∀ w₂ s₂, Later (w.act i c.exec).1 w₂ → w₂.stage? i = some s₂ → ∀ n,
      ∃ s₃, (runJob (drainTo n) q (.deliver t e) w₂).1.stage? i = some s₃ ∧
        (Stage.Untouched s₂ s₃ ↔ w₂.host.arena.resolve t = none) ∧
        (w₂.host.arena.resolve t ≠ none → Stage.Harmed e s₂ s₃) := by
  have hsound := hw.sound
  have hatt := hsound.attached hs
  obtain ⟨hi, -, hh⟩ := stage?_eq_some.mp hs
  obtain ⟨h, hwir⟩ := hatt.of_token ht
  have hact : w.act i c.exec = (w.put (c.exec s).1, some (c.exec s).2) := by
    simp only [World.act, hs]
  rw [hact] at hok ⊢
  have hkeep : Stage.Keeps s (c.exec s).1 := by
    refine Stage.keeps_exec s c ?_ ?_ ?_ <;> (rintro rfl; cases hc)
  obtain ⟨hhealth, hphase⟩ := Stage.renewed_exec hc (Option.some.inj hok)
  obtain ⟨hbooks, hput⟩ := hsound.put_of_keeps hs hkeep
  constructor
  · refine ⟨(c.exec s).1, ?_, hphase, hhealth, Stage.pending_exec hc (hh ▸ hj), ?_⟩
    · rw [stage?_put, if_pos (hkeep.index.trans hi)]
    · rw [Host.isSome_resolve, hkeep.ledger, ← Host.isSome_resolve]
      exact (Stage.attached_up hwir hatt).2
  · intro w₂ s₂ hlater hs₂ n
    have hbelongs : (w.put (c.exec s).1).books.ledger.Belongs t (.session i) := by
      rw [hwir, hi, hh] at hatt
      exact ⟨true, by rw [hbooks]; exact hatt.of_up.2⟩
    -- the number stands for this session whenever the event is delivered
    obtain ⟨hsound₂, hbelongs₂⟩ := hlater.spec hput hbelongs
    by_cases hres : w₂.host.arena.resolve t = none
    · have hrun : runJob (drainTo n) q (.deliver t e) w₂ = (w₂, none) := by
        simp only [runJob, hres]
      rw [hrun]
      exact ⟨s₂, hs₂, iff_of_true ⟨rfl, rfl, fun _ _ => rfl⟩ hres, fun hn => absurd hres hn⟩
    · obtain ⟨s₃, hs₃, hharm⟩ := harmed_deliver hsound₂ hs₂ hbelongs₂ hres q e n
      refine ⟨s₃, hs₃, iff_of_false (fun hu => ?_) hres, fun _ => hharm⟩
      have hcount := hharm.counted
      rw [hu.health] at hcount
      exact Nat.lt_irrefl _ hcount

/-- An encoder whose error is still queued. -/
def staleError : World :=
  slow.run (encoderSetUp ++ [.command 0 .play, .callback ⟨1, .failed "lost"⟩])

/-- What the encoder is set up for next. -/
def nextMedia : Command := .setupEncoding ⟨"next.mp4", ⟨4, 2⟩⟩

/-- A session that was destroyed after the setup is told nothing. -/
theorem destroyed_session_untouched : ∃ s₂ s₃,
    ((staleError.act 0 nextMedia.exec).1.apply (.command 0 .destroy)).stage? 0 = some s₂ ∧
    (runJob (drainTo 1) 1 (.deliver 1 (.failed "lost"))
      ((staleError.act 0 nextMedia.exec).1.apply (.command 0 .destroy))).1.stage? 0 = some s₃ ∧
    Stage.Untouched s₂ s₃ := by
  obtain ⟨s, hs⟩ := Option.isSome_iff_exists.mp (by decide : (staleError.stage? 0).isSome = true)
  have ht : (staleError.stage? 0).bind (·.session.token) = some 1 := by decide
  rw [hs] at ht
  obtain ⟨s₂, hs₂⟩ := Option.isSome_iff_exists.mp (by decide :
    (((staleError.act 0 nextMedia.exec).1.apply (.command 0 .destroy)).stage? 0).isSome = true)
  have hpending : (staleError.host.queue 1).pending = [.deliver 1 (.failed "lost")] := rfl
  have hstale := (stale_event_untouched_iff (w := staleError) ⟨slow, _, fresh_slow, rfl⟩ hs ht
    (c := nextMedia) rfl rfl (q := 1) (e := .failed "lost") (hpending ▸ List.mem_cons_self)).2
  obtain ⟨s₃, hs₃, hiff, -⟩ := hstale _ _ (Later.refl.action (.command 0 .destroy)) hs₂ 1
  exact ⟨s₂, s₃, hs₂, hs₃, hiff.mpr (by decide)⟩

/-- The old error stops the new media, and the new account has it. -/
theorem stale_error_stops_new_media :
    (staleError.host.queue 1).pending = [.deliver 1 (.failed "lost")] ∧
    (staleError.act 0 nextMedia.exec).2 = some (.ok ()) ∧
    ((staleError.act 0 nextMedia.exec).1.stage? 0).map (fun s =>
      (s.session.phase, s.session.health.errors)) = some (.configured, 0) ∧
    ((drain (staleError.act 0 nextMedia.exec).1 1).1.stage? 0).map (fun s =>
      (s.session.phase, s.session.health.errors)) = some (.stopped, 1) :=
  ⟨rfl, rfl, by decide, by decide⟩

end World
end MediaHost
