import MediaHost.Proofs.Neighbours
import MediaHost.Proofs.Tuning

/-!
# Proofs — Looping

What a session does when it is told of the end.  The end is delivered in the midst of a drain, which
may nest others, so the statement is about all moments of a run (`World.Amid`).  At each of them the
end is counted, the observers of the end are called, and only then does the media go back to its
start: when it loops as the session goes by, and so not exactly when it is decoded and loops as
configured (`finish_returns_decoder_iff`).
-/

namespace MediaHost

/-- Media that is to go back to its start: it is being decoded, and configured to loop. -/
def Stage.isLooped (s : Stage) : Bool :=
  s.session.live.isOk && s.session.status.direction = some .decoding &&
    s.session.config.playback.looping

namespace World
variable {w w' w₀ : World} {i q t depth : Nat} {s : Stage} {h : Handle}
  {jobs pre post : List Job} {y : EventQueue Job}

/-! ### Media that is being decoded goes by the configured loop -/

/-- Every session that decodes goes by the configured loop. -/
def Fitted (w : World) : Prop := ∀ i s, w.stage? i = some s → s.panel.Fits

theorem Fitted.of_panel (h : w.Fitted) (hp : ∀ i, w'.panel? i = w.panel? i) : w'.Fitted := by
  intro i s' hs'
  have hpanel := hp i
  rw [panel?_eq hs'] at hpanel
  obtain ⟨s, hs, hsame⟩ := Option.map_eq_some_iff.mp hpanel.symm
  exact hsame ▸ h i s hs

theorem Fitted.apply (h : w.Fitted) (hw : w.Sound) (a : Action) : (w.apply a).Fitted := by
  intro i s' hs'
  cases hs : w.stage? i with
  | none =>
      have hget := (stage?_eq_some.mp hs').2.1
      rcases absent_apply hw (sessions_of_none hs) a with hgone | ⟨q, config, image, -, hnew⟩
      · cases hgone.symm.trans hget
      · have hsession := Option.some.inj (hget.symm.trans hnew)
        intro _ hdir
        simp [Stage.panel, hsession, Session.new] at hdir
  | some s =>
      have hd : a ≠ .drop i := by
        rintro rfl
        rw [World.apply, stage_drop] at hs'
        cases hs'
      obtain ⟨x, hx, hcourse⟩ := panel_apply true hw hs hd (by simp)
      obtain rfl := Option.some.inj (hx.symm.trans hs')
      exact hcourse.fits (h i s hs)

theorem Reachable.fitted (hw : w.Reachable) : w.Sound ∧ w.Fitted := by
  refine hw.induction (P := fun w => w.Sound ∧ w.Fitted) (fun w₀ h₀ => ⟨h₀.sound, ?_⟩)
    fun _ a h => ⟨(h.1.apply a).sound, h.2.apply h.1 a⟩
  intro i s hs
  have hget := (stage?_eq_some.mp hs).2.1
  rw [h₀.sessions] at hget
  cases hget

/-! ### The moments of a run -/

/-- The moments of a run: between its actions, after the look of a tick, when a drain has taken its
batch, and in the midst of queued work. -/
inductive Amid (w₀ : World) : World → Prop
  | run (as : List Action) : Amid w₀ (w₀.run as)
  | look (as : List Action) (i : Nat) : Amid w₀ ((w₀.run as).act i (·.withLive Stage.pull)).1
  | begin {w : World} {q : Nat} {jobs : List Job} {y : EventQueue Job} (h : Amid w₀ w)
      (hb : (w.host.queue q).begin = .batch jobs y) :
      Amid w₀ (w.onHost (·.modifyQueue q fun _ => y))
  | work {w w' : World} (h : Amid w₀ w) (hl : Leads w w') (hw : Wanes w w') : Amid w₀ w'

/-- What is known of a world at every moment: what waits for a session waits on its queue, but not
while that is being drained, and sessions that decode go by the configured loop. -/
structure Poised (w : World) : Prop where
  posted : ∀ {i s}, w.stage? i = some s → w.Posted i s.session.token s.session.queue
  drained : ∀ {i s}, w.stage? i = some s →
    (w.host.queue s.session.queue).running.isSome = true → s.mail = []
  fitted : w.Fitted

theorem Tidy.poised (hw : w.Tidy) (hf : w.Fitted) : w.Poised := by
  refine ⟨fun hs => hw.posted hs, fun {i s} hs hbusy => ?_, hf⟩
  rw [hw.host.idle s.session.queue] at hbusy
  cases hbusy

/-- A session that is there after some work was there before, under the same number and with the
same queue. -/
theorem Wanes.before (hw : Wanes w w') {s' : Stage} (hs' : w'.stage? i = some s') :
    ∃ s, w.stage? i = some s ∧ s'.session.token = s.session.token ∧
      s'.session.queue = s.session.queue := by
  have haddr := hw.address i
  simp only [World.address, (stage?_eq_some.mp hs').2.1, Option.map_some] at haddr
  obtain ⟨x, hx, hxa⟩ := Option.map_eq_some_iff.mp haddr.symm
  obtain ⟨htok, hqueue⟩ := Prod.mk.inj hxa
  exact ⟨⟨i, x, w.host⟩, stage?_eq_some.mpr ⟨rfl, hx, rfl⟩, htok.symm, hqueue.symm⟩

theorem Poised.work (h : w.Poised) (hl : Leads w w') (hw : Wanes w w') : w'.Poised := by
  refine ⟨fun {i s'} hs' => ?_, fun {i s'} hs' hbusy => ?_, h.fitted.of_panel hl.panel⟩
  all_goals obtain ⟨s, hs, htok, hqueue⟩ := hw.before hs'
  · rw [htok, hqueue]
    exact (h.posted hs).work hl hw
  · rw [hqueue, (hw.host.queue s.session.queue).running] at hbusy
    have hempty := h.drained hs hbusy
    rw [← mail_of_stage hs] at hempty
    rw [← mail_of_stage hs', htok, hqueue]
    refine mail_eq_nil.mpr fun u e hu hm => ?_
    exact mail_eq_nil.mp hempty u e hu ((hw.host.queue s.session.queue).letters hm)

theorem Poised.begin (h : w.Poised) (hb : (w.host.queue q).begin = .batch jobs y) :
    (w.onHost (·.modifyQueue q fun _ => y)).Poised := by
  have hback : ∀ {i s'}, (w.onHost (·.modifyQueue q fun _ => y)).stage? i = some s' →
      ∃ s, w.stage? i = some s ∧ s'.session = s.session := by
    intro i s' hs'
    obtain ⟨hi, hget, -⟩ := stage?_eq_some.mp hs'
    exact ⟨{ s' with host := w.host }, stage?_eq_some.mpr ⟨hi, hget, rfl⟩, rfl⟩
  refine ⟨fun {i s'} hs' => ?_, fun {i s'} hs' hbusy => ?_, h.fitted.of_panel fun i => ?_⟩
  · obtain ⟨s, hs, hsession⟩ := hback hs'
    rw [hsession]
    exact (h.posted hs).begin hb
  · obtain ⟨s, hs, hsession⟩ := hback hs'
    rw [hsession] at hbusy
    rw [← mail_of_stage hs', hsession]
    simp only [onHost, Host.mail, Host.queue_modifyQueue_eq] at hbusy ⊢
    split
    · rw [(EventQueue.batch_begin hb).2.2]
      rfl
    · next hq =>
        rw [if_neg hq] at hbusy
        exact (mail_of_stage hs).trans (h.drained hs hbusy)
  · exact panel?_congr rfl fun _ => rfl

/-- At every moment of a run the world is poised. -/
theorem Amid.poised (h₀ : Fresh w₀) (hnew : w₀.host.queues = {}) (h : Amid w₀ w) : w.Poised := by
  have hrun : ∀ as, (w₀.run as).Tidy ∧ (w₀.run as).Fitted := fun as =>
    ⟨(h₀.tidy hnew).run as, (Reachable.fitted ⟨w₀, as, h₀, rfl⟩).2⟩
  induction h with
  | run as => exact (hrun as).1.poised (hrun as).2
  | look as i => exact ((hrun as).1.look i).poised ((hrun as).2.of_panel fun j => panel?_look _ j i)
  | begin h hb ih => exact ih.begin hb
  | work h hl hw ih => exact ih.work hl hw

/-! ### The end is delivered -/

/-- The moment in a drain when `pre` was run, and the next piece of work is taken. -/
def midway (depth q : Nat) (y : EventQueue Job) (pre : List Job) (w : World) : World :=
  (runBatch (drainTo depth) q pre (w.onHost (·.modifyQueue q fun _ => y))).onHost
    (·.modifyQueue q (·.next))

/-- The end is counted, and then the observers of the end are called. -/
def announced (depth i : Nat) (w : World) : World :=
  notify (drainTo depth) i (.event .finished)
    (w.modifySession i fun s => { s with health := s.health.recordFinish })

/-- The engine is asked to go back to the start. -/
def returned (h : Handle) (w : World) : World := w.onHost (·.tell (·.setPosition h.id .zero))

/-- The end is announced, and then the engine is asked to go back, if the media is to. -/
def ended (depth i : Nat) (h : Handle) (back : Bool) (w : World) : World :=
  if back then (w.announced depth i).returned h else w.announced depth i

theorem returned_ne (h : Handle) (w : World) : w.returned h ≠ w := by
  intro heq
  have hlength := congrArg (·.host.engine.history.length) heq
  exact absurd hlength (Nat.succ_ne_self _)

theorem runBatch_append (d : Drain) (q : Nat) (pre post : List Job) (w : World) :
    runBatch d q (pre ++ post) w = runBatch d q post (runBatch d q pre w) := by
  induction pre generalizing w with
  | nil => rfl
  | cons job rest ih =>
      simp only [List.cons_append, runBatch]
      split <;> exact ih _

/-- Every piece of work of a batch is run at a moment of the run, while the queue is being
drained. -/
theorem Amid.midway (hm : Amid w₀ w) (hb : (w.host.queue q).begin = .batch jobs y)
    (depth : Nat) (pre : List Job) :
    Amid w₀ (w.midway depth q y pre) ∧
      ((w.midway depth q y pre).host.queue q).running.isSome = true ∧
      Wanes (w.onHost (·.modifyQueue q fun _ => y)) (w.midway depth q y pre) := by
  have hleads : ∀ v, Leads v (runBatch (drainTo depth) q pre v) :=
    lenient_leads.runBatch (fun v => .one (.queue v q _)) fun job _ =>
      lenient_leads.runJob reacts_leads (leads_drainTo depth) q job
  have hnext : ∀ v, Wanes v (v.onHost (·.modifyQueue q (·.next))) := fun v =>
    .of_host (Host.wanes_modifyQueue v.host q fun _ => ⟨Option.isSome_map, id, id⟩)
  have hwanes : ∀ v, Wanes v (runBatch (drainTo depth) q pre v) :=
    lenient_wanes.runBatch hnext fun job _ =>
      lenient_wanes.runJob reacts_wanes (wanes_drainTo depth) q job
  have hw := lenient_wanes.trans (hwanes (w.onHost (·.modifyQueue q fun _ => y))) (hnext _)
  refine ⟨.work (.begin hm hb) ((hleads _).trans (.one (.queue _ q _))) hw, ?_, hw⟩
  rw [World.midway, (hw.host.queue q).running]
  simp only [onHost, Host.queue_modifyQueue, (EventQueue.batch_begin hb).2.2, Option.isSome_some]

/-- An event for a session waits on the session's queue. -/
theorem Poised.queue (hw : w.Poised) (hb : (w.host.queue q).begin = .batch jobs y) {e : Event}
    (hmem : .deliver t e ∈ jobs) {s : Stage} (hs : w.stage? i = some s)
    (ht : s.session.token = some t) : q = s.session.queue := by
  by_contra hne
  have hstray := (hw.posted hs).stray q hne
  rw [(EventQueue.batch_begin hb).2.1] at hmem
  exact mail_eq_nil.mp hstray t e ht hmem

/-- A session that has a number is live. -/
theorem Sound.live_of_token (hw : w.Sound) (hs : w.stage? i = some s)
    (ht : s.session.token = some t) : ∃ h, s.session.live = .ok h := by
  obtain ⟨h, hwir⟩ := (hw.attached hs).of_token (v := s.session.wiring) ht
  exact ⟨h, Stage.live_eq_ok.mpr
    ⟨congrArg Wiring.destroyed hwir, congrArg Wiring.pipeline hwir⟩⟩

theorem isLooped_eq (hf : s.panel.Fits) (hl : s.session.live = .ok h) :
    s.isLooped = (decide (s.session.status.direction = some .decoding) &&
      s.session.status.looping) := by
  have hlive := (Stage.live_eq_ok.mp hl).1
  by_cases hdir : s.session.status.direction = some .decoding
  · have hfits : s.session.status.looping = s.session.config.playback.looping := hf hlive hdir
    simp [Stage.isLooped, hl, hdir, hfits, Except.isOk, Except.toBool]
  · simp [Stage.isLooped, hdir]

/-- The observers of the end are called, and nothing else happens to the session. -/
theorem told_announced {token : Option Nat} (hP : w.Posted i token q)
    (hm : w.host.mail token q = []) (depth : Nat) :
    Told i token q (fun x => (x.accounted .finished).notified .finish) w (w.announced depth i) := by
  have hacc : Told i token q (·.accounted .finished) w _ := told_account hm .finished
  exact hacc.trans (told_notify hacc.mail (hears_drainTo i token q depth) (hP.told hacc) .finished)

/-- A session that is told of the end goes back by the loop that it goes by. -/
theorem loopBack_announced {s₁ : Stage} (hs₁ : (w.announced depth i).stage? i = some s₁)
    (hl : s₁.session.live = .ok h) :
    react (drainTo depth) i .finished w = w.ended depth i h s₁.session.status.looping := by
  obtain ⟨hlive, hp⟩ := Stage.live_eq_ok.mp hl
  change loopBack i (w.announced depth i) = _
  simp only [loopBack, (stage?_eq_some.mp hs₁).2.1, hp, hlive, Bool.not_false, Bool.and_true]
  rfl

theorem estate_ended (hs : (w.announced depth i).stage? i = some s)
    (hp : s.session.pipeline = some h) (back : Bool) :
    (w.ended depth i h back).estate? i = some ⟨s.session,
      if back then s.estate.pipeline.map (·.setPosition .zero) else s.estate.pipeline⟩ := by
  cases back with
  | false => exact estate?_eq hs
  | true =>
      have hseek := estate_tell_own hs hp (f := (·.setPosition h.id .zero))
        (Engine.alters_setPosition .zero)
      rw [estate?_eq hs] at hseek
      exact hseek

/-- In every run, for every session and every end that is delivered to it, in whatever drain and
however deep: the session is live, the end is counted, the observers of the end are called once
each, and only then the engine is asked to go back to the start, if at all.  Of the session nothing
else changes, and of its pipeline nothing but the position and the end that may be reported again.
The engine is asked exactly when media is decoded and configured to loop, if the session decodes or
does not go by a loop; otherwise an encoder, or a session that was given no media, goes back. -/
theorem finish_returns_decoder_iff (h₀ : Fresh w₀) (hnew : w₀.host.queues = {}) (hm : Amid w₀ w)
    (hb : (w.host.queue q).begin = .batch (pre ++ .deliver t .finished :: post) y) (depth : Nat)
    (hs : (w.midway depth q y pre).stage? i = some s) (ht : s.session.token = some t) :
    ∃ h s₁, s.session.live = .ok h ∧
      ((w.midway depth q y pre).announced depth i).stage? i = some s₁ ∧
      s₁.session =
        { s.session with
          health := s.session.health.recordFinish
          observers := s.session.observers.called .finish } ∧
      s₁.estate.pipeline = s.estate.pipeline ∧
      (runBatch (drainTo depth) q (pre ++ .deliver t .finished :: post)
          (w.onHost (·.modifyQueue q fun _ => y)) =
        runBatch (drainTo depth) q post
          ((w.midway depth q y pre).ended depth i h s.session.status.looping)) ∧
      ((w.midway depth q y pre).ended depth i h s.session.status.looping).estate? i =
        some ⟨s₁.session, if s.session.status.looping
          then s.estate.pipeline.map (·.setPosition .zero) else s.estate.pipeline⟩ ∧
      (runJob (drainTo depth) q (.deliver t .finished) (w.midway depth q y pre) =
          ((w.midway depth q y pre).ended depth i h s.isLooped, none) ↔
        s.session.status.direction = some .decoding ∨ s.session.status.looping = false) := by
  obtain ⟨hmid, hbusy, hwanes⟩ := hm.midway hb depth pre
  have hpoised := hmid.poised h₀ hnew
  -- the session waits at the queue that is being drained, so nothing else waits for it there
  obtain rfl : q = s.session.queue := by
    obtain ⟨s', hs', htok, hqueue⟩ := hwanes.before hs
    obtain ⟨hi, hget, -⟩ := stage?_eq_some.mp hs'
    have hs₀ : w.stage? i = some { s' with host := w.host } := stage?_eq_some.mpr ⟨hi, hget, rfl⟩
    exact ((hm.poised h₀ hnew).queue hb (List.mem_append_right _ (List.mem_cons_self ..)) hs₀
      (htok.symm.trans ht)).trans hqueue.symm
  have hP := hpoised.posted hs
  have hempty := (mail_of_stage hs).trans (hpoised.drained hs hbusy)
  obtain ⟨h, hl⟩ := hP.sound.live_of_token hs ht
  have htold := told_announced hP hempty depth
  have hestate := htold.estate
  rw [estate?_eq hs, Option.map_some] at hestate
  obtain ⟨s₁, hs₁, he₁⟩ := stage_of_estate hestate
  have hsession : s₁.session = { s.session with
      health := s.session.health.recordFinish
      observers := s.session.observers.called .finish } := congrArg Estate.session he₁
  have hpipeline : s₁.estate.pipeline = s.estate.pipeline := by
    rw [he₁]
    rfl
  have hl₁ : s₁.session.live = .ok h := by
    rw [hsession]
    exact hl
  have hjob : runJob (drainTo depth) s.session.queue (.deliver t .finished)
      (w.midway depth s.session.queue y pre) =
        ((w.midway depth s.session.queue y pre).ended depth i h s.session.status.looping,
          none) := by
    obtain ⟨b, hres, htarget⟩ := hP.resolve ht
    have hreact := loopBack_announced hs₁ hl₁
    rw [hsession] at hreact
    simp only [runJob, hres, tell, htarget]
    exact Prod.ext hreact rfl
  refine ⟨h, s₁, hl, hs₁, hsession, hpipeline, ?_, ?_, ?_⟩
  · rw [runBatch_append, runBatch, ← World.midway, hjob]
  · rw [estate_ended hs₁ (Stage.live_eq_ok.mp hl₁).2, hpipeline]
  · rw [hjob, isLooped_eq (hpoised.fitted i s hs) hl]
    cases hloop : s.session.status.looping with
    | false => simp
    | true =>
        by_cases hdir : s.session.status.direction = some .decoding
        · simp [hdir]
        · simp [hdir, ended, returned_ne]

/-- A clip that loops, at its end. -/
def endedClip : World := clip.run [.command 0 (.setLooping true), .callback ⟨1, .finished⟩]

/-- The clip goes back to its start. -/
theorem ended_clip_returns : ∃ h y,
    (endedClip.host.queue 1).begin = .batch [.deliver 1 .finished] y ∧
    runJob (drainTo 0) 1 (.deliver 1 .finished) (endedClip.midway 0 1 y []) =
      (((endedClip.midway 0 1 y []).announced 0 0).returned h, none) := by
  have hqueue : endedClip.host.queue 1 = { pending := [.deliver 1 .finished] } := by
    rw [endedClip, clip_eq]
    rfl
  have hbegin : (endedClip.host.queue 1).begin = .batch ([] ++ .deliver 1 .finished :: [])
      { running := some [.deliver 1 .finished] } := by
    rw [hqueue]
    rfl
  have hknown : ((endedClip.midway 0 1 { running := some [.deliver 1 .finished] } []).stage? 0).map
      (fun s => (s.session.token, s.session.status.direction, s.isLooped)) =
        some (some 1, some .decoding, true) := by
    rw [endedClip, clip_eq]
    decide +kernel
  obtain ⟨s, hs, hvalues⟩ := Option.map_eq_some_iff.mp hknown
  obtain ⟨htoken, hdir, hlooped⟩ : s.session.token = some 1 ∧
      s.session.status.direction = some .decoding ∧ s.isLooped = true := by
    simpa only [Prod.mk.injEq] using hvalues
  have hmoment : Amid slow endedClip := by
    have hrun : endedClip = slow.run ([.newSession 0 1 {} (.outline ⟨1, 1⟩), .command 0 .bringUp,
        .command 0 (.setup "file:///clip.mp4" 0 0)] ++
        [.command 0 (.setLooping true), .callback ⟨1, .finished⟩]) := by
      rw [run_append]
      rfl
    exact hrun ▸ .run _
  obtain ⟨h, -, -, -, -, -, -, -, hiff⟩ := finish_returns_decoder_iff fresh_slow rfl
    hmoment hbegin 0 hs htoken
  have hjob := hiff.mpr (.inl hdir)
  rw [hlooped] at hjob
  exact ⟨h, _, hbegin, hjob⟩

/-- A file that was told to loop, four seconds in, at its end. -/
def loopedFile : List Action :=
  encoderSetUp ++ [.command 0 (.setLooping true), .command 0 (.setPosition (Binary.ofNat 4)),
    .callback ⟨1, .finished⟩]

/-- An encoder goes back to its start. -/
theorem looped_file_returns :
    ((slow.run loopedFile).stage? 0).map (fun s => (s.session.status.direction, s.isLooped)) =
      some (some .encoding, false) ∧
    ((slow.run loopedFile).host.engine.pipelines.get? 1).map (·.position) =
      some (Binary.ofNat 4) ∧
    ((slow.run (loopedFile ++ [.tick 0])).host.engine.pipelines.get? 1).map (·.position) =
      some .zero := by
  decide +kernel

end World
end MediaHost
