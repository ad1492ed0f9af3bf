import MediaHost.Proofs.Flow

/-!
# Proofs — Course

The flow of a session through a run.  A look for a frame delivers one or changes nothing that
the flow depends on (`Stage.flow_pull`), queued work may make a session cease to play
(`Leads.halts`), and what is asked of one session spares the others (`World.spared_of_other`).  So
every action moves the flow in steps that give the cues an observer of the run has seen
(`World.course_apply`).
-/

namespace MediaHost

/-! ### A look for a frame -/

def Poll.cues : Poll → List Cue
  | .idle | .overflow => []
  | .frame .. => [.frame]

namespace Stage
variable {s s' : Stage} {h : Handle}

theorem limitOf_poll (a : Acquisition) (image : Image) (host : Host) (k : Nat) (cs : List Callback)
    (h : Handle) :
    ((host.setEngine (a.poll image host.engine k).engine).launch cs).limitOf h =
      host.limitOf h := by
  obtain ⟨f, hf, ha⟩ := looked_poll a image host k cs
  exact Host.limitOf_alters ha (fun p => (hf p).reading fun _ _ _ _ _ _ => rfl) h

/-- A look for a frame changes the image, and the account of frames. -/
theorem session_pull (h : Handle) (s : Stage) : ∃ frames image health,
    (pull h s).1.session =
      { s.session with frames := frames, image := image, health := health } := by
  simp only [pull]
  split
  · split
    · exact ⟨_, _, s.session.health, rfl⟩
    · exact ⟨_, _, s.session.health, rfl⟩
    · split <;> exact ⟨_, _, _, rfl⟩
  · exact ⟨s.session.frames, s.session.image, s.session.health, rfl⟩

/-- The flow after a look for a frame. -/
def lookedAt (f : Flow) : Poll → Flow
  | .idle | .overflow => f
  | .frame size _ _ =>
    { f with
      frames := f.frames.record size
      engine :=
        if f.frames.awaitingFirst && !f.limit.same Single.one then
          f.engine.map fun _ => Single.toUnit f.limit Single.one
        else f.engine }

theorem course_lookedAt (f : Flow) (p : Poll) : Flow.Course f p.cues (lookedAt f p) := by
  cases p with
  | idle | overflow => exact .refl f
  | frame size first resized => exact .one (.frame f size)

/-- Frames come from configured media being decoded. -/
theorem pull_frame {size : Size} {first resized : Bool}
    (hframe : (pull h s).2 = .frame size first resized) :
    first = s.session.frames.awaitingFirst ∧ s.session.phase.isConfigured = true ∧
      s.session.status.direction = some .decoding := by
  simp only [pull] at hframe
  split at hframe
  · next hc =>
      obtain ⟨hdir, hconf⟩ := Bool.and_eq_true_iff.mp hc
      split at hframe
      · cases hframe
      · cases hframe
      · next hpoll =>
          cases hframe
          exact ⟨(Acquisition.poll_frame hpoll).1, hconf, of_decide_eq_true hdir⟩
  · cases hframe

/-- A look delivers a frame, or changes nothing that the flow depends on. -/
theorem flow_pull (hp : s.session.pipeline = some h) :
    (pull h s).1.flow = lookedAt s.flow (pull h s).2 := by
  by_cases hc : (s.session.status.direction = some .decoding && s.session.phase.isConfigured) = true
  · have hlimit := limitOf_poll s.session.frames s.session.image s.host h.id
      (s.session.frames.poll s.session.image s.host.engine h.id).callbacks h
    have hnone : (∀ size first resized,
        (s.session.frames.poll s.session.image s.host.engine h.id).poll ≠
          .frame size first resized) →
        (s.session.frames.poll s.session.image s.host.engine h.id).acquisition =
          s.session.frames := Acquisition.poll_uncounted
    have hframe : ∀ size first resized,
        (s.session.frames.poll s.session.image s.host.engine h.id).poll =
          .frame size first resized →
        first = s.session.frames.awaitingFirst ∧
          (s.session.frames.poll s.session.image s.host.engine h.id).acquisition =
            s.session.frames.record size := fun _ _ _ => Acquisition.poll_frame
    simp only [pull, hc, if_true]
    generalize s.session.frames.poll s.session.image s.host.engine h.id = r at *
    split
    · next hr =>
        simp only [flow, modify, onHost, hp, lookedAt, hnone (by simp [hr]), Option.bind_some,
          hlimit]
        rfl
    · next hr =>
        simp only [flow, modify, onHost, hp, lookedAt, hnone (by simp [hr]), Option.bind_some,
          hlimit]
        rfl
    · next size first resized hr =>
        obtain ⟨rfl, hacq⟩ := hframe size first resized hr
        by_cases htold : (s.session.frames.awaitingFirst &&
            !s.session.config.playback.bitrateLimit.same Single.one) = true
        · have hset := Host.limitOf_setBitrateLimit
            (a := (s.host.setEngine r.engine).launch r.callbacks) h
            s.session.config.playback.bitrateLimit
          rw [hlimit] at hset
          simp only [htold, if_true, lookedAt]
          refine Flow.ext rfl hacq rfl ?_
          simp only [flow, modify, onHost, hp, Option.bind_some, htold, if_true]
          exact hset
        · simp only [htold, lookedAt]
          refine Flow.ext rfl hacq rfl ?_
          simp only [flow, modify, onHost, hp, Option.bind_some, htold]
          exact hlimit
  · have heq : pull h s = (s, .idle) := by
      simp only [pull, hc]
      rfl
    rw [heq]
    rfl

/-- Of the flow, others touch nothing. -/
theorem limitOf_nudged (hs : s.Nudged s') :
    s.session.pipeline.bind s'.host.limitOf = s.session.pipeline.bind s.host.limitOf :=
  hs.reading (v := (·.bitrateLimit)) fun _ _ _ _ _ _ => rfl

theorem Spared.flow (h : s.Spared s') : s'.flow = s.flow := by
  simp only [Stage.flow, h.session, limitOf_nudged h.pipeline]

/-- A session that is stirred may cease to play. -/
theorem Stirred.halts (h : s.Stirred s') : Flow.Halts s.flow s'.flow := by
  have hlimit := limitOf_nudged h.pipeline
  obtain ⟨_, _, -, hs⟩ := h.session
  refine ⟨?_, ?_, ?_, ?_⟩
  · rcases h.status with heq | ⟨-, heq⟩
    · exact .inl (congrArg Status.phase heq)
    · refine .inr fun hplaying => ?_
      cases (congrArg Status.phase heq).symm.trans hplaying
  all_goals rw [Stage.flow, hs]
  · rfl
  · rfl
  · exact hlimit

end Stage

namespace World
variable {w w₁ w' : World} {i j : Nat} {s x x' : Stage} {a : Action}

theorem Leads.halts (hl : Leads w w') (hs : w.stage? i = some s) :
    ∃ s', w'.stage? i = some s' ∧ Flow.Halts s.flow s'.flow :=
  (hl.stirred hs).imp fun _ h => ⟨h.1, h.2.halts⟩

/-! ### Actions -/

/-- A look for a frame fails and changes nothing, or is the look of the session's pipeline. -/
theorem look_cases (hs : w.stage? i = some s) :
    (∃ e, w.act i (·.withLive Stage.pull) = (w, some (.error e))) ∨
    ∃ h, s.session.live = .ok h ∧
      w.act i (·.withLive Stage.pull) =
        (w.put (Stage.pull h s).1, some (.ok (Stage.pull h s).2)) := by
  rw [act_eq hs]
  cases hl : s.session.live with
  | error e => exact .inl ⟨e, by simp only [Stage.withLive, hl, put_self hs]⟩
  | ok h => exact .inr ⟨h, rfl, by rw [Stage.withLive_of_live hl]⟩

/-- A tick of a session fails, or looks for a frame.  If the look does not panic, the tick says what
it found and runs queued work. -/
theorem advance_cases (hs : w.stage? i = some s) :
    (∃ e, w.advance i = (w, some (.error e))) ∨
    ∃ h, s.session.live = .ok h ∧ Leads (w.put (Stage.pull h s).1) (w.advance i).1 ∧
      ((Stage.pull h s).2 = .overflow ∧ (w.advance i).2 = some (.error .overflow) ∨
        ∃ events, (w.advance i).2 = some (.ok ⟨(Stage.pull h s).2, events⟩)) := by
  have hleads := leads_advance w i
  rcases look_cases hs with ⟨e, hlook⟩ | ⟨h, hl, hlook⟩
  · exact .inl ⟨e, by simp only [advance, hlook]⟩
  · rw [hlook] at hleads
    refine .inr ⟨h, hl, hleads, ?_⟩
    cases hframe : (Stage.pull h s).2 with
    | overflow => exact .inl ⟨rfl, by simp only [advance, hlook, hframe]⟩
    | idle | frame =>
        right
        simp only [advance, hlook, hframe]
        exact ⟨_, rfl⟩

/-- A tick moves the flow as its look for a frame does, and may make the session cease to play.
If it fails, it does no more than that. -/
theorem flow_advance (hs : w.stage? i = some s) :
    ∃ s', (w.advance i).1.stage? i = some s' ∧
      ((∃ e, (w.advance i).2 = some (.error e)) ∧ Flow.Halts s.flow s'.flow ∨
      ∃ h tick, s.session.live = .ok h ∧ (w.advance i).2 = some (.ok tick) ∧
        tick.frame = (Stage.pull h s).2 ∧
        Flow.Halts (Stage.lookedAt s.flow tick.frame) s'.flow) := by
  rcases advance_cases hs with ⟨e, he⟩ | ⟨h, hl, hleads, hres⟩
  · rw [he]
    exact ⟨s, hs, .inl ⟨⟨e, rfl⟩, .refl _⟩⟩
  · have hp := (Stage.live_eq_ok.mp hl).2
    have hput : (w.put (Stage.pull h s).1).stage? i = some (Stage.pull h s).1 := by
      rw [stage?_put, if_pos ((Stage.keeps_pull s hp).index.trans (stage?_eq_some.mp hs).1)]
    obtain ⟨s', hs', hhalts⟩ := hleads.halts hput
    rw [Stage.flow_pull hp] at hhalts
    rcases hres with ⟨hover, herror⟩ | ⟨events, htick⟩
    · rw [hover] at hhalts
      exact ⟨s', hs', .inl ⟨⟨_, herror⟩, hhalts⟩⟩
    · exact ⟨s', hs', .inr ⟨h, _, hl, htick, rfl, hhalts⟩⟩

/-- What an observer of a run sees of the media of session `i`: setups and starts by what is asked
of the session, and frames by what its ticks bring. -/
def cues (w : World) (i : Nat) : Action → List Cue
  | .command j c => if j = i then ((w.stage? i).map c.cues).getD [] else []
  | .tick j =>
    if j = i then
      match (w.advance i).2 with
      | some (.ok tick) => tick.frame.cues
      | _ => []
    else []
  | _ => []

/-- A tick of a live session brings what its look for a frame brings. -/
theorem cues_tick (hs : w.stage? i = some s) {h : Handle} (hl : s.session.live = .ok h) :
    w.cues i (.tick i) = (Stage.pull h s).2.cues := by
  have hlook := act_eq hs (·.withLive Stage.pull)
  rw [Stage.withLive_of_live hl] at hlook
  simp only [cues, if_true]
  cases hframe : (Stage.pull h s).2 with
  | overflow =>
      simp only [advance, hlook, hframe]
      rfl
  | idle | frame => simp only [advance, hlook, hframe]

theorem cues_of_other (ha : a.reaches i = false) : w.cues i a = [] := by
  cases a with
  | command j c => exact if_neg (of_decide_eq_false ha)
  | tick | drain => cases ha
  | _ => rfl

theorem course_command (hw : w.Sound) (hs : w.stage? i = some s) (c : Command) :
    ∃ s', (w.act i c.exec).1.stage? i = some s' ∧
      Flow.Course s.flow (w.cues i (.command i c)) s'.flow := by
  have ht := Stage.turns_exec (hw.attached hs) (hw.coupled hs) c
  have hcourse := Stage.course_exec (hw.attached hs) (hw.coupled hs) c
  refine ⟨(c.exec s).1, ?_, ?_⟩
  · rw [act_eq hs, stage?_put, if_pos (ht.index.trans (stage?_eq_some.mp hs).1)]
  · simpa only [cues, if_true, hs, Option.map_some, Option.getD_some] using hcourse

theorem course_tick (hw : w.Sound) (hs : w.stage? i = some s) (j : Nat) :
    ∃ s', (w.advance j).1.stage? i = some s' ∧
      Flow.Course s.flow (w.cues i (.tick j)) s'.flow := by
  by_cases hij : j = i
  · obtain rfl := hij
    obtain ⟨s', hs', ⟨⟨e, he⟩, hhalts⟩ | ⟨h, tick, -, htick, -, hhalts⟩⟩ := flow_advance hs
    · have hcues : w.cues j (.tick j) = [] := by simp only [cues, if_true, he]
      rw [hcues]
      exact ⟨s', hs', hhalts.course⟩
    · refine ⟨s', hs', ?_⟩
      have hcues : w.cues j (.tick j) = tick.frame.cues := by simp only [cues, if_true, htick]
      rw [hcues]
      simpa using (Stage.course_lookedAt s.flow tick.frame).trans hhalts.course
  · have hcues : w.cues i (.tick j) = [] := by simp only [cues, hij, if_false]
    rw [hcues]
    cases hx : w.stage? j with
    | none =>
        have hsame : (w.advance j).1 = w := by simp only [advance, act, hx]
        rw [hsame]
        exact ⟨s, hs, .refl _⟩
    | some x =>
        rcases advance_cases hx with ⟨e, he⟩ | ⟨h, hl, hleads, -⟩
        · rw [he]
          exact ⟨s, hs, .refl _⟩
        · have hk := Stage.keeps_pull x (Stage.live_eq_ok.mp hl).2
          obtain ⟨s₁, hs₁, hspared⟩ := spared_of_turns hw hs hx hij hk.turns
          obtain ⟨s', hs', hhalts⟩ := hleads.halts hs₁
          rw [hspared.flow] at hhalts
          exact ⟨s', hs', hhalts.course⟩

/-- Every action moves the flow of a session in steps that give the cues seen. -/
theorem course_apply (hw : w.Sound) (hs : w.stage? i = some s) (ha : a ≠ .drop i) :
    ∃ s', (w.apply a).stage? i = some s' ∧ Flow.Course s.flow (w.cues i a) s'.flow := by
  by_cases hreach : a.reaches i = true
  · cases a with
    | command j c =>
        obtain rfl : j = i := of_decide_eq_true hreach
        exact course_command hw hs c
    | tick j => exact course_tick hw hs j
    | drop j => exact absurd (congrArg Action.drop (of_decide_eq_true hreach)) ha
    | drain q =>
        obtain ⟨s', hs', hhalts⟩ := (leads_drain w q).halts hs
        exact ⟨s', hs', hhalts.course⟩
    | _ => cases hreach
  · have hother : a.reaches i = false := by simpa using hreach
    obtain ⟨s', hs', hspared⟩ := spared_of_other hw hs hother
    rw [cues_of_other hother]
    exact ⟨s', hs', hspared.flow ▸ .refl _⟩

/-! ### Sessions that are not there -/

theorem Effect.absent (he : Effect w w') (hn : w.sessions.get? i = none) :
    w'.sessions.get? i = none := by
  have hmodify : ∀ (a : World) (j : Nat) (f : Session → Session), a.sessions.get? i = none →
      (a.modifySession j f).sessions.get? i = none := by
    intro a j f ha
    rw [get?_modifySession, ha]
    split <;> rfl
  cases he with
  | record y => exact hn
  | note hl => exact hn
  | queue q f => exact hn
  | observers j o => exact hmodify w j _ hn
  | account j e => exact hmodify w j _ hn
  | loopBack j => rwa [sessions_loopBack]
  | stopFailed j =>
      simp only [World.stopFailed]
      split
      · exact hn
      · split
        · refine hmodify _ j _ ?_
          split <;> exact hn
        · exact hn

theorem Leads.absent (hl : Leads w w') (hn : w.sessions.get? i = none) :
    w'.sessions.get? i = none :=
  hl.preserves (P := fun y => y.sessions.get? i = none) (fun _ _ he => he.absent) hn

theorem absent_act {α : Type} (hn : w.sessions.get? i = none) (j : Nat) {f : Stage → Stage × α}
    (hf : ∀ x, w.stage? j = some x → (f x).1.index = x.index) :
    (w.act j f).1.sessions.get? i = none := by
  simp only [act]
  split
  · exact hn
  · next x hx =>
      obtain ⟨hj, hget, -⟩ := stage?_eq_some.mp hx
      have hji : x.index ≠ i := by
        intro hji
        rw [← hj, hji, hn] at hget
        cases hget
      simp only [put, hf x hx, Table.get?_set, hji, if_false, hn]

/-- A session that is not there stays away, unless it is made. -/
theorem absent_apply (hw : w.Sound) (hn : w.sessions.get? i = none) (a : Action) :
    (w.apply a).sessions.get? i = none ∨ ∃ q config image, a = .newSession i q config image ∧
      (w.apply a).sessions.get? i = some (.new config image q) := by
  cases a with
  | newSession j q config image =>
      simp only [apply]
      split
      · simp only [addSession, onHost, Table.get?_set]
        split
        · next hji => exact .inr ⟨q, config, image, by rw [hji], rfl⟩
        · exact .inl hn
      · exact .inl hn
  | command j c =>
      exact .inl (absent_act hn j fun x hx =>
        (Stage.turns_exec (hw.attached hx) (hw.coupled hx) c).index)
  | tick j =>
      have hlook : (w.act j (·.withLive Stage.pull)).1.sessions.get? i = none := by
        refine absent_act hn j fun x _ => ?_
        have hk : Stage.Keeps x (x.withLive Stage.pull).1 :=
          .withLive fun h hl => Stage.keeps_pull x (Stage.live_eq_ok.mp hl).2
        exact hk.index
      exact .inl ((leads_advance w j).absent hlook)
  | drop j =>
      refine .inl ?_
      simp only [apply, drop]
      split
      · exact hn
      · next x hx =>
          have ht := (Stage.destroys_destroy (hw.attached hx) (hw.coupled hx)).turns
          have hput := absent_act hn j (f := fun s => (s.destroy, ())) fun y hy => by
            rw [hx] at hy
            exact Option.some.inj hy ▸ ht.index
          rw [act_eq hx] at hput
          rw [Table.get?_erase]
          split
          · rfl
          · exact hput
  | drain q => exact .inl ((leads_drain w q).absent hn)
  | _ => exact .inl hn

theorem stage_drop (w : World) (i : Nat) : (w.drop i).1.stage? i = none := by
  simp only [drop]
  split
  · next hn => exact hn
  · simp only [stage?, Table.get?_erase, if_true, Option.map_none]

/-- A session after an action was there before, and its flow took the course seen; or it is
new. -/
theorem stage_of_apply (hw : w.Sound) {a : Action} {s' : Stage}
    (hs' : (w.apply a).stage? i = some s') :
    (∃ s, w.stage? i = some s ∧ Flow.Course s.flow (w.cues i a) s'.flow) ∨
    ∃ q config image, w.sessions.get? i = none ∧ a = .newSession i q config image ∧
      s'.session = .new config image q := by
  cases hs : w.stage? i with
  | none =>
      have hn := sessions_of_none hs
      have hget := (stage?_eq_some.mp hs').2.1
      rcases absent_apply hw hn a with hgone | ⟨q, config, image, ha, hnew⟩
      · rw [hgone] at hget
        cases hget
      · exact .inr ⟨q, config, image, hn, ha, Option.some.inj (hget.symm.trans hnew)⟩
  | some s =>
      have ha : a ≠ .drop i := by
        rintro rfl
        rw [apply, stage_drop] at hs'
        cases hs'
      obtain ⟨s₁, hs₁, hcourse⟩ := course_apply hw hs ha
      obtain rfl := Option.some.inj (hs₁.symm.trans hs')
      exact .inl ⟨s, rfl, hcourse⟩

/-! ### A small program -/

/-- A tick that brings something, in a form that can be decided. -/
theorem ticked {r : Option (Except Error Tick)} {tick : Tick}
    (h : r.bind Except.toOption = some tick) : r = some (.ok tick) := by
  obtain ⟨e, rfl, he⟩ := Option.bind_eq_some_iff.mp h
  cases e with
  | error => cases he
  | ok => exact congrArg (some ∘ Except.ok) (Option.some.inj he)

/-- A session with a clip set up, from which no frame has come. -/
def clip : World := broughtUp.run [.command 0 (.setup "file:///clip.mp4" 0 0)]

theorem reachable_clip : clip.Reachable :=
  ⟨slow, _, fresh_slow, (run_append slow [_, _] [_]).symm⟩

/-- The clip's name is one that the engine takes, so nothing in its setup depends on the name. -/
theorem clip_eq : clip = (broughtUp.act 0 fun s => s.changeLive fun h x => Stage.accept h
    (s.session.config.decoding "file:///clip.mp4" 0 0) (Stage.closeMedia h x)).1 := by
  have husable : Stage.isUsable "file:///clip.mp4" = true := by simp [Stage.isUsable]
  refine congrArg (fun f => (broughtUp.act 0 f).1) (funext fun s => ?_)
  exact Stage.setupWith_of_usable s (d := s.session.config.decoding "file:///clip.mp4" 0 0) husable

end World
end MediaHost
