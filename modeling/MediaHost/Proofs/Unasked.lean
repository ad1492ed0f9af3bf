import MediaHost.Proofs.Invariant

/-!
# Proofs — Unasked

What happens to a session of which nothing is asked.  What is asked of others spares it: it stays as
it is (`World.spared_of_other`).  Queued work stirs it: it may be stopped, its account grows, its
observers change (`World.Leads.stirred`).  Its pipeline is nudged at most, so a reading of it that
depends neither on the position nor on what is played stays the same (`Stage.Nudged.reading`).
-/

namespace MediaHost

/-- How many events of this kind the account has. -/
def Health.count (h : Health) : Event → Nat
  | .finished => h.finishes
  | .failed _ => h.errors
  | .quality _ => h.reports

/-- An event counts once for its kind. -/
theorem Health.count_record (h : Health) (e : Event) : (h.record e).count e = h.count e + 1 := by
  cases e <;> rfl

/-- No event is counted off. -/
theorem Health.count_le_record (h : Health) (e e' : Event) :
    h.count e' ≤ (h.record e).count e' := by
  cases e <;> cases e' <;> simp [Health.count, record, recordFinish, recordError, recordReport]

namespace Pipeline
variable {p q r : Pipeline}

/-- From `p` to `q` a frame was handed over, media was stopped or sent elsewhere, and nothing
more. -/
def Nudged (p q : Pipeline) : Prop :=
  ∃ pending playing playRequested position endSent,
    q = { p with
      pending := pending
      playing := playing
      playRequested := playRequested
      position := position
      endSent := endSent }

theorem Nudged.refl (p : Pipeline) : p.Nudged p := ⟨_, _, _, _, _, rfl⟩

theorem Nudged.trans (h₁ : p.Nudged q) (h₂ : q.Nudged r) : p.Nudged r := by
  obtain ⟨_, _, _, _, _, rfl⟩ := h₁
  obtain ⟨_, _, _, _, _, rfl⟩ := h₂
  exact ⟨_, _, _, _, _, rfl⟩

theorem nudged_push (p : Pipeline) (f : Frame) : p.Nudged (p.push f) := ⟨_, _, _, _, _, rfl⟩

theorem nudged_stop (p : Pipeline) : p.Nudged p.stop := ⟨_, _, _, _, _, rfl⟩

theorem nudged_setPosition (p : Pipeline) (seconds : Double) : p.Nudged (p.setPosition seconds) :=
  ⟨_, _, _, _, _, rfl⟩

end Pipeline

namespace Stage
variable {s s₁ s' : Stage}

/-- The pipeline of the session was nudged at most. -/
def Nudged (s s' : Stage) : Prop :=
  ∀ h, s.session.pipeline = some h → ∃ f : Pipeline → Pipeline, (∀ p : Pipeline, p.Nudged (f p)) ∧
    s'.host.engine.pipelines.get? h.id = (s.host.engine.pipelines.get? h.id).map f

/-- A pipeline that nothing touched. -/
theorem Nudged.of_kept (hk : ∀ h, s.session.pipeline = some h →
    s'.host.engine.pipelines.get? h.id = s.host.engine.pipelines.get? h.id) : s.Nudged s' :=
  fun h hp => ⟨id, .refl, (hk h hp).trans (congrFun Option.map_id _).symm⟩

/-- Whichever pipeline was changed, it was nudged at most. -/
theorem Nudged.of_alters {k : Nat} {f : Pipeline → Pipeline} (ha : Host.Alters k f s.host s'.host)
    (hf : ∀ p : Pipeline, p.Nudged (f p)) : s.Nudged s' := by
  intro h _
  by_cases hk : k = h.id
  · exact ⟨f, hf, (ha.pipeline h.id).trans (if_pos hk)⟩
  · exact ⟨id, .refl, (ha.other hk).trans (congrFun Option.map_id _).symm⟩

/-- Nudges add up while the session keeps its pipeline. -/
theorem Nudged.trans (h₁ : s.Nudged s₁) (hp : s₁.session.pipeline = s.session.pipeline)
    (h₂ : s₁.Nudged s') : s.Nudged s' := by
  intro h hh
  obtain ⟨f, hf, hget₁⟩ := h₁ h hh
  obtain ⟨g, hg, hget₂⟩ := h₂ h (hp.trans hh)
  exact ⟨g ∘ f, fun p => (hf p).trans (hg (f p)), by rw [hget₂, hget₁, Option.map_map]⟩

/-- What a nudge does not touch. -/
theorem Nudged.reading {β : Type} {v : Pipeline → β} (hs : s.Nudged s')
    (hv : ∀ (p : Pipeline) pending playing playRequested position endSent,
      v { p with
        pending := pending
        playing := playing
        playRequested := playRequested
        position := position
        endSent := endSent } = v p) :
    (s.session.pipeline.bind fun h => (s'.host.engine.pipelines.get? h.id).map v) =
      s.session.pipeline.bind fun h => (s.host.engine.pipelines.get? h.id).map v := by
  cases hp : s.session.pipeline with
  | none => rfl
  | some h =>
      obtain ⟨f, hf, hget⟩ := hs h hp
      rw [Option.bind_some, Option.bind_some, hget, Option.map_map]
      refine Option.map_congr fun p _ => ?_
      obtain ⟨_, _, _, _, _, hq⟩ := hf p
      rw [Function.comp_apply, hq]
      exact hv p _ _ _ _ _

/-- The session is as it was, and its pipeline was nudged at most. -/
structure Spared (s s' : Stage) : Prop where
  session : s'.session = s.session
  pipeline : s.Nudged s'

theorem Spared.refl (s : Stage) : s.Spared s := ⟨rfl, .of_kept fun _ _ => rfl⟩

/-- The session may have been stopped, if media is set up.  Its account may have grown, and its
observers may have changed; its pipeline was nudged at most. -/
structure Stirred (s s' : Stage) : Prop where
  session : ∃ observers health, (∀ e, s.session.health.count e ≤ health.count e) ∧
    s'.session =
      { s.session with
        observers := observers
        health := health
        status := s'.session.status }
  status : s'.session.status = s.session.status ∨ s.session.phase.isConfigured = true ∧
    s'.session.status = { s.session.status with phase := .stopped }
  pipeline : s.Nudged s'

/-- A session that is spared has its status and its account, too. -/
theorem Spared.stirred (h : s.Spared s') : s.Stirred s' where
  session := ⟨_, _, fun _ => Nat.le_refl _, h.session.trans (by rw [h.session])⟩
  status := .inl (congrArg Session.status h.session)
  pipeline := h.pipeline

theorem Stirred.refl (s : Stage) : s.Stirred s := (Spared.refl s).stirred

theorem Stirred.pipeline_eq (h : s.Stirred s') :
    s'.session.pipeline = s.session.pipeline := by
  obtain ⟨_, _, -, hs⟩ := h.session
  rw [hs]

/-- Stirring adds up: a phase that is stopped stays stopped. -/
theorem Stirred.trans (h₁ : s.Stirred s₁) (h₂ : s₁.Stirred s') : s.Stirred s' := by
  refine ⟨?_, ?_, h₁.pipeline.trans h₁.pipeline_eq h₂.pipeline⟩
  · obtain ⟨_, _, hc₁, hs₁⟩ := h₁.session
    obtain ⟨o, x, hc₂, hs₂⟩ := h₂.session
    rw [hs₁] at hc₂ hs₂
    exact ⟨o, x, fun e => Nat.le_trans (hc₁ e) (hc₂ e), hs₂⟩
  · rcases h₁.status with heq | ⟨hc, heq⟩
    · have h := h₂.status
      rwa [Session.phase, heq] at h
    · rcases h₂.status with h | ⟨-, h⟩
      · exact .inr ⟨hc, h.trans heq⟩
      · exact .inr ⟨hc, h.trans (by rw [heq])⟩

end Stage

/-- What may ask something of the session `i`, or run work that waits for it. -/
def Action.reaches (i : Nat) : Action → Bool
  | .command j _ | .drop j => j = i
  | .tick _ | .drain _ => true
  | _ => false

namespace World
variable {w w' : World} {i j : Nat} {s x x' : Stage} {a : Action}

/-! ### What is asked of others -/

/-- What happens to the host and to no pipeline. -/
theorem spared_host {b : Host} (hs : w.stage? i = some s)
    (hb : b.engine.pipelines = w.host.engine.pipelines) :
    ∃ s', ({ w with host := b } : World).stage? i = some s' ∧ s.Spared s' := by
  obtain ⟨hi, hget, hh⟩ := stage?_eq_some.mp hs
  refine ⟨{ s with host := b }, stage?_eq_some.mpr ⟨hi, hget, rfl⟩, rfl, .of_kept fun h _ => ?_⟩
  rw [hb, hh]

/-- What the engine does of itself to any pipeline. -/
theorem spared_tell (hs : w.stage? i = some s) {g : Engine → Engine} {k : Nat}
    {f : Pipeline → Pipeline} (ha : Engine.Alters k f w.host.engine (g w.host.engine))
    (hf : ∀ p : Pipeline, p.Nudged (f p)) :
    ∃ s', (w.onHost (·.tell g)).stage? i = some s' ∧ s.Spared s' := by
  obtain ⟨hi, hget, hh⟩ := stage?_eq_some.mp hs
  refine ⟨{ s with host := w.host.tell g }, stage?_eq_some.mpr ⟨hi, hget, rfl⟩, rfl, ?_⟩
  refine .of_alters (f := f) (k := k) ?_ hf
  rw [hh]
  exact Host.alters_tell ha

/-- A turn of another session. -/
theorem spared_of_turns (hw : w.Sound) (hs : w.stage? i = some s) (hx : w.stage? j = some x)
    (hij : j ≠ i) (ht : Stage.Turns x x') :
    ∃ s', (w.put x').stage? i = some s' ∧ s.Spared s' := by
  have hne : x'.index ≠ i := by
    rw [ht.index, (stage?_eq_some.mp hx).1]
    exact hij
  refine ⟨{ s with host := x'.host }, ?_, rfl, .of_kept fun h hp => ?_⟩
  · rw [stage?_put, if_neg hne, hs]
    rfl
  · exact (hw.pipeline_of_turns hx ht hs hij hp).trans (by rw [(stage?_eq_some.mp hs).2.2])

/-- A neighbour that is dropped takes only its own things along. -/
theorem spared_drop (hw : w.Sound) (hs : w.stage? i = some s) (hij : j ≠ i) :
    ∃ s', (w.drop j).1.stage? i = some s' ∧ s.Spared s' := by
  simp only [drop]
  split
  · exact ⟨s, hs, .refl s⟩
  · next x hx =>
      have ht := (Stage.destroys_destroy (hw.attached hx) (hw.coupled hx)).turns
      obtain ⟨s', hs', hspared⟩ := spared_of_turns hw hs hx hij ht
      refine ⟨s', ?_, hspared⟩
      obtain ⟨hi, hget, hh⟩ := stage?_eq_some.mp hs'
      refine stage?_eq_some.mpr ⟨hi, ?_, hh⟩
      rw [Table.get?_erase, if_neg hij]
      exact hget

/-- A session that is made leaves the others as they are. -/
theorem spared_newSession (hs : w.stage? i = some s) (j q : Nat) (config : Config) (image : Image) :
    ∃ s', (w.apply (.newSession j q config image)).stage? i = some s' ∧ s.Spared s' := by
  simp only [apply]
  split
  · next hc =>
      have hj : w.sessions.get? j = none := by
        simpa using (Bool.and_eq_true_iff.mp hc).1
      obtain ⟨s', hs', hspared⟩ := spared_host (b := w.host.modifyQueue q id) hs rfl
      obtain ⟨hi, hget, hh⟩ := stage?_eq_some.mp hs'
      refine ⟨s', stage?_eq_some.mpr ⟨hi, ?_, hh⟩, hspared⟩
      simp only [addSession, onHost, Table.get?_set]
      split
      · next hji =>
          rw [hji, (stage?_eq_some.mp hs).2.1] at hj
          cases hj
      · exact hget
  · exact ⟨s, hs, .refl s⟩

/-- What neither is asked of the session nor runs queued work. -/
theorem spared_of_other (hw : w.Sound) (hs : w.stage? i = some s) (ha : a.reaches i = false) :
    ∃ s', (w.apply a).stage? i = some s' ∧ s.Spared s' := by
  cases a with
  | newSession j q config image => exact spared_newSession hs j q config image
  | command j c =>
      cases hx : w.stage? j with
      | none =>
          have hsame : (w.act j c.exec).1 = w := by simp only [act, hx]
          exact ⟨s, by rw [World.apply, hsame, hs], .refl s⟩
      | some x =>
          have ht := Stage.turns_exec (hw.attached hx) (hw.coupled hx) c
          have hact : (w.act j c.exec).1 = w.put (c.exec x).1 := by simp only [act, hx]
          rw [World.apply, hact]
          exact spared_of_turns hw hs hx (of_decide_eq_false ha) ht
  | tick | drain => cases ha
  | drop j => exact spared_drop hw hs (of_decide_eq_false ha)
  | submit | closeQueue | pace | refuseCreate | failStarts => exact spared_host hs rfl
  | push k frame =>
      exact spared_tell (g := (·.push k frame)) hs (Engine.alters_push frame) (·.nudged_push frame)
  | callback c => exact spared_host hs (Host.same_signal c).pipelines
  | arrive n => exact spared_host hs (Host.same_arrive n).pipelines
  | settle => exact spared_host hs Host.pipelines_settle
  | addRef => exact spared_host hs Host.pipelines_addRef
  | releaseRef => exact spared_host hs (Host.pipelines_releaseLease {})

/-! ### Queued work -/

theorem get?_modifySession (w : World) (i j : Nat) (f : Session → Session) :
    (w.modifySession j f).sessions.get? i =
      if j = i then (w.sessions.get? i).map f else w.sessions.get? i := by
  simp [modifySession]

/-- Starting over is the engine's business. -/
theorem sessions_loopBack (i : Nat) (w : World) : (loopBack i w).sessions = w.sessions := by
  simp only [loopBack]
  split
  · rfl
  · split
    · split <;> rfl
    · rfl

/-- A change of another session, or one that stirs this one. -/
theorem stirred_modifySession (hs : w.stage? i = some s) (j : Nat) {f : Session → Session}
    (hf : j = i → s.Stirred (s.modify f)) :
    ∃ s', (w.modifySession j f).stage? i = some s' ∧ s.Stirred s' := by
  obtain ⟨hi, hget, hh⟩ := stage?_eq_some.mp hs
  have hget' := get?_modifySession w i j f
  rw [hget] at hget'
  split at hget'
  · next hj => exact ⟨s.modify f, stage?_eq_some.mpr ⟨hi, hget', hh⟩, hf hj⟩
  · exact ⟨s, stage?_eq_some.mpr ⟨hi, hget', hh⟩, .refl s⟩

/-- An error stops media that is set up, here or elsewhere. -/
theorem stirred_stopFailed (hs : w.stage? i = some s) (j : Nat) :
    ∃ s', (stopFailed j w).stage? i = some s' ∧ s.Stirred s' := by
  have hstop : ∀ {y x} {v : World}, w.sessions.get? j = some y → y.phase.isConfigured = true →
      v.stage? i = some x → s.Spared x →
      ∃ s', (v.modifySession j fun z =>
          { z with status := { z.status with phase := .stopped } }).stage? i = some s' ∧
        s.Stirred s' := by
    intro y x v hy hconf hx hspared
    obtain ⟨s', hs', hstirred⟩ := stirred_modifySession hx j
      (f := fun z => { z with status := { z.status with phase := .stopped } }) fun hj => by
        obtain rfl := Option.some.inj ((stage?_eq_some.mp hs).2.1.symm.trans (hj ▸ hy))
        exact
          { session := ⟨_, _, fun _ => Nat.le_refl _, rfl⟩
            status := .inr ⟨hspared.session ▸ hconf, rfl⟩
            pipeline := .of_kept fun _ _ => rfl }
    exact ⟨s', hs', hspared.stirred.trans hstirred⟩
  simp only [stopFailed]
  split
  · exact ⟨s, hs, .refl s⟩
  · next y hy =>
      split
      · next hconf =>
          split
          · next h _ =>
              obtain ⟨x, hx, hspared⟩ := spared_tell (g := (·.stop h.id)) hs Engine.alters_stop
                Pipeline.nudged_stop
              exact hstop hy hconf hx hspared
          · exact hstop hy hconf hs (.refl s)
      · exact ⟨s, hs, .refl s⟩

/-- One effect of queued work, by its kind. -/
theorem Effect.stirred (he : Effect w w') (hs : w.stage? i = some s) :
    ∃ s', w'.stage? i = some s' ∧ s.Stirred s' := by
  have hspared : ∀ {v : World}, (∃ s', v.stage? i = some s' ∧ s.Spared s') →
      ∃ s', v.stage? i = some s' ∧ s.Stirred s' :=
    fun ⟨s', hs', h⟩ => ⟨s', hs', h.stirred⟩
  cases he with
  | record y => exact hspared (spared_host hs rfl)
  | note hn => exact hspared (spared_host hs rfl)
  | queue q f => exact hspared (spared_host hs rfl)
  | observers j o =>
      exact stirred_modifySession hs j fun _ =>
        ⟨⟨o, _, fun _ => Nat.le_refl _, rfl⟩, .inl rfl, .of_kept fun _ _ => rfl⟩
  | account j e =>
      exact stirred_modifySession hs j fun _ =>
        ⟨⟨_, _, s.session.health.count_le_record e, rfl⟩, .inl rfl, .of_kept fun _ _ => rfl⟩
  | loopBack j =>
      simp only [World.loopBack]
      split
      · exact ⟨s, hs, .refl s⟩
      · split
        · next h _ =>
            split
            · exact hspared (spared_tell (g := (·.setPosition h.id .zero)) hs
                (Engine.alters_setPosition .zero) (·.nudged_setPosition .zero))
            · exact ⟨s, hs, .refl s⟩
        · exact ⟨s, hs, .refl s⟩
  | stopFailed j => exact stirred_stopFailed hs j

/-- All that queued work does to a session. -/
theorem Leads.stirred (hl : Leads w w') (hs : w.stage? i = some s) :
    ∃ s', w'.stage? i = some s' ∧ s.Stirred s' :=
  hl.preserves (P := fun y => ∃ s', y.stage? i = some s' ∧ s.Stirred s')
    (fun _ _ he ⟨_, hy, h⟩ => (he.stirred hy).imp fun _ h' => ⟨h'.1, h.trans h'.2⟩)
    ⟨s, hs, .refl s⟩

end World
end MediaHost
