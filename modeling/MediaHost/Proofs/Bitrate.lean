import MediaHost.Proofs.Calls
import MediaHost.Proofs.Course

/-!
# Proofs — Bitrate

Which bitrate limit the engine has once frames flow.  A limit is passed on at once while frames
flow in a session that plays, and otherwise with the first frame after a start, but then only if
it is not the limit of a pipeline that is new.  So the engine has the configured limit exactly if
that is another one, or is the one that the engine had before (`World.limit_in_effect_iff`): a
limit that was lifted while no frames were flowing stays with the engine.
-/

namespace MediaHost

namespace Flow
variable {f f' : Flow} {l : List Cue}

/-- The limit as the engine is to have it. -/
def target (f : Flow) : Single := Single.toUnit f.limit Single.one

/-- What is known of the engine's limit: where frames flow in a session that plays, the engine has
been told of the configured limit, unless that is the limit of a new pipeline. -/
structure Limited (f : Flow) : Prop where
  seen : f.frames.awaitingFirst = false → f.frames.last.isSome = true
  told : f.phase = .playing → f.frames.awaitingFirst = false →
    f.limit.same Single.one = false → ∀ e, f.engine = some e → e = f.target

theorem Step.limited (h : Step f l f') (hf : f.Limited) : f'.Limited := by
  cases h with
  | setup => exact ⟨nofun, nofun⟩
  | play hp => exact ⟨nofun, fun _ => nofun⟩
  | rest hp e => exact ⟨hf.seen, fun hplay => absurd hplay hp⟩
  | limitLater l hlater =>
      refine ⟨hf.seen, ?_⟩
      intro hplay hfirst
      exact absurd ⟨hf.seen hfirst, hplay⟩ hlater
  | limitNow l =>
      refine ⟨hf.seen, ?_⟩
      intro _ _ _ e he
      obtain ⟨e₀, -, rfl⟩ := Option.map_eq_some_iff.mp he
      rfl
  | frame size =>
      refine ⟨fun _ => rfl, ?_⟩
      intro hplay _ hlimit e he
      by_cases hfirst : f.frames.awaitingFirst = true
      · simp only [hfirst, hlimit, Bool.not_false, Bool.and_self, if_true] at he
        obtain ⟨e₀, -, rfl⟩ := Option.map_eq_some_iff.mp he
        rfl
      · rw [Bool.not_eq_true] at hfirst
        simp only [hfirst, Bool.false_and, Bool.false_eq_true, if_false] at he
        exact hf.told hplay hfirst hlimit e he

theorem Course.limited (h : Course f l f') : f.Limited → f'.Limited :=
  h.preserves fun _ _ _ => Step.limited

/-- The engine's limit after a frame in a session that plays. -/
theorem Limited.frame (hf : f.Limited) (hp : f.phase = .playing) {e e' : Single}
    (he : f.engine = some e) {size : Size} {first resized : Bool}
    (he' : (Stage.lookedAt f (.frame size first resized)).engine = some e') :
    e' = f.target ↔ f.limit.same Single.one = false ∨ e = f.target := by
  simp only [Stage.lookedAt] at he'
  by_cases hone : f.limit.same Single.one = true
  · -- such a limit is never sent with a frame
    simp only [hone, Bool.not_true, Bool.and_false, Bool.false_eq_true, if_false] at he'
    obtain rfl : e = e' := Option.some.inj (he.symm.trans he')
    simp [hone]
  · rw [Bool.not_eq_true] at hone
    refine iff_of_true ?_ (.inl hone)
    by_cases hfirst : f.frames.awaitingFirst = true
    · simp only [hfirst, hone, Bool.not_false, Bool.and_self, if_true, he, Option.map_some] at he'
      exact (Option.some.inj he').symm
    · rw [Bool.not_eq_true] at hfirst
      simp only [hfirst, Bool.false_and, Bool.false_eq_true, if_false] at he'
      exact hf.told hp hfirst hone e' he'

end Flow

namespace World
variable {w w₀ : World} {i : Nat} {s : Stage}

/-- The world is sound, and of every session it is known what the engine's limit is. -/
structure Limited (w : World) : Prop where
  sound : w.Sound
  limited : ∀ {i s}, w.stage? i = some s → s.flow.Limited

theorem Limited.apply (hw : w.Limited) (a : Action) : (w.apply a).Limited := by
  refine ⟨(hw.sound.apply a).sound, ?_⟩
  intro i s' hs'
  rcases stage_of_apply hw.sound hs' with ⟨s, hs, hcourse⟩ | ⟨q, config, image, -, -, hnew⟩
  · exact hcourse.limited (hw.limited hs)
  · refine ⟨?_, ?_⟩ <;> simp [Stage.flow, hnew, Session.new, Session.phase]

theorem Reachable.limited (hw : w.Reachable) : w.Limited := by
  refine hw.induction (fun w₀ h₀ => ⟨h₀.sound, ?_⟩) fun _ a h => h.apply a
  intro i s hs
  obtain ⟨-, hget, -⟩ := stage?_eq_some.mp hs
  rw [h₀.sessions] at hget
  cases hget

/-- A tick leaves the session on its pipeline. -/
theorem Sound.pipeline_advance (hw : w.Sound) (hs : w.stage? i = some s) {s' : Stage}
    (hs' : (w.advance i).1.stage? i = some s') : s'.session.pipeline = s.session.pipeline := by
  have hwir := wirings_of_stage hs'
  rw [hw.books_advance, wirings_of_stage hs] at hwir
  exact (congrArg Wiring.pipeline (Option.some.inj hwir)).symm

/-- Whenever a tick of a session that plays brings a frame, the engine has the configured limit
after the tick exactly if that is not the limit of a new pipeline, or the engine had it before. -/
theorem limit_in_effect_iff (hw : w.Reachable) (hs : w.stage? i = some s)
    (hp : s.session.phase = .playing) {tick : Tick} (ht : (w.advance i).2 = some (.ok tick))
    {size : Size} {first resized : Bool} (hf : tick.frame = .frame size first resized) :
    ∃ s' h p p', (w.advance i).1.stage? i = some s' ∧ s'.session.pipeline = some h ∧
      w.host.engine.pipelines.get? h.id = some p ∧
      (w.advance i).1.host.engine.pipelines.get? h.id = some p' ∧
      (p'.bitrateLimit = Single.toUnit s'.session.config.playback.bitrateLimit Single.one ↔
        s'.session.config.playback.bitrateLimit.same Single.one = false ∨
        p.bitrateLimit = Single.toUnit s'.session.config.playback.bitrateLimit Single.one) := by
  obtain ⟨s', hs', ⟨⟨e, he⟩, -⟩ | ⟨h, tick', hl, htick, -, hhalts⟩⟩ := flow_advance hs
  · rw [he] at ht
    cases ht
  obtain rfl : tick' = tick := by
    rw [htick] at ht
    cases ht
    rfl
  rw [hf] at hhalts
  -- the session has its pipeline before and after the tick, and the engine knows it
  have hsound := hw.limited.sound
  have hh := (Stage.live_eq_ok.mp hl).2
  have hh' := (hsound.pipeline_advance hs hs').trans hh
  have hpipe : ∀ {a : World} {y : Stage}, a.Sound → a.stage? i = some y →
      y.session.pipeline = some h → ∃ p, a.host.engine.pipelines.get? h.id = some p ∧
        y.flow.engine = some p.bitrateLimit := by
    intro a y ha hy hyh
    obtain ⟨t, hwir⟩ := ha.wiring_of_pipeline hy hyh
    obtain ⟨⟨p, hget, -⟩, -⟩ := Stage.attached_up hwir (ha.attached hy)
    refine ⟨p, (stage?_eq_some.mp hy).2.2 ▸ hget, ?_⟩
    simp only [Stage.flow, hyh, Option.bind_some, Host.limitOf, hget, Option.map_some]
  obtain ⟨p, hget, he⟩ := hpipe hsound hs hh
  obtain ⟨p', hget', he'⟩ := hpipe (hsound.advance i).sound hs' hh'
  rw [hhalts.engine] at he'
  have hlimit : s'.session.config.playback.bitrateLimit = s.flow.limit := hhalts.limit
  refine ⟨s', h, p, p', hs', hh', hget, hget', ?_⟩
  rw [hlimit]
  exact (hw.limited.limited hs).frame hp he he'

/-- One half. -/
def half : Single := ⟨0x3f000000⟩

/-- A clip that plays with a limit of one half, with its first frame ready. -/
def limited : World :=
  clip.run [.command 0 (.setBitrateLimit half), .command 0 .play, .push 1 ⟨⟨1, 1⟩, default⟩]

/-- The first frame brings the limit of one half. -/
theorem half_in_effect : ∃ p, (limited.advance 0).1.host.engine.pipelines.get? 1 = some p ∧
    p.bitrateLimit = half := by
  obtain ⟨s, hs, hplay⟩ := Option.map_eq_some_iff.mp
    (by rw [limited, clip_eq]; decide +kernel :
      (limited.stage? 0).map (·.session.phase) = some .playing)
  have htick : (limited.advance 0).2 = some (.ok ⟨.frame ⟨1, 1⟩ true false, 0⟩) := by
    rw [limited, clip_eq]
    exact ticked (by decide +kernel)
  have hafter : ((limited.advance 0).1.stage? 0).map
      (fun s => (s.session.pipeline.map (·.id), s.session.config.playback.bitrateLimit)) =
      some (some 1, half) := by
    rw [limited, clip_eq]
    decide +kernel
  have hreach : limited.Reachable := reachable_clip.run _
  obtain ⟨s', h, p, p', hs', hh, -, hp', hlimit⟩ := limit_in_effect_iff hreach hs hplay htick rfl
  rw [hs', Option.map_some, hh] at hafter
  simp only [Option.map_some, Option.some.injEq, Prod.mk.injEq] at hafter
  obtain ⟨hid, hhalf⟩ := hafter
  rw [hhalf] at hlimit
  exact ⟨p', hid ▸ hp', hlimit.mpr (.inl (by decide))⟩

/-- The clip has played with a limit of one half; while it was paused the limit was lifted. -/
def lifted : World :=
  limited.run [.tick 0, .command 0 .pause, .command 0 (.setBitrateLimit Single.one),
    .command 0 .play, .push 1 ⟨⟨1, 1⟩, default⟩]

/-- The next frame flows with a limit of one half, although no limit is configured. -/
theorem lifted_limit_stays :
    (lifted.stage? 0).map (·.session.phase) = some .playing ∧
    (lifted.advance 0).2 = some (.ok ⟨.frame ⟨1, 1⟩ true false, 0⟩) ∧
    ((lifted.advance 0).1.stage? 0).map (·.session.config.playback.bitrateLimit) =
      some Single.one ∧
    ((lifted.advance 0).1.host.engine.pipelines.get? 1).map (·.bitrateLimit) = some half := by
  rw [lifted, limited, clip_eq]
  exact ⟨by decide +kernel, ticked (by decide +kernel), by decide +kernel, by decide +kernel⟩

end World
end MediaHost
