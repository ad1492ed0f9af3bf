import MediaHost.Proofs.Account
import MediaHost.Proofs.Tick

/-!
# Proofs — Passes

Media that loops comes to its end once in every pass.  The engine reports an end once until it is
armed again, and a session that loops arms it when it is told of the end.  So however long reports
are on their way, a session that is ticked and nothing else counts a finish for every so many frames
as there are in its media; and if they come at once, it counts one for every so many ticks and one
more (`one_end_a_pass`).
-/

namespace MediaHost

/-! ### One pass over the media -/

/-- The position of media after so many self-made frames from its start. -/
def AutoFrames.reach (auto : AutoFrames) : Nat → Double
  | 0 => .zero
  | n + 1 => (auto.reach n).add auto.step

/-- Media of this duration is at its end after `m` frames, and not before. -/
structure AutoFrames.Fills (auto : AutoFrames) (duration : Double) (m : Nat) : Prop where
  ends : duration.le (auto.reach m) = true
  within : ∀ k < m, duration.le (auto.reach k) = false

namespace Pipeline
variable {p q : Pipeline} {auto : AutoFrames} {k n : Nat} {ended : Bool} {d : Double}

/-- Media that plays, `k` frames from its start; its end was reported if it has `ended`. -/
structure Rolls (auto : AutoFrames) (k : Nat) (ended : Bool) (p : Pipeline) : Prop where
  loaded : p.loaded = true
  running : p.playing = true ∨ p.playRequested = true
  pending : p.pending = none
  endSent : p.endSent = ended
  position : p.position = auto.reach k

theorem Rolls.playing (h : Rolls auto k ended p) : p.begin.playing = true := by
  rcases h.running with hr | hr <;> simp [begin, hr, h.loaded]

/-- A self-driven source goes on, or is at its end, until it has reported the end. -/
theorem Rolls.goes (h : Rolls auto k ended p) :
    (p.begin.pending.isNone && p.begin.playing && !p.begin.endSent) = !ended := by
  have hpending : p.begin.pending = none := h.pending
  have hsent : p.begin.endSent = ended := h.endSent
  simp only [h.playing, hpending, hsent, Option.isNone_none, Bool.true_and]

theorem Rolls.begin (h : Rolls auto k ended p) : Rolls auto k ended p.begin :=
  ⟨h.loaded, .inl h.playing, h.pending, h.endSent, h.position⟩

theorem Rolls.retouched (h : Rolls auto k ended p) (hq : p.Retouched q) : Rolls auto k ended q := by
  obtain ⟨blits, limit, rfl⟩ := hq
  exact ⟨h.loaded, h.running, h.pending, h.endSent, h.position⟩

/-- Media goes back to its start. -/
theorem Rolls.rewound (h : Rolls auto k ended p) : Rolls auto 0 false (p.setPosition .zero) :=
  ⟨h.loaded, h.running, h.pending, rfl, rfl⟩

/-- What a grab does to media that plays, `k` frames from its start: what it reports, where it
brings the media, and how many frames it takes. -/
inductive Spin (auto : AutoFrames) (d : Double) :
    (k : Nat) → (ended : Bool) → List Event → (k' : Nat) → (ended' : Bool) → (taken : Nat) → Prop
  /-- The end was reported before. -/
  | rest (k : Nat) : Spin auto d k true [] k true 0
  | last {k : Nat} (hle : d.le (auto.reach k) = true) : Spin auto d k false [.finished] k true 0
  | frame {k : Nat} {es : List Event} (hle : d.le (auto.reach k) = false)
    (hes : .finished ∉ es) : Spin auto d k false es (k + 1) false 1

/-- One end is reported for every time that media comes to its end. -/
theorem Spin.count {es : List Event} {k' taken : Nat} {ended' : Bool}
    (h : Spin auto d k ended es k' ended' taken) :
    ended.toNat + es.count .finished = ended'.toNat := by
  cases h with
  | rest | last => rfl
  | frame _ hes => simpa using List.count_eq_zero.mpr hes

/-- The end comes after `m` frames, and no frame after it. -/
theorem Spin.within {es : List Event} {k' taken m : Nat} {ended' : Bool}
    (h : Spin auto d k ended es k' ended' taken) (hm : auto.Fills d m) (hk : k ≤ m)
    (hlast : ended = true → k = m) :
    k' = k + taken ∧ k' ≤ m ∧ (ended' = true → k' = m) := by
  cases h with
  | rest => exact ⟨rfl, hk, hlast⟩
  | last hle =>
      refine ⟨rfl, hk, fun _ => Nat.le_antisymm hk (Nat.not_lt.mp fun hlt => ?_)⟩
      cases hle.symm.trans (hm.within k hlt)
  | frame hle _ =>
      refine ⟨rfl, Nat.lt_of_le_of_ne hk fun heq => ?_, nofun⟩
      obtain rfl := heq
      cases hle.symm.trans hm.ends

theorem Rolls.grab (h : Rolls auto k ended p) :
    ∃ k' ended' taken,
      Spin auto p.duration k ended (p.grab (some auto)).2.2.toList k' ended' taken ∧
      Rolls auto k' ended' (p.grab (some auto)).1 ∧
      (p.grab (some auto)).1.duration = p.duration ∧
      (p.grab (some auto)).1.framesGrabbed = p.framesGrabbed + taken := by
  have hgoes := h.goes
  cases ended with
  | true =>
      have htake : p.begin.take = (p.begin, none) := by
        have hpending : p.begin.pending = none := h.pending
        simp only [take, hpending]
      have hgrab : p.grab (some auto) = (p.begin, none, none) := by
        simp only [Pipeline.grab, produce, hgoes, Bool.not_true, Bool.false_eq_true, if_false,
          htake]
        rfl
      rw [hgrab]
      exact ⟨k, true, 0, .rest k, h.begin, rfl, rfl⟩
  | false =>
      have hend : p.begin.duration.le p.begin.position = p.duration.le (auto.reach k) :=
        congrArg _ h.position
      cases hle : p.duration.le (auto.reach k) with
      | true =>
          have hgrab : p.grab (some auto) =
              ({ p.begin with endSent := true }, none, some .finished) := by
            simp only [Pipeline.grab, produce, hgoes, Bool.not_false, if_true, hend, hle]
          rw [hgrab]
          exact ⟨k, true, 0, .last hle, ⟨h.loaded, .inl h.playing, h.pending, rfl, h.position⟩, rfl,
            rfl⟩
      | false =>
          simp only [Pipeline.grab, produce, hgoes, Bool.not_false, if_true, hend, hle,
            Bool.false_eq_true, if_false, take]
          refine ⟨k + 1, false, 1, .frame hle ?_, ?_, rfl, rfl⟩
          · split <;> simp
          · exact ⟨h.loaded, .inl h.playing, rfl, h.endSent, congrArg (·.add auto.step) h.position⟩

end Pipeline

/-- A session at media that loops, `k` frames from its start and `n` frames in all; the engine has
reported the end of the media if it has `ended`. -/
structure Estate.Loops (auto : AutoFrames) (d : Double) (n k : Nat) (ended : Bool) (x : Estate) :
    Prop where
  configured : x.session.phase.isConfigured = true
  direction : x.session.status.direction = some .decoding
  looping : x.session.status.looping = true
  media : ∃ p, x.pipeline = some p ∧ p.duration = d ∧ p.framesGrabbed = n ∧ p.Rolls auto k ended

namespace Estate
variable {x : Estate} {auto : AutoFrames} {d : Double} {n k : Nat} {ended : Bool}

/-- A session that loops goes back to its start when it is told of the end. -/
theorem Loops.told_finished (h : x.Loops auto d n k ended) :
    (x.told .finished).Loops auto d n 0 false ∧
      (x.told .finished).session.health.finishes = x.session.health.finishes + 1 := by
  obtain ⟨p, hp, hd, hn, hr⟩ := h.media
  have hlive := Phase.isDestroyed_of_isConfigured h.configured
  have hback : (x.told .finished) = { (x.accounted .finished).notified .finish with
      pipeline := x.pipeline.map (·.setPosition .zero) } := by
    refine if_pos ?_
    change (x.session.status.looping && !x.session.phase.isDestroyed) = true
    rw [h.looping, hlive]
    rfl
  rw [hback]
  refine ⟨⟨h.configured, h.direction, h.looping, p.setPosition .zero, ?_, hd, hn, hr.rewound⟩, rfl⟩
  rw [hp]
  rfl

/-- Reports of quality, and of one end at most if the media has ended. -/
theorem Loops.toldAll {es : List Event} (h : x.Loops auto d n k ended)
    (hone : es.count .finished ≤ ended.toNat) (hcalm : ∀ e ∈ es, e.isFailure = false) :
    (es.count .finished = 0 ∧ (x.toldAll es).Loops auto d n k ended ∧
      (x.toldAll es).session.health.finishes = x.session.health.finishes) ∨
    (es.count .finished = 1 ∧ ended = true ∧ (x.toldAll es).Loops auto d n 0 false ∧
      (x.toldAll es).session.health.finishes = x.session.health.finishes + 1) := by
  induction es generalizing x k ended with
  | nil => exact .inl ⟨rfl, h, rfl⟩
  | cons e es ih =>
      have hrest : ∀ e ∈ es, e.isFailure = false := fun e he => hcalm e (List.mem_cons_of_mem _ he)
      rw [toldAll, List.foldl_cons]
      cases e with
      | finished =>
          rw [List.count_cons_self] at hone ⊢
          obtain ⟨hloops, hfinishes⟩ := h.told_finished
          have hended : ended = true ∧ es.count .finished = 0 := by
            cases ended
            · exact absurd hone (Nat.not_succ_le_zero _)
            · exact ⟨rfl, Nat.le_zero.mp (Nat.le_of_succ_le_succ hone)⟩
          rcases ih hloops (Nat.le_of_eq hended.2) hrest with ⟨hnone, hloops', hsame⟩ | ⟨-, hb, -⟩
          · exact .inr ⟨congrArg (· + 1) hnone, hended.1, hloops', hsame.trans hfinishes⟩
          · cases hb
      | failed message => cases hcalm _ List.mem_cons_self
      | quality report =>
          have hloops : (x.told (.quality report)).Loops auto d n k ended :=
            ⟨h.configured, h.direction, h.looping, h.media⟩
          have hquality : Event.quality report ≠ .finished := by simp
          rw [List.count_cons_of_ne hquality] at hone ⊢
          exact ih hloops hone hrest

/-- Nothing of this depends on who observes the session. -/
theorem loops_bare : x.bare.Loops auto d n k ended ↔ x.Loops auto d n k ended :=
  ⟨fun h => ⟨h.configured, h.direction, h.looping, h.media⟩,
    fun h => ⟨h.configured, h.direction, h.looping, h.media⟩⟩

end Estate

namespace Stage
variable {s : Stage} {h : Handle} {auto : AutoFrames} {d : Double} {n k : Nat} {ended : Bool}

/-- A look at media that loops. -/
theorem loops_pull (hp : s.session.pipeline = some h) (hx : s.estate.Loops auto d n k ended)
    (ha : s.host.engine.autoFrames = some auto) :
    ∃ p k' ended' taken, s.host.engine.pipelines.get? h.id = some p ∧
      Pipeline.Spin auto d k ended (p.grab (some auto)).2.2.toList k' ended' taken ∧
      (pull h s).1.estate.Loops auto d (n + taken) k' ended' ∧
      (pull h s).1.session.health.finishes = s.session.health.finishes := by
  obtain ⟨p, hmedia, rfl, rfl, hrolls⟩ := hx.media
  have hget : s.host.engine.pipelines.get? h.id = some p := by
    simpa only [estate, hp, Option.bind_some] using hmedia
  have hdecodes : s.decodes = true :=
    Bool.and_eq_true_iff.mpr ⟨decide_eq_true hx.direction, hx.configured⟩
  obtain ⟨f, hf, hretouched⟩ := alters_pull h hdecodes
  rw [ha] at hretouched
  obtain ⟨k', ended', taken, hspin, hrolls', hduration, hframes⟩ := hrolls.grab
  obtain ⟨frames, image, health, hsession⟩ := session_pull h s
  have hafter : (pull h s).1.estate.pipeline = some (f p) := by
    simp only [estate, hsession, hp, Option.bind_some]
    exact hf.at hget
  have hstatus : (pull h s).1.session.status = s.session.status := by rw [hsession]
  have hloops : (pull h s).1.estate.Loops auto p.duration (p.framesGrabbed + taken) k' ended' := by
    obtain ⟨blits, limit, hfp⟩ := hretouched p
    refine ⟨(congrArg (·.phase.isConfigured) hstatus).trans hx.configured,
      (congrArg Status.direction hstatus).trans hx.direction,
      (congrArg Status.looping hstatus).trans hx.looping, f p, hafter, ?_, ?_,
      hrolls'.retouched (hretouched p)⟩
    · rw [hfp]
      exact hduration
    · rw [hfp]
      exact hframes
  refine ⟨p, k', ended', taken, hget, hspin, hloops, ?_⟩
  rw [health_pull h s]
  split <;> rfl

end Stage

/-! ### Any number of passes -/

/-- Work leaves what is in flight alone, and the engine's manner. -/
theorem World.Leads.manner {w w' : World} (h : World.Leads w w') :
    w'.host.engine.manner = w.host.engine.manner ∧ w'.host.inFlight = w.host.inFlight := by
  refine h.preserves (P := fun x => x.host.engine.manner = w.host.engine.manner ∧
    x.host.inFlight = w.host.inFlight) (fun a b he ha => ?_) ⟨rfl, rfl⟩
  cases he with
  | loopBack i =>
      simp only [World.loopBack]
      split
      · exact ha
      · split
        · split <;> exact ha
        · exact ha
  | stopFailed i =>
      simp only [World.stopFailed]
      split
      · exact ha
      · split
        · split <;> exact ha
        · exact ha
  | _ => exact ha

/-- What a session that is ticked and nothing else may see: its own ticks, and reports that arrive,
soon or late. -/
def Action.rolls (i : Nat) : Action → Bool
  | .tick j => j = i
  | .arrive _ | .pace _ => true
  | _ => false

namespace World
variable {w w₀ : World} {i m n f q k : Nat} {ended : Bool} {s : Stage} {auto : AutoFrames}
  {d : Double}

/-- A session at media that loops, of `m` frames to a pass: it has counted `q` finishes more than
`f`, and `q` passes and `k` frames more than `n` frames.  One end is on its way to it if the media
has ended, and otherwise none. -/
structure Turns (i : Nat) (auto : AutoFrames) (d : Double) (m n f q k : Nat) (ended : Bool)
    (s : Stage) (w : World) : Prop where
  stage : w.stage? i = some s
  source : w.host.engine.autoFrames = some auto
  loops : s.estate.Loops auto d (n + q * m + k) k ended
  within : k ≤ m
  last : ended = true → k = m
  finishes : s.session.health.finishes = f + q
  due : s.coming.count .finished = ended.toNat
  calm : ∀ e ∈ s.coming, e.isFailure = false

/-- What a session that is up is connected to. -/
theorem Tidy.connected (hw : w.Tidy) (hs : w.stage? i = some s) {g : Handle}
    (hg : s.session.pipeline = some g) :
    ∃ t p y, s.session.token = some t ∧ s.host.engine.pipelines.get? g.id = some p ∧
      p.wire = (t, .all) ∧ s.host.arena.resolve t = some y ∧ y.queue = s.session.queue := by
  obtain ⟨t, hwir⟩ := hw.sound.wiring_of_pipeline hs hg
  obtain ⟨⟨p, hget, hwire⟩, hsome⟩ := Stage.attached_up hwir (hw.sound.attached hs)
  obtain ⟨y, hy⟩ := Option.isSome_iff_exists.mp hsome
  have ht : s.session.token = some t := congrArg Wiring.token hwir
  exact ⟨t, p, y, ht, hget, hwire, hy, (hw.home hs t ht).2 y hy⟩

theorem Turns.pipeline (h : w.Turns i auto d m n f q k ended s) :
    ∃ g, s.session.pipeline = some g := by
  obtain ⟨p, hp, -⟩ := h.loops.media
  obtain ⟨g, hg, -⟩ := Option.bind_eq_some_iff.mp hp
  exact ⟨g, hg⟩

/-- A look of the session moves it on by one grab. -/
theorem Turns.look (h : w.Turns i auto d m n f q k ended s) (hw : w.Tidy) (hm : auto.Fills d m)
    (hopen : s.isDeaf = false) {g : Handle} (hg : s.session.pipeline = some g) :
    ∃ es k' ended' taken, Pipeline.Spin auto d k ended es k' ended' taken ∧
      (w.put (Stage.pull g s).1).Turns i auto d m n f q k' ended' (Stage.pull g s).1 ∧
      (w.host.engine.prompt = true → (Stage.pull g s).1.host.inFlight = w.host.inFlight) := by
  obtain ⟨hi, -, hhost⟩ := stage?_eq_some.mp h.stage
  have hsource : s.host.engine.autoFrames = some auto :=
    (congrArg (·.engine.autoFrames) hhost).trans h.source
  obtain ⟨p, k', ended', taken, hget, hspin, hloops, hfinishes⟩ :=
    Stage.loops_pull hg h.loops hsource
  obtain ⟨t, p', y, ht, hget', hwire, hy, hqueue⟩ := hw.connected h.stage hg
  obtain rfl := Option.some.inj (hget'.symm.trans hget)
  have hdecodes : s.decodes = true :=
    Bool.and_eq_true_iff.mpr ⟨decide_eq_true h.loops.direction, h.loops.configured⟩
  obtain ⟨hcoming, hflight⟩ := Stage.coming_pull hdecodes hopen hy hqueue hget hwire
  rw [hsource] at hcoming
  obtain ⟨frames, image, health, hsession⟩ := Stage.session_pull g s
  have ht' : (Stage.pull g s).1.session.token = some t := by rw [hsession, ht]
  have hqueue' : (Stage.pull g s).1.session.queue = s.session.queue := by rw [hsession]
  rw [← hqueue', ← Stage.coming_eq ht', hqueue', ← Stage.coming_eq ht] at hcoming
  have hindex := (Stage.keeps_pull s hg).index.trans hi
  obtain ⟨hmoved, hwithin, hlast⟩ := hspin.within hm h.within h.last
  refine ⟨_, k', ended', taken, hspin, ?_, fun hprompt => ?_⟩
  · refine ⟨by rw [stage?_put, if_pos hindex], ?_, ?_, hwithin, hlast,
      hfinishes.trans h.finishes, ?_, ?_⟩
    · exact (congrArg Prod.fst (Stage.manner_pull g s)).trans hsource
    · rw [hmoved, ← Nat.add_assoc, ← hmoved]
      exact hloops
    · rw [hcoming.count_eq, List.count_append, h.due, hspin.count]
    · intro e he
      rcases List.mem_append.mp (hcoming.mem_iff.mp he) with he | he
      · exact h.calm e he
      · exact Pipeline.isFailure_grab (Option.mem_toList.mp he)
  · rw [← hhost] at hprompt ⊢
    exact hflight hprompt

/-- A tick of the session.  It looks for a frame; and if it does not panic, the session is told of
all that waits, and goes back to the start of its media if that has ended. -/
theorem Turns.tick (h : w.Turns i auto d m n f q k ended s) (hw : w.Tidy) (hm : auto.Fills d m)
    (hopen : s.isDeaf = false) :
    ∃ s' es k' ended' taken, (w.apply (.tick i)).stage? i = some s' ∧
      Pipeline.Spin auto d k ended es k' ended' taken ∧
      (s'.isDeaf = false →
        (w.apply (.tick i)).Turns i auto d m n f q k' ended' s' ∨
        ended' = true ∧ (w.apply (.tick i)).Turns i auto d m n f (q + 1) 0 false s') ∧
      (w.host.engine.prompt = true → (w.advance i).2 ≠ some (.error .overflow) →
        s.coming = [] → s'.coming = []) := by
  obtain ⟨g, hg⟩ := h.pipeline
  have hl : s.session.live = .ok g :=
    Stage.live_eq_ok.mpr ⟨Phase.isDestroyed_of_isConfigured h.loops.configured, hg⟩
  obtain ⟨es, k', ended', taken, hspin, hlook, hflight⟩ := h.look hw hm hopen hg
  have hact : w.act i (·.withLive Stage.pull) =
      (w.put (Stage.pull g s).1, some (.ok (Stage.pull g s).2)) := by
    rw [act_eq h.stage, Stage.withLive_of_live hl]
  by_cases hfits : (Stage.pull g s).2 = .overflow
  · have hpanics : w.advance i = (w.put (Stage.pull g s).1, some (.error .overflow)) := by
      simp only [advance, hact, hfits]
    have happly : w.apply (.tick i) = w.put (Stage.pull g s).1 := congrArg Prod.fst hpanics
    rw [happly]
    exact ⟨_, es, k', ended', taken, hlook.stage, hspin, fun _ => .inl hlook,
      fun _ hok => absurd (congrArg Prod.snd hpanics) hok⟩
  obtain ⟨s', hs', hmail', hleads, hwanes, htold⟩ := hw.ticked_own h.stage hl hfits
  obtain ⟨hmanner, hflight'⟩ := hleads.manner
  -- what was in flight when the look was done is all that is on its way after the tick
  have hlooked : (w.put (Stage.pull g s).1).Tidy := by
    have hlooked := hw.look i
    rwa [hact] at hlooked
  obtain ⟨g', hg'⟩ := hlook.pipeline
  obtain ⟨t, -, -, ht, -⟩ := hlooked.connected hlook.stage hg'
  have haddr := hwanes.address i
  simp only [address, (stage?_eq_some.mp hs').2.1, (stage?_eq_some.mp hlook.stage).2.1,
    Option.map_some, Option.some.injEq, Prod.mk.injEq] at haddr
  have hcoming' : s'.coming = reportsTo t (Stage.pull g s).1.host.inFlight := by
    rw [Stage.coming_eq (haddr.1.trans ht), Host.coming, ← haddr.1.trans ht]
    change s'.mail ++ _ = _
    rw [hmail', (stage?_eq_some.mp hs').2.2, hflight']
    rfl
  have hcoming : (Stage.pull g s).1.coming = (Stage.pull g s).1.mail ++ s'.coming := by
    rw [hcoming', Stage.coming_eq ht, Host.coming, Stage.mail, ht]
  have hdue := hlook.due
  have hcalm := hlook.calm
  rw [hcoming] at hdue hcalm
  rw [List.count_append] at hdue
  refine ⟨s', es, k', ended', taken, hs', hspin, fun hopen' => ?_, fun hprompt _ hnone => ?_⟩
  · have hsource := (congrArg Prod.fst hmanner).trans hlook.source
    have hcalm' : ∀ e ∈ s'.coming, e.isFailure = false := fun e he =>
      hcalm e (List.mem_append_right _ he)
    have hbare := htold hopen'
    have hfinishes : ∀ c, s'.estate.bare.session.health.finishes =
        (Stage.pull g s).1.estate.bare.session.health.finishes + c →
          s'.session.health.finishes = f + q + c := fun c hc =>
      hc.trans (congrArg (· + c) hlook.finishes)
    have hone : (Stage.pull g s).1.mail.count .finished ≤ ended'.toNat := by omega
    rcases (Estate.loops_bare.mpr hlook.loops).toldAll hone
      (fun e he => hcalm e (List.mem_append_left _ he)) with
      ⟨hzero, hloops, hsame⟩ | ⟨hone, hended, hloops, hsame⟩ <;> rw [← hbare] at hloops hsame
    · exact .inl ⟨hs', hsource, Estate.loops_bare.mp hloops, hlook.within, hlook.last,
        hfinishes 0 hsame, by omega, hcalm'⟩
    · refine .inr ⟨hended, hs', hsource, Estate.loops_bare.mp ?_, Nat.zero_le m, by simp,
        hfinishes 1 hsame, ?_, hcalm'⟩
      · have hpass : n + (q + 1) * m + 0 = n + q * m + k' := by
          rw [hlook.last hended, Nat.add_mul, Nat.one_mul, ← Nat.add_assoc]
          rfl
        rw [hpass]
        exact hloops
      · simp only [hended, Bool.toNat_true] at hdue
        simp only [Bool.toNat_false]
        omega
  · obtain ⟨t₀, -, -, ht₀, -⟩ := hw.connected h.stage hg
    obtain ⟨frames, image, health, hsession⟩ := Stage.session_pull g s
    have htoken : (Stage.pull g s).1.session.token = s.session.token := by rw [hsession]
    obtain rfl : t₀ = t := Option.some.inj (ht₀.symm.trans (htoken.symm.trans ht))
    rw [Stage.coming_eq ht₀, Host.coming, (stage?_eq_some.mp h.stage).2.2] at hnone
    rw [hcoming', hflight hprompt]
    exact (List.append_eq_nil_iff.mp hnone).2

/-- A change of the host that leaves the engine's media alone, and what is on its way. -/
theorem Turns.hosted (h : w.Turns i auto d m n f q k ended s) {a : Host}
    (hsource : a.engine.autoFrames = w.host.engine.autoFrames)
    (hmedia : a.engine.pipelines = w.host.engine.pipelines)
    (hcoming : ({ s with host := a } : Stage).coming.Perm s.coming) :
    World.Turns i auto d m n f q k ended { s with host := a } { w with host := a } := by
  obtain ⟨hi, hget, hhost⟩ := stage?_eq_some.mp h.stage
  refine ⟨stage?_eq_some.mpr ⟨hi, hget, rfl⟩, hsource.trans h.source, ?_, h.within, h.last,
    h.finishes, (hcoming.count_eq _).trans h.due, fun e he => h.calm e (hcoming.mem_iff.mp he)⟩
  have hestate : ({ s with host := a } : Stage).estate = s.estate := by
    simp only [Stage.estate, hmedia, hhost]
  rw [hestate]
  exact h.loops

/-- One step of what a session may see that is ticked and nothing else. -/
theorem Turns.roll (h : w.Turns i auto d m n f q k ended s) (hw : w.Tidy) (hm : auto.Fills d m)
    (hopen : s.isDeaf = false) {b : Action} (hb : b.rolls i = true) :
    ∃ s', (w.apply b).stage? i = some s' ∧
      (s'.isDeaf = false → ∃ q' k' ended', (w.apply b).Turns i auto d m n f q' k' ended' s') := by
  cases b with
  | tick j =>
      obtain rfl : j = i := of_decide_eq_true hb
      obtain ⟨s', es, k', ended', taken, hs', -, hturns, -⟩ := h.tick hw hm hopen
      refine ⟨s', hs', fun hopen' => ?_⟩
      rcases hturns hopen' with hturns | ⟨-, hturns⟩ <;> exact ⟨_, _, _, hturns⟩
  | arrive c =>
      obtain ⟨g, hg⟩ := h.pipeline
      obtain ⟨t, -, y, ht, -, -, hy, hqueue⟩ := hw.connected h.stage hg
      have hhost := (stage?_eq_some.mp h.stage).2.2
      have hengine : (w.host.arrive c).engine = w.host.engine :=
        congrArg Context.engine (Host.context_arrive c)
      have hturns := h.hosted (a := w.host.arrive c) (by rw [hengine]) (by rw [hengine]) (by
        rw [Stage.coming_eq ht, Stage.coming_eq (s := { s with host := w.host.arrive c }) ht,
          ← hhost]
        exact Host.coming_arrive hy hqueue hopen c)
      exact ⟨_, hturns.stage, fun _ => ⟨q, k, ended, hturns⟩⟩
  | pace prompt =>
      have hhost := (stage?_eq_some.mp h.stage).2.2
      have hturns := h.hosted (a := w.host.tell fun e => { e with prompt := prompt }) rfl rfl
        (by rw [← hhost]; exact .refl _)
      exact ⟨_, hturns.stage, fun _ => ⟨q, k, ended, hturns⟩⟩
  | _ => cases hb

/-- Any number of them. -/
theorem Turns.run {bs : List Action} (h : w.Turns i auto d m n f q k ended s) (hw : w.Tidy)
    (hm : auto.Fills d m) (hbs : ∀ b ∈ bs, b.rolls i = true)
    (hopen : ∀ cs, cs <+: bs → ∀ s', (w.run cs).stage? i = some s' → s'.isDeaf = false) :
    ∃ q' k' ended' s', (w.run bs).Turns i auto d m n f q' k' ended' s' := by
  induction bs generalizing w q k ended s with
  | nil => exact ⟨q, k, ended, s, h⟩
  | cons b bs ih =>
      obtain ⟨s', hs', hnext⟩ :=
        h.roll hw hm (hopen [] List.nil_prefix s h.stage) (hbs b List.mem_cons_self)
      have hone : [b] <+: b :: bs := List.prefix_append [b] bs
      obtain ⟨q', k', ended', hturns⟩ := hnext (hopen [b] hone s' hs')
      exact ih hturns (hw.apply b) (fun c hc => hbs c (List.mem_cons_of_mem b hc))
        fun cs hcs => hopen (b :: cs) (List.cons_prefix_cons.mpr ⟨rfl, hcs⟩)

/-- Ticks, and nothing else. -/
def ticks (w : World) (i n : Nat) : World := w.run (List.replicate n (.tick i))

theorem ticks_succ (w : World) (i n : Nat) : w.ticks i (n + 1) = (w.ticks i n).apply (.tick i) := by
  rw [ticks, List.replicate_succ', run_append]
  rfl

/-- The engine's threads stay as prompt as they are. -/
theorem prompt_tick (w : World) (i : Nat) :
    (w.apply (.tick i)).host.engine.prompt = w.host.engine.prompt := by
  refine (congrArg Prod.snd (leads_advance w i).manner.1).trans ?_
  cases hs : w.stage? i with
  | none =>
      simp only [act, hs]
      rfl
  | some s =>
      rcases look_cases hs with ⟨e, hlook⟩ | ⟨g, -, hlook⟩
      · rw [hlook]
        rfl
      · rw [hlook, ← (stage?_eq_some.mp hs).2.2]
        exact congrArg Prod.snd (Stage.manner_pull g s)

/-- If reports come at once, then after any number of ticks that do not panic there are `q` passes
and `r` frames of the next one, and nothing is on its way. -/
theorem Turns.ticks {x : Nat} (h : w.Turns i auto d m n f 0 0 false s) (hw : w.Tidy)
    (hm : auto.Fills d m) (hnone : s.coming = []) (hprompt : w.host.engine.prompt = true)
    (hfits : ∀ c < x, ((w.ticks i c).advance i).2 ≠ some (.error .overflow))
    (hopen : ∀ c ≤ x, ∀ s', (w.ticks i c).stage? i = some s' → s'.isDeaf = false) :
    (w.ticks i x).host.engine.prompt = true ∧
    ∃ q r s', x = q * (m + 1) + r ∧ (w.ticks i x).Turns i auto d m n f q r false s' ∧
      s'.coming = [] := by
  induction x with
  | zero => exact ⟨hprompt, 0, 0, s, (Nat.zero_mul (m + 1)).symm, h, hnone⟩
  | succ x ih =>
      obtain ⟨hprompt', q, r, s₁, hx, hturns, hnone₁⟩ :=
        ih (fun c hc => hfits c (Nat.lt_succ_of_lt hc)) fun c hc => hopen c (Nat.le_succ_of_le hc)
      obtain ⟨s', es, k', ended', taken, hs', hspin, hnext, hcoming⟩ :=
        hturns.tick (hw.run _) hm (hopen x (Nat.le_succ x) s₁ hturns.stage)
      have hnone' := hcoming hprompt' (hfits x (Nat.lt_succ_self x)) hnone₁
      rw [← ticks_succ] at hs' hnext
      have hnext' := hnext (hopen (x + 1) (Nat.le_refl _) s' hs')
      refine ⟨by rw [ticks_succ, prompt_tick, hprompt'], ?_⟩
      obtain ⟨hmoved, -, hlast⟩ := hspin.within hm hturns.within hturns.last
      rcases hnext' with hturns' | ⟨hended, hturns'⟩
      · -- no end is on its way, so the look has found none
        have hdue := hturns'.due
        rw [hnone'] at hdue
        cases hspin with
        | last => cases hdue
        | frame => exact ⟨q, r + 1, s', by omega, hturns', hnone'⟩
      · have hend : k' = m := hlast hended
        cases hspin with
        | last => exact ⟨q + 1, 0, s', by rw [Nat.add_mul]; omega, hturns', hnone'⟩
        | frame => cases hended

end World

/-- Of every engine, for every pipeline, whatever it was asked before: as long as nothing arms the
pipeline again, one end of its stream is reported at most, and once one was, the frames that are
grabbed are those that were handed over.  An encoder is ended only if it is loaded and plays.

So a session that loops, is only ticked and has a source that makes its frames counts one finish
for every pass over its media.  Whenever the engine's reports arrive: after `q` passes it has
counted `q` finishes, with one more on its way exactly if the next pass has ended too.  And if they
arrive at once, before the tick runs what waits, and no tick panics, then a pass takes as many ticks
as the media has frames, and one more. -/
theorem one_end_a_pass :
    (∀ (e : Engine) (k : Nat) (as bs : List Ask), e.pipelines = {} →
      (∀ a ∈ bs, a.arms k = false) →
      (e.after as).reports k bs ≤ 1 ∧
      ((e.after as).reports k bs = 1 → ∀ size,
        ((e.after (as ++ bs)).grab k).2.1 = some size →
        ∃ p f, (e.after (as ++ bs)).pipelines.get? k = some p ∧
          Engine.handed k (as ++ bs) = some f ∧ size = p.crop.apply f.size)) ∧
    (∀ (e : Engine) (k : Nat), (e.stopEncoding k).2 ≠ [] →
      ∃ p, e.pipelines.get? k = some p ∧ p.loaded = true ∧ p.playing = true) ∧
    (∀ (w₀ : World) (as : List Action) (i m n : Nat) (s : Stage) (auto : AutoFrames) (d : Double),
      w₀.Fresh → w₀.host.queues = {} → (w₀.run as).host.engine.autoFrames = some auto →
      (w₀.run as).stage? i = some s → s.estate.Loops auto d n 0 false → s.coming = [] →
      auto.Fills d m →
      (∀ bs, (∀ b ∈ bs, b.rolls i = true) →
        (∀ cs, cs <+: bs → ∀ s', ((w₀.run as).run cs).stage? i = some s' → s'.isDeaf = false) →
        ∃ s' q k ended, ((w₀.run as).run bs).stage? i = some s' ∧
          s'.estate.Loops auto d (n + q * m + k) k ended ∧ k ≤ m ∧ (ended = true → k = m) ∧
          s'.session.health.finishes = s.session.health.finishes + q ∧
          s'.coming.count .finished = ended.toNat) ∧
      ∀ x, (w₀.run as).host.engine.prompt = true →
        (∀ c < x, (((w₀.run as).ticks i c).advance i).2 ≠ some (.error .overflow)) →
        (∀ c ≤ x, ∀ s', ((w₀.run as).ticks i c).stage? i = some s' → s'.isDeaf = false) →
        ∃ s', ((w₀.run as).ticks i x).stage? i = some s' ∧
          s'.session.health.finishes = s.session.health.finishes + x / (m + 1) ∧
          s'.estate.Loops auto d (n + x / (m + 1) * m + x % (m + 1)) (x % (m + 1)) false) := by
  refine ⟨fun e k as bs he hbs => ?_, fun e k hne => ?_,
    fun w₀ as i m n s auto d h₀ hnew hsource hs hloops hnone hfills => ?_⟩
  · have hkept := Engine.kept_after (Engine.kept_of_empty he k) as
    have hsum := hkept.reports_after hbs
    have hone := Engine.left_le_one k (e.after as)
    refine ⟨by omega, fun hreported size hsize => ?_⟩
    have hspent : ((e.after as).after bs).left k = 0 := by omega
    rw [Engine.after_append] at hsize ⊢
    rw [(Engine.grab_spec _ k).1] at hsize
    obtain ⟨f, hf, rfl⟩ := Option.map_eq_some_iff.mp hsize
    have hkept' := Engine.kept_after hkept bs
    obtain ⟨p, g, hp, hg, rfl⟩ := hkept'.ready?_of_spent hspent hf
    refine ⟨p, g, hp, ?_, rfl⟩
    rw [Engine.handed, List.foldl_append]
    exact hg
  · simp only [Engine.stopEncoding] at hne
    split at hne
    · exact absurd rfl hne
    · next p hp =>
        rcases p.stopEncoding_cases with ⟨-, hloaded, hplaying, -⟩ | hidle
        · exact ⟨p, hp, hloaded, hplaying⟩
        · rw [hidle] at hne
          exact absurd rfl hne
  · have hw := (h₀.tidy hnew).run as
    have hturns : (w₀.run as).Turns i auto d m n s.session.health.finishes 0 0 false s := by
      refine ⟨hs, hsource, ?_, Nat.zero_le m, by simp, rfl, by rw [hnone]; rfl, ?_⟩
      · rw [Nat.zero_mul]
        exact hloops
      · rw [hnone]
        exact List.forall_mem_nil _
    refine ⟨fun bs hbs hopen => ?_, fun x hprompt hfits hopen => ?_⟩
    · obtain ⟨q, k, ended, s', hrun⟩ := hturns.run hw hfills hbs hopen
      exact ⟨s', q, k, ended, hrun.stage, hrun.loops, hrun.within, hrun.last, hrun.finishes,
        hrun.due⟩
    · obtain ⟨-, q, r, s', hx, hrun, -⟩ := hturns.ticks hw hfills hnone hprompt hfits hopen
      have hlt : r < m + 1 := Nat.lt_succ_of_le hrun.within
      have hq : x / (m + 1) = q := by
        rw [hx, Nat.add_comm, Nat.add_mul_div_right _ _ (Nat.succ_pos m), Nat.div_eq_of_lt hlt,
          Nat.zero_add]
      have hrest : x % (m + 1) = r := by
        rw [hx, Nat.add_comm, Nat.add_mul_mod_self_right, Nat.mod_eq_of_lt hlt]
      rw [hq, hrest]
      exact ⟨s', hrun.stage, hrun.finishes, hrun.loops⟩

/-- An engine with a source of its own, for media of one frame. -/
def selfDriven : Engine :=
  { autoFrames := some ⟨⟨4, 2⟩, Double.one⟩, duration := Double.one }

/-- A clip whose only frame was grabbed. -/
def grabbedClip : List Ask :=
  [.create "clip" .all 1, .order 1 (.setupDecoding ⟨"file:///clip.mp4", 0, 0, none, 0, {}⟩),
    .order 1 .play, .order 1 .grab]

/-- It is at its end, and is handed a frame then. -/
def handedClip : List Ask := [.order 1 .grab, .order 1 (.push ⟨⟨8, 6⟩, ⟨0, 0, 0, 0⟩⟩)]

/-- An encoder that plays. -/
def playedEncoder : List Ask :=
  [.create "film" .all 1, .order 1 (.setupEncoding ⟨"out.mp4", ⟨4, 2⟩⟩), .order 1 .play]

namespace World

def selfDriven : World := { host := { context := { engine := MediaHost.selfDriven } } }

theorem fresh_selfDriven : Fresh selfDriven :=
  ⟨rfl, rfl, rfl, rfl, rfl, rfl, rfl, rfl, rfl, rfl, rfl⟩

/-- A session that is about to loop. -/
def loopedClip : List Action :=
  [.newSession 0 1 {} (.outline ⟨1, 1⟩), .command 0 .bringUp,
    .command 0 (.setup "file:///clip.mp4" 0 0), .command 0 (.setLooping true), .command 0 .play]

/-- Nothing in the setup of the clip depends on its name. -/
theorem run_loopedClip : selfDriven.run loopedClip =
    (((selfDriven.run (loopedClip.take 2)).act 0 fun s => s.changeLive fun h x =>
      Stage.accept h (s.session.config.decoding "file:///clip.mp4" 0 0)
        (Stage.closeMedia h x)).1).run (loopedClip.drop 3) := by
  have husable : Stage.isUsable "file:///clip.mp4" = true := by simp [Stage.isUsable]
  refine congrArg (fun f => (((selfDriven.run (loopedClip.take 2)).act 0 f).1).run
    (loopedClip.drop 3)) (funext fun s => ?_)
  exact Stage.setupWith_of_usable s (d := s.session.config.decoding "file:///clip.mp4" 0 0) husable

end World

/-- The engine takes its time with the end of the first pass. -/
def lateEnd : List Action := [.pace false, .tick 0, .tick 0, .arrive 0, .tick 0]

/-- Four ticks are two passes over media of one frame; and if the end is reported late, it is still
one finish for the pass. -/
theorem looped_clip_finishes_twice :
    ((selfDriven.after grabbedClip).reports 1 handedClip ≤ 1 ∧
      ∃ p f, (selfDriven.after (grabbedClip ++ handedClip)).pipelines.get? 1 = some p ∧
        Engine.handed 1 (grabbedClip ++ handedClip) = some f ∧ ⟨8, 6⟩ = p.crop.apply f.size) ∧
    (∃ p, (selfDriven.after playedEncoder).pipelines.get? 1 = some p ∧ p.loaded = true ∧
      p.playing = true) ∧
    (∃ s' q k ended, ((World.selfDriven.run World.loopedClip).run lateEnd).stage? 0 = some s' ∧
      s'.estate.Loops ⟨⟨4, 2⟩, Double.one⟩ Double.one (0 + q * 1 + k) k ended ∧
      s'.session.health.finishes = q ∧ s'.coming.count .finished = ended.toNat) ∧
    ∃ s', ((World.selfDriven.run World.loopedClip).ticks 0 4).stage? 0 = some s' ∧
      s'.session.health.finishes = 2 := by
  obtain ⟨hengine, hencoder, hsession⟩ := one_end_a_pass
  obtain ⟨hone, hready⟩ := hengine selfDriven 1 grabbedClip handedClip rfl (by decide)
  refine ⟨⟨hone, hready (by decide +kernel) ⟨8, 6⟩ (by decide +kernel)⟩,
    hencoder _ 1 (by decide +kernel), ?_⟩
  have hsettings : ((World.selfDriven.run World.loopedClip).stage? 0).map (fun s =>
      (s.session.phase.isConfigured, s.session.status, s.coming, s.session.health.finishes)) =
      some (true, ⟨.playing, some .decoding, true⟩, [], 0) := by
    rw [World.run_loopedClip]
    decide +kernel
  obtain ⟨s, hs, hvalues⟩ := Option.map_eq_some_iff.mp hsettings
  obtain ⟨hconf, hstatus, hcoming, hnone⟩ : s.session.phase.isConfigured = true ∧
      s.session.status = ⟨.playing, some .decoding, true⟩ ∧ s.coming = [] ∧
      s.session.health.finishes = 0 := by simpa only [Prod.mk.injEq] using hvalues
  have hpipeline : (((World.selfDriven.run World.loopedClip).stage? 0).bind
      (·.estate.pipeline)).map (fun p => (p.duration, p.framesGrabbed, p.position,
        p.loaded && p.playRequested && p.pending.isNone && !p.endSent)) =
      some (Double.one, 0, .zero, true) := by
    rw [World.run_loopedClip]
    decide +kernel
  rw [hs] at hpipeline
  obtain ⟨p, hp, hplayed⟩ := Option.map_eq_some_iff.mp hpipeline
  obtain ⟨hduration, hframes, hposition, ⟨⟨hloaded, hrequested⟩, hpending⟩, hsent⟩ :
      p.duration = Double.one ∧ p.framesGrabbed = 0 ∧ p.position = .zero ∧
      ((p.loaded = true ∧ p.playRequested = true) ∧ p.pending = none) ∧ p.endSent = false := by
    simpa only [Prod.mk.injEq, Bool.and_eq_true, Option.isNone_iff_eq_none, Bool.not_eq_true']
      using hplayed
  have hloops : s.estate.Loops ⟨⟨4, 2⟩, Double.one⟩ Double.one 0 0 false :=
    ⟨hconf, congrArg Status.direction hstatus, congrArg Status.looping hstatus, p, hp, hduration,
      hframes, hloaded, .inr hrequested, hpending, hsent, hposition⟩
  have hheard : ∀ {w : World}, (w.stage? 0).any (·.isDeaf) = false → ∀ s', w.stage? 0 = some s' →
      s'.isDeaf = false := by
    intro w hw s' hs'
    rwa [hs', Option.any_some] at hw
  obtain ⟨hlate, hprompt⟩ := hsession World.selfDriven World.loopedClip 0 1 0 s _ _
    World.fresh_selfDriven rfl (by rw [World.run_loopedClip]; decide +kernel) hs hloops hcoming
    ⟨by decide +kernel, by decide +kernel⟩
  refine ⟨?_, ?_⟩
  · have hopen : ∀ c ≤ 5, (((World.selfDriven.run World.loopedClip).run
        (lateEnd.take c)).stage? 0).any (·.isDeaf) = false := by
      rw [World.run_loopedClip]
      decide +kernel
    obtain ⟨s', q, k, ended, hs', hloops', -, -, hfinishes, hdue⟩ :=
      hlate lateEnd (by decide) fun cs hcs => by
        rw [List.prefix_iff_eq_take.mp hcs]
        exact hheard (hopen cs.length hcs.length_le)
    exact ⟨s', q, k, ended, hs', hloops', by rw [hfinishes, hnone, Nat.zero_add], hdue⟩
  · have hopen : ∀ c ≤ 4, (((World.selfDriven.run World.loopedClip).ticks 0 c).stage? 0).any
        (·.isDeaf) = false := by
      rw [World.run_loopedClip]
      decide +kernel
    obtain ⟨s', hs', hfinishes, -⟩ := hprompt 4 (by rw [World.run_loopedClip]; decide +kernel)
      (by rw [World.run_loopedClip]; decide +kernel) fun c hc => hheard (hopen c hc)
    exact ⟨s', hs', hfinishes.trans (by rw [hnone])⟩

end MediaHost
