import MediaHost.Proofs.FirstFrame
import MediaHost.Proofs.Tally

/-!
# Proofs — Account

The account of a session says what the host was shown since the last setup: how many frames its
ticks brought, and which events were delivered to it (`account_agrees`).  It starts over with every
command that sets up media and with no other (`Stage.health_exec`); the frames it counts are those
that the cues of a run tell of, and the events are those that its ticks and drains brought
(`World.Since`).
-/

namespace MediaHost

/-! ### What an account says of events -/

/-- What the engine reported with an event. -/
def Event.report? : Event → Option QualityReport
  | .quality r => some r
  | .finished | .failed _ => none

def Event.isFinish : Event → Bool
  | .finished => true
  | .failed _ | .quality _ => false

/-- The figures of the last report, if there was one. -/
def Health.Shows (h : Health) : Option QualityReport → Prop
  | none => h.processed = 0 ∧ h.dropped = 0 ∧ h.lastJitter = 0 ∧ h.proportion = Double.one
  | some r => h.processed = r.processed ∧ h.dropped = r.dropped ∧ h.lastJitter = r.jitter ∧
      h.proportion = r.proportion

/-- The account is one of these events, in this order. -/
structure Health.Sums (h : Health) (es : List Event) : Prop where
  finishes : h.finishes = es.countP Event.isFinish
  errors : h.errors = es.countP Event.isFailure
  reports : h.reports = (es.filterMap Event.report?).length
  last : h.Shows (es.filterMap Event.report?).getLast?
  maxJitter : h.maxJitter.toInt =
    ((es.filterMap Event.report?).map (·.jitter.toInt)).foldl max 0

namespace Health
variable {h : Health} {es : List Event}

theorem sums_nil : Sums {} [] := ⟨rfl, rfl, rfl, ⟨rfl, rfl, rfl, rfl⟩, rfl⟩

theorem toInt_maxJitter (h : Health) (r : QualityReport) :
    (h.recordReport r).maxJitter.toInt = max h.maxJitter.toInt r.jitter.toInt := by
  simp only [recordReport]
  split
  · next hlt =>
      have hint := Int64.lt_iff_toInt_lt.mp hlt
      omega
  · next hge =>
      have hint := mt Int64.lt_iff_toInt_lt.mpr hge
      omega

theorem Sums.record (hs : h.Sums es) (e : Event) : (h.record e).Sums (es ++ [e]) := by
  obtain ⟨hfin, herr, hrep, hlast, hmax⟩ := hs
  cases e with
  | finished =>
      have hnone : (es ++ [Event.finished]).filterMap Event.report? =
          es.filterMap Event.report? := by simp [Event.report?]
      refine ⟨?_, ?_, hnone ▸ hrep, hnone ▸ hlast, hnone ▸ hmax⟩
      · simp [Health.record, recordFinish, hfin, Event.isFinish]
      · simp [Health.record, recordFinish, herr, Event.isFailure]
  | failed message =>
      have hnone : (es ++ [Event.failed message]).filterMap Event.report? =
          es.filterMap Event.report? := by simp [Event.report?]
      refine ⟨?_, ?_, hnone ▸ hrep, hnone ▸ hlast, hnone ▸ hmax⟩
      · simp [Health.record, recordError, hfin, Event.isFinish]
      · simp [Health.record, recordError, herr, Event.isFailure]
  | quality r =>
      have hsome : (es ++ [Event.quality r]).filterMap Event.report? =
          es.filterMap Event.report? ++ [r] := by simp [Event.report?]
      refine ⟨?_, ?_, ?_, ?_, ?_⟩
      · simp [Health.record, recordReport, hfin, Event.isFinish]
      · simp [Health.record, recordReport, herr, Event.isFailure]
      · simp [Health.record, recordReport, hrep, hsome]
      · rw [hsome, List.getLast?_concat]
        exact ⟨rfl, rfl, rfl, rfl⟩
      · rw [hsome, List.map_append, List.foldl_append, ← hmax]
        exact toInt_maxJitter h r

theorem Sums.recordAll (hs : h.Sums es) (fs : List Event) :
    (fs.foldl Health.record h).Sums (es ++ fs) := by
  induction fs generalizing h es with
  | nil => rwa [List.append_nil]
  | cons e fs ih =>
      rw [List.append_cons]
      exact ih (hs.record e)

theorem framesRendered_recordAll (es : List Event) (h : Health) :
    (es.foldl record h).framesRendered = h.framesRendered := by
  induction es generalizing h with
  | nil => rfl
  | cons e es ih =>
      refine (ih (h.record e)).trans ?_
      cases e <;> rfl

theorem Sums.recordFrame (hs : h.Sums es) : h.recordFrame.Sums es := by
  obtain ⟨hfin, herr, hrep, hlast, hmax⟩ := hs
  refine ⟨hfin, herr, hrep, ?_, hmax⟩
  cases hr : (es.filterMap Event.report?).getLast? with
  | none => exact hr ▸ hlast
  | some r => exact hr ▸ hlast

end Health

/-! ### Frames -/

/-- How many frames were seen, if it were `n` before. -/
def Cue.count (n : Nat) : Cue → Nat
  | .setup => 0
  | .play => n
  | .frame => n + 1

/-- The frames among the cues after the last setup. -/
def framesSince (l : List Cue) : Nat := l.foldl Cue.count 0

theorem framesSince_append (l ls : List Cue) :
    framesSince (l ++ ls) = ls.foldl Cue.count (framesSince l) := List.foldl_append

namespace Flow
variable {f f' : Flow} {l : List Cue}

theorem Step.counts (h : Step f l f') : f'.frames.frames = l.foldl Cue.count f.frames.frames := by
  cases h <;> rfl

theorem Course.counts (h : Course f l f') :
    f'.frames.frames = l.foldl Cue.count f.frames.frames := by
  induction h with
  | refl => rfl
  | more h _ ih => rw [ih, h.counts, List.foldl_append]

end Flow

/-! ### Commands -/

namespace Stage
variable {s : Stage} {h : Handle} {c : Command}

theorem health_setup (hc : c.isSetup = true) (hok : (c.exec s).2 = .ok ()) :
    (c.exec s).1.session.health = {} := by
  cases c with
  | setup uri video audio =>
      obtain ⟨h, hl⟩ := live_of_setup (c := .setup uri video audio) rfl hok
      exact congrArg Session.health (session_setupWith hl _)
  | setupWith d =>
      obtain ⟨h, hl⟩ := live_of_setup (c := .setupWith d) rfl hok
      exact congrArg Session.health (session_setupWith hl d)
  | setupEncoding enc =>
      obtain ⟨h, -, hs⟩ := setupEncoding_spec (Prod.ext rfl hok)
      exact congrArg Session.health hs
  | _ => cases hc

/-- The account starts over with the commands that set up media, and with no other. -/
theorem health_exec (s : Stage) (c : Command) :
    (c.exec s).1.session.health = if c.renewed s then {} else s.session.health := by
  have hplain : (c.exec s).1.session.health = s.session.health → c.renewed s = false →
      (c.exec s).1.session.health = if c.renewed s then {} else s.session.health := by
    intro hh hr
    rw [hh, hr]
    rfl
  have herror : ∀ e, (c.exec s).2 = .error e → (c.exec s).1.session.health = s.session.health →
      (c.exec s).1.session.health = if c.renewed s then {} else s.session.health :=
    fun e he hh => hplain hh (renewed_of_error he)
  have hsetup : c.isSetup = true →
      (c.exec s).1.session.health = if c.renewed s then {} else s.session.health := by
    intro hc
    have hn : c ≠ .bringUp ∧ c ≠ .start := by
      constructor <;> (rintro rfl; cases hc)
    cases hres : (c.exec s).2 with
    | error e => exact herror e hres (congrArg (·.session.health) (unchanged_exec hn.1 hn.2 hres))
    | ok u =>
        have hr : c.renewed s = true := by
          cases c with
          | setup | setupWith | setupEncoding =>
              simp [Command.renewed, Command.renews, hres, Except.isOk, Except.toBool]
          | _ => cases hc
        rw [health_setup hc hres, if_pos hr]
  cases c with
  | setup | setupWith | setupEncoding => exact hsetup rfl
  | start =>
      rcases start_cases s with ⟨⟨e, he⟩, hs⟩ | ⟨uri, video, audio, hok, hs⟩
      · exact herror e he ((congrArg (·.session.health) hs).trans (aside_health.bringUp s))
      · have hnew := health_setup (c := .setup uri video audio) rfl hok
        have hplayed := (flow_played (s := s.bringUp.1) (c := .setup uri video audio) rfl hok).1
        have hr : Command.start.renewed s = true := by
          have hres : s.start.2 = .ok () := (congrArg Prod.snd hs).trans hplayed
          simp [Command.renewed, Command.renews, Command.exec, hres, Except.isOk, Except.toBool]
        rw [if_pos hr]
        change s.start.1.session.health = {}
        rw [hs]
        exact (aside_health.play _).trans hnew
  | consumeSized size data =>
      rcases consumeSized_cases s size data with ⟨e, he⟩ | ⟨-, hsame, hconsume⟩ |
        ⟨h, enc, hl, henc, hne, hempty, hsize⟩
      · exact herror e (congrArg Prod.snd he) (congrArg (·.1.session.health) he)
      · refine hplain ((congrArg (·.1.session.health) hconsume).trans (Aside.consume s data)) ?_
        simp only [Command.renewed, Command.renews, hsame, Bool.false_and]
      · obtain ⟨s₂, s₃, hplay, hdata, hres⟩ := consumeSized_renewed hl henc hne hempty hsize
        have hr : (Command.consumeSized size data).renewed s = true := by
          simp [Command.renewed, Command.renews, Command.exec, hres, henc, hne, Except.isOk,
            Except.toBool]
        have hset : (Command.setupEncoding { enc with size := size }).exec s =
            (encode h { enc with size := size } s, .ok ()) := setupEncoding_of_live hl hempty
        have hnew := health_setup rfl (congrArg Prod.snd hset)
        have hplayed := aside_health.play (encode h { enc with size := size } s)
        have htaken : (s₂.consume data).1.session.health = s₂.session.health :=
          Aside.consume s₂ data
        rw [hset] at hnew
        rw [hplay] at hplayed
        rw [hdata] at htaken
        rw [if_pos hr]
        change (s.consumeSized size data).1.session.health = {}
        rw [hres]
        exact htaken.trans (hplayed.trans hnew)
  | share q =>
      refine hplain ?_ rfl
      simp only [Command.exec, share]
      split <;> rfl
  | observe topic label program => exact hplain rfl rfl
  | destroy => exact hplain (retains_destroy s).health rfl
  | _ => exact hplain (aside_health.exec rfl rfl s) rfl

/-- A command gives the cue of a setup when it starts the account over. -/
theorem setup_mem_cues (c : Command) (s : Stage) : .setup ∈ c.cues s ↔ c.renewed s = true := by
  simp only [Command.cues]
  cases c.renewed s <;> simp

theorem framesSince_cues (l : List Cue) (c : Command) (s : Stage) :
    framesSince (l ++ c.cues s) = if c.renewed s then 0 else framesSince l := by
  have hplay : ∀ (b : Bool) (n : Nat), (if b then [Cue.play] else []).foldl Cue.count n = n := by
    intro b n
    cases b <;> rfl
  simp only [framesSince_append, Command.cues, List.foldl_append, hplay]
  split <;> rfl

/-- A look that delivers a frame enters it in the account. -/
theorem health_pull (h : Handle) (s : Stage) : (pull h s).1.session.health =
    match (pull h s).2 with
    | .idle | .overflow => s.session.health
    | .frame .. => s.session.health.recordFrame := by
  simp only [pull]
  split
  · generalize s.session.frames.poll s.session.image s.host.engine h.id = r
    split
    · rfl
    · rfl
    · split <;> rfl
  · rfl

end Stage

/-! ### Runs -/

/-- The account of a session, and the frames it got, are those of cues and of events. -/
structure Session.Agrees (x : Session) (l : List Cue) (es : List Event) : Prop where
  frames : x.frames.frames = framesSince l
  rendered : x.health.framesRendered = framesSince l
  sums : x.health.Sums es

namespace World
variable {w w' w₀ : World} {i j : Nat} {s s' y : Stage} {l : List Cue} {es fs : List Event}
  {a : Action}

/-- Nothing that happened before the action counts any more: the session is set up, or is not
there. -/
def startsOver (w : World) (i : Nat) (a : Action) : Bool :=
  (w.sessions.get? i).isNone || (w.cues i a).contains .setup

/-- The events `es'` that were delivered to session `i` since it was last set up or made, if those
before the actions were `es`. -/
inductive Since (i : Nat) : World → List Event → List Action → List Event → Prop
  | nil (w : World) (es : List Event) : Since i w es [] es
  | cons {w : World} {es fs es' : List Event} {a : Action} {as : List Action}
      (hb : w.Brings i a fs)
      (ht : Since i (w.apply a) ((if w.startsOver i a then [] else es) ++ fs) as es') :
      Since i w es (a :: as) es'

/-- The account of session `i` is that of its cues and of the events delivered to it. -/
def Accounted (w : World) (i : Nat) (l : List Cue) (es : List Event) : Prop :=
  ∀ s, w.stage? i = some s → s.session.Agrees l es

/-- Ticks and drains set nothing up. -/
theorem startsOver_work (hs : w.stage? i = some s) (ha : a.isWork = true) :
    w.startsOver i a = false := by
  have hget := (stage?_eq_some.mp hs).2.1
  have hcues : .setup ∉ w.cues i a := by
    cases a with
    | tick j =>
        simp only [cues]
        split
        · split
          · next tick _ => cases tick.frame <;> simp [Poll.cues]
          · exact List.not_mem_nil
        · exact List.not_mem_nil
    | drain q => exact List.not_mem_nil
    | _ => cases ha
  simpa [startsOver, hget] using hcues

/-- A look for a frame of any session. -/
theorem Accounted.look (hw : w.Sound) (hs : w.stage? i = some s) (h : w.Accounted i l es)
    (j : Nat) : ∃ y, (w.act j (·.withLive Stage.pull)).1.stage? i = some y ∧
      y.session.Agrees (l ++ w.cues i (.tick j)) es := by
  have hsame : ∀ {w₁ : World} {y : Stage}, w.cues i (.tick j) = [] → w₁.stage? i = some y →
      y.session = s.session →
      ∃ y, w₁.stage? i = some y ∧ y.session.Agrees (l ++ w.cues i (.tick j)) es := by
    intro w₁ y hc hy hsession
    rw [hc, List.append_nil]
    exact ⟨y, hy, hsession ▸ h s hs⟩
  by_cases hij : j = i
  · obtain rfl := hij
    rcases look_cases hs with ⟨e, hlook⟩ | ⟨g, hl, hlook⟩
    · have hcues : w.cues j (.tick j) = [] := by simp only [cues, if_true, advance, hlook]
      rw [hlook]
      exact hsame hcues hs rfl
    · have hp := (Stage.live_eq_ok.mp hl).2
      have hindex := (Stage.keeps_pull s hp).index.trans (stage?_eq_some.mp hs).1
      have hcues := cues_tick hs hl
      obtain ⟨hframes, hrendered, hsums⟩ := h s hs
      refine ⟨(Stage.pull g s).1, ?_, ?_⟩
      · rw [hlook, stage?_put, if_pos hindex]
      · have hcourse := (Stage.course_lookedAt s.flow (Stage.pull g s).2).counts
        rw [← Stage.flow_pull hp] at hcourse
        have hhealth := Stage.health_pull g s
        rw [hcues]
        refine ⟨?_, ?_, ?_⟩
        · rw [framesSince_append, ← hframes]
          exact hcourse
        · rw [framesSince_append, ← hrendered, hhealth]
          cases (Stage.pull g s).2 <;> rfl
        · rw [hhealth]
          cases (Stage.pull g s).2 with
          | idle | overflow => exact hsums
          | frame => exact hsums.recordFrame
  · have hcues : w.cues i (.tick j) = [] := if_neg hij
    cases hx : w.stage? j with
    | none =>
        have hgone : (w.act j (·.withLive Stage.pull)).1 = w := by simp only [act, hx]
        exact hsame hcues (by rw [hgone, hs]) rfl
    | some x =>
        rcases look_cases hx with ⟨e, hlook⟩ | ⟨g, hl, hlook⟩
        · rw [hlook]
          exact hsame hcues hs rfl
        · have hk := Stage.keeps_pull x (Stage.live_eq_ok.mp hl).2
          obtain ⟨y, hy, hspared⟩ := spared_of_turns hw hs hx hij hk.turns
          rw [hlook]
          exact hsame hcues hy hspared.session

/-- Ticks and drains. -/
theorem Accounted.work (hw : w.Tidy) (hs : w.stage? i = some s) (h : w.Accounted i l es)
    (ha : a.isWork = true) :
    ∃ fs, w.Brings i a fs ∧ (w.apply a).Accounted i (l ++ w.cues i a) (es ++ fs) := by
  obtain ⟨y, hy, hagrees, hleads⟩ : ∃ y, (w.looked a).stage? i = some y ∧
      y.session.Agrees (l ++ w.cues i a) es ∧ Leads (w.looked a) (w.apply a) := by
    cases a with
    | tick j =>
        obtain ⟨y, hy, hagrees⟩ := h.look hw.sound hs j
        exact ⟨y, hy, hagrees, leads_advance w j⟩
    | drain q =>
        have hcues : w.cues i (.drain q) = [] := rfl
        rw [hcues, List.append_nil]
        exact ⟨s, hs, h s hs, leads_drain w q⟩
    | _ => cases ha
  obtain ⟨y', hy', hhalts⟩ := hleads.halts hy
  obtain ⟨fs, hbrings, hhealth⟩ := hw.brings ha hy hy'
  refine ⟨fs, hbrings, fun s' hs' => ?_⟩
  obtain rfl := Option.some.inj (hy'.symm.trans hs')
  refine ⟨?_, ?_, hhealth ▸ hagrees.sums.recordAll fs⟩
  · exact (congrArg Acquisition.frames hhalts.frames).trans hagrees.frames
  · rw [hhealth, Health.framesRendered_recordAll]
    exact hagrees.rendered

/-- What is asked of the session itself. -/
theorem Accounted.command (hw : w.Sound) (hs : w.stage? i = some s) (h : w.Accounted i l es)
    (c : Command) : (w.apply (.command i c)).Accounted i (l ++ w.cues i (.command i c))
      (if w.startsOver i (.command i c) then [] else es) := by
  intro s' hs'
  have ha := hw.attached hs
  obtain ⟨hi, hget, -⟩ := stage?_eq_some.mp hs
  rw [World.apply, act_eq hs, stage?_put,
    if_pos ((Stage.turns_exec ha (hw.coupled hs) c).index.trans hi)] at hs'
  obtain rfl := Option.some.inj hs'
  have hcourse := Stage.course_exec ha (hw.coupled hs) c
  have hcues : w.cues i (.command i c) = c.cues s := by
    simp only [cues, if_true, hs, Option.map_some, Option.getD_some]
  have hover : w.startsOver i (.command i c) = c.renewed s := by
    rw [Bool.eq_iff_iff, ← Stage.setup_mem_cues, ← hcues]
    simp [startsOver, hget]
  obtain ⟨hframes, hrendered, hsums⟩ := h s hs
  have hcount := Stage.framesSince_cues l c s
  rw [hcues, hover]
  refine ⟨?_, ?_, ?_⟩
  · rw [framesSince_append, ← hframes]
    exact hcourse.counts
  · rw [hcount, Stage.health_exec]
    cases c.renewed s with
    | true => rfl
    | false => exact hrendered
  · rw [Stage.health_exec]
    cases c.renewed s with
    | true => exact Health.sums_nil
    | false => exact hsums

/-- After every action the account is that of the cues and of the events so far. -/
theorem Accounted.apply (hw : w.Tidy) (h : w.Accounted i l es) (a : Action) :
    ∃ fs, w.Brings i a fs ∧ (w.apply a).Accounted i
      (if (w.sessions.get? i).isNone then [] else l ++ w.cues i a)
      ((if w.startsOver i a then [] else es) ++ fs) := by
  cases hs : w.stage? i with
  | none =>
      have hget := sessions_of_none hs
      refine ⟨[], .absent hs, fun s' hs' => ?_⟩
      rcases stage_of_apply hw.sound hs' with ⟨s, hsome, -⟩ | ⟨q, config, image, -, -, hnew⟩
      · cases hs.symm.trans hsome
      · rw [hnew, hget]
        simp only [startsOver, hget, Option.isNone_none, Bool.true_or, if_true]
        exact ⟨rfl, rfl, Health.sums_nil⟩
  | some s =>
      have hget : (w.sessions.get? i).isNone = false := by
        rw [(stage?_eq_some.mp hs).2.1]
        rfl
      rw [hget]
      simp only [Bool.false_eq_true, if_false]
      by_cases hwork : a.isWork = true
      · rw [startsOver_work hs hwork]
        exact h.work hw hs hwork
      refine ⟨[], .idle (by simpa using hwork), ?_⟩
      rw [List.append_nil]
      by_cases hreach : a.reaches i = true
      · cases a with
        | command j c =>
            obtain rfl : j = i := of_decide_eq_true hreach
            exact h.command hw.sound hs c
        | drop j =>
            obtain rfl : j = i := of_decide_eq_true hreach
            intro s' hs'
            rw [World.apply, stage_drop] at hs'
            cases hs'
        | tick | drain => exact absurd rfl hwork
        | _ => cases hreach
      · -- the session is as it was
        have hreach : a.reaches i = false := by simpa using hreach
        intro s' hs'
        obtain ⟨y', hy', hspared⟩ := spared_of_other hw.sound hs hreach
        obtain rfl := Option.some.inj (hy'.symm.trans hs')
        have hcues : w.cues i a = [] := cues_of_other hreach
        simp only [startsOver, hget, hcues, List.append_nil, List.contains_nil, Bool.or_self,
          Bool.false_eq_true, if_false]
        exact hspared.session ▸ h s hs

theorem Accounted.run (hw : w.Tidy) (h : w.Accounted i l es) (as : List Action) :
    ∃ es', Since i w es as es' ∧ (w.run as).Accounted i (w.story i l as) es' := by
  induction as generalizing w l es with
  | nil => exact ⟨es, .nil w es, h⟩
  | cons a as ih =>
      obtain ⟨fs, hbrings, hnext⟩ := h.apply hw a
      obtain ⟨es', hsince, hend⟩ := ih (hw.apply a) hnext
      exact ⟨es', .cons hbrings hsince, hend⟩

end World
end MediaHost
