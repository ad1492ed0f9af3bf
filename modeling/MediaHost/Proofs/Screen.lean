import MediaHost.Proofs.Parts

/-!
# Proofs — Screen

The media of one session through a run.  Queued work stops media that is set up, or leaves it
alone (`World.Leads.fails`); a look for a frame leaves it alone, and so does all that is asked of
other sessions (`World.reel?_of_other`).  So the session and the engine are of one mind about the
media after every run, and the engine has counted the pictures since the last setup of the
encoder (`World.Screens.run`).
-/

namespace MediaHost

/-! ### A look for a frame -/

namespace Stage
variable {s s' : Stage} {h : Handle}

theorem stripOf_poll (a : Acquisition) (image : Image) (host : Host) (k : Nat)
    (cs : List Callback) (h : Handle) :
    ((host.setEngine (a.poll image host.engine k).engine).launch cs).stripOf h =
      host.stripOf h := by
  obtain ⟨f, hf, ha⟩ := looked_poll a image host k cs
  exact Host.stripOf_kept ha (fun p => (hf p).reading fun _ _ _ _ _ _ => rfl) h

/-- Pulling frames changes nothing about pushed pictures. -/
theorem reel_pull (h : Handle) (s : Stage) : (pull h s).1.reel = s.reel := by
  by_cases hc : (s.session.status.direction = some .decoding && s.session.phase.isConfigured) = true
  · simp only [pull, hc, if_true]
    have hpoll : ∀ x : Stage, x.session.pipeline = s.session.pipeline →
        x.session.status = s.session.status → x.session.encoding = s.session.encoding →
        x.host = (s.host.setEngine
          (s.session.frames.poll s.session.image s.host.engine h.id).engine).launch
            (s.session.frames.poll s.session.image s.host.engine h.id).callbacks →
        x.reel = s.reel := by
      intro x hp hst henc hh
      refine Reel.ext ?_ (congrArg Status.phase hst) (congrArg Status.direction hst) henc ?_
      · simp only [reel, Session.isUp, hp]
      · simp only [reel, hp, hh]
        exact congrArg _ (funext fun g => stripOf_poll _ _ _ _ _ g)
    split
    · exact hpoll _ rfl rfl rfl rfl
    · exact hpoll _ rfl rfl rfl rfl
    · split
      · refine (reel_tell (g := (h.setBitrateLimit · _)) (Engine.alters_setBitrateLimit _)
          fun _ => rfl).trans ?_
        exact hpoll _ rfl rfl rfl rfl
      · exact hpoll _ rfl rfl rfl rfl
  · simp only [pull, hc]
    rfl

theorem stripOf_nudged (hs : s.Nudged s') :
    s.session.pipeline.bind s'.host.stripOf = s.session.pipeline.bind s.host.stripOf :=
  hs.reading (v := Pipeline.strip) fun _ _ _ _ _ _ => rfl

/-- A session that is spared keeps its reel. -/
theorem Spared.reel (h : s.Spared s') : s'.reel = s.reel := by
  simp only [Stage.reel, h.session, stripOf_nudged h.pipeline]

/-- Media that is set up may be stopped. -/
theorem Stirred.fails (h : s.Stirred s') : s.reel.Fails s'.reel := by
  have hstrip := stripOf_nudged h.pipeline
  obtain ⟨_, _, -, hs⟩ := h.session
  have hreel : s'.reel =
      { s.reel with
        phase := s'.session.status.phase
        direction := s'.session.status.direction } := by
    refine Reel.ext ?_ rfl rfl ?_ ?_
    · simp only [Stage.reel, Session.isUp, h.pipeline_eq]
    all_goals rw [Stage.reel, hs]
    · rfl
    · exact hstrip
  rw [hreel]
  rcases h.status with heq | ⟨hconf, heq⟩
  · exact .inl (by rw [heq]; rfl)
  · exact .inr ⟨hconf, by rw [heq]; rfl⟩

end Stage

namespace World
variable {w w₁ w' w₀ : World} {i j : Nat} {s x x' : Stage} {r : Reel} {a : Action}
  {l : List (Array UInt8)}

/-- What is known of the media of session `i`. -/
def reel? (w : World) (i : Nat) : Option Reel := (w.stage? i).map Stage.reel

theorem reel?_eq (hs : w.stage? i = some s) : w.reel? i = some s.reel := by
  simp only [reel?, hs, Option.map_some]

/-- A reel is that of a session. -/
theorem stage_of_reel (hr : w.reel? i = some r) : ∃ s, w.stage? i = some s ∧ s.reel = r :=
  Option.map_eq_some_iff.mp hr

/-- Jobs and observers do to the reel what an error does, at most. -/
theorem Leads.fails (hl : Leads w w') (hr : w.reel? i = some r) :
    ∃ r', w'.reel? i = some r' ∧ r.Fails r' := by
  obtain ⟨s, hs, rfl⟩ := stage_of_reel hr
  obtain ⟨s', hs', hstirred⟩ := hl.stirred hs
  exact ⟨s'.reel, reel?_eq hs', hstirred.fails⟩

/-! ### Other sessions -/

/-- What neither is asked of the session nor runs queued work leaves its media alone. -/
theorem reel?_of_other (hw : w.Sound) (hs : w.stage? i = some s) (ha : a.reaches i = false) :
    (w.apply a).reel? i = w.reel? i := by
  obtain ⟨s', hs', hspared⟩ := spared_of_other hw hs ha
  rw [reel?_eq hs', reel?_eq hs, hspared.reel]

/-! ### Actions -/

/-- A look for a frame of any session. -/
theorem reel?_look (hw : w.Sound) (hs : w.stage? i = some s) (j : Nat) :
    (w.act j (·.withLive Stage.pull)).1.reel? i = w.reel? i := by
  cases hx : w.stage? j with
  | none => simp only [act, hx]
  | some x =>
      rcases look_cases hx with ⟨e, hlook⟩ | ⟨h, hl, hlook⟩
      · rw [hlook]
      · rw [hlook]
        have hk := Stage.keeps_pull x (Stage.live_eq_ok.mp hl).2
        by_cases hij : j = i
        · obtain rfl := hij
          obtain rfl := Option.some.inj (hs.symm.trans hx)
          have hput : (w.put (Stage.pull h s).1).stage? j = some (Stage.pull h s).1 := by
            rw [stage?_put, if_pos (hk.index.trans (stage?_eq_some.mp hs).1)]
          rw [reel?_eq hput, reel?_eq hs, Stage.reel_pull]
        · obtain ⟨s', hs', hspared⟩ := spared_of_turns hw hs hx hij hk.turns
          rw [reel?_eq hs', reel?_eq hs, hspared.reel]

/-- A tick or a drain may stop media that is set up. -/
theorem fails_work (hw : w.Sound) (hs : w.stage? i = some s) (ha : a.reaches i = true)
    (hc : ∀ c, a ≠ .command i c) (hd : a ≠ .drop i) :
    ∃ r', (w.apply a).reel? i = some r' ∧ s.reel.Fails r' := by
  cases a with
  | command j c => exact absurd (congrArg (Action.command · c) (of_decide_eq_true ha)) (hc c)
  | drop j => exact absurd (congrArg Action.drop (of_decide_eq_true ha)) hd
  | tick j =>
      have hlook := (reel?_look hw hs j).trans (reel?_eq hs)
      exact (leads_advance w j).fails hlook
  | drain q => exact (leads_drain w q).fails (reel?_eq hs)
  | _ => cases ha

/-- What the encoder of session `i` is fed by an action. -/
def feeds (w : World) (i : Nat) : Action → List Feed
  | .command j c => if j = i then ((w.stage? i).map c.feeds).getD [] else []
  | _ => []

/-- The session and the engine are of one mind about the media of session `i`. -/
def Screens (w : World) (i : Nat) (l : List (Array UInt8)) : Prop :=
  ∀ s, w.stage? i = some s → s.reel.Shows l

/-- An unchanged reel shows what it showed. -/
theorem Screens.of_reel (hr : w.Screens i l) (hs : w.stage? i = some s)
    (heq : w'.reel? i = w.reel? i) : w'.Screens i l := by
  intro s' hs'
  rw [reel?_eq hs, reel?_eq hs'] at heq
  exact Option.some.inj heq ▸ hr s hs

/-- A command of the session shows what it feeds. -/
theorem Screens.command (hw : w.Sound) (hr : w.Screens i l) (hs : w.stage? i = some s)
    (c : Command) : (w.act i c.exec).1.Screens i ((c.feeds s).foldl Feed.after l) := by
  intro s' hs'
  rw [act_eq hs, stage?_put, if_pos] at hs'
  · obtain rfl := Option.some.inj hs'
    exact Stage.shows_exec (hw.attached hs) (hw.coupled hs) (hr s hs) c
  · exact (Stage.turns_exec (hw.attached hs) (hw.coupled hs) c).index.trans
      (stage?_eq_some.mp hs).1

/-- The pictures that the encoder of session `i` was fed since it was set up last, after an action;
a session that is made anew has none. -/
def shown (w : World) (i : Nat) (l : List (Array UInt8)) (a : Action) : List (Array UInt8) :=
  if (w.sessions.get? i).isNone then [] else (w.feeds i a).foldl Feed.after l

/-- For a session that is there, only what it is fed counts. -/
theorem shown_of_stage (hs : w.stage? i = some s) (l : List (Array UInt8)) (a : Action) :
    w.shown i l a = (w.feeds i a).foldl Feed.after l := by
  have hthere : (w.sessions.get? i).isNone = false := by
    rw [(stage?_eq_some.mp hs).2.1]
    rfl
  simp only [shown, hthere]
  rfl

theorem feeds_command (hs : w.stage? i = some s) (c : Command) :
    w.feeds i (.command i c) = c.feeds s := by
  simp only [feeds, if_true, hs, Option.map_some, Option.getD_some]

/-- Every action shows what it feeds to the session. -/
theorem Screens.apply (hw : w.Sound) (hr : w.Screens i l) (a : Action) :
    (w.apply a).Screens i (w.shown i l a) := by
  cases hs : w.stage? i with
  | none =>
      have hn := sessions_of_none hs
      intro s' hs'
      have hget := (stage?_eq_some.mp hs').2.1
      rcases absent_apply hw hn a with hgone | ⟨q, config, image, -, hnew⟩
      · cases hgone.symm.trans hget
      · have hsession := Option.some.inj (hget.symm.trans hnew)
        simp only [shown, hn, Option.isNone_none, if_true]
        have hreel : s'.reel = ⟨false, .unloaded, none, none, none⟩ := by
          simp only [Stage.reel, hsession, Session.new, Session.phase, Session.isUp,
            Option.isSome_none, Option.bind_none]
        rw [hreel]
        exact .unopened
  | some s =>
      rw [shown_of_stage hs]
      by_cases hc : ∃ c, a = .command i c
      · obtain ⟨c, rfl⟩ := hc
        rw [feeds_command hs]
        exact hr.command hw hs c
      have hnone : w.feeds i a = [] := by
        cases a with
        | command j c =>
            simp only [feeds]
            refine if_neg fun hji => hc ⟨c, ?_⟩
            rw [hji]
        | _ => rfl
      rw [hnone]
      by_cases hd : a = .drop i
      · rintro s' hs'
        rw [hd] at hs'
        rw [World.apply, stage_drop] at hs'
        cases hs'
      by_cases hreach : a.reaches i = true
      · obtain ⟨r', hr', hfails⟩ := fails_work hw hs hreach (fun c hac => hc ⟨c, hac⟩) hd
        intro s' hs'
        rw [reel?_eq hs'] at hr'
        exact Option.some.inj hr' ▸ hfails.shows (hr s hs)
      · exact hr.of_reel hs (reel?_of_other hw hs (by simpa using hreach))

/-- The pictures that the encoder of session `i` was fed since it was set up last, after the
actions `as`, if there were `l` before. -/
def pictures (w : World) (i : Nat) (l : List (Array UInt8)) : List Action → List (Array UInt8)
  | [] => l
  | a :: as => (w.apply a).pictures i (w.shown i l a) as

/-- The pictures of a run are those of its parts. -/
theorem pictures_append (w : World) (i : Nat) (l : List (Array UInt8)) (as bs : List Action) :
    w.pictures i l (as ++ bs) = (w.run as).pictures i (w.pictures i l as) bs := by
  induction as generalizing w l with
  | nil => rfl
  | cons a as ih => exact ih _ _

/-- Every run shows the pictures that it feeds, by induction over its actions. -/
theorem Screens.run (hw : w.Sound) (hr : w.Screens i l) (as : List Action) :
    (w.run as).Screens i (w.pictures i l as) := by
  induction as generalizing w l with
  | nil => exact hr
  | cons a as ih => exact ih (hw.apply a).sound (hr.apply hw a)

/-- In the beginning nothing was shown. -/
theorem Fresh.screens (hw : w.Fresh) (i : Nat) : w.Screens i [] := by
  intro s hs
  have hget := (stage?_eq_some.mp hs).2.1
  rw [hw.sessions] at hget
  cases hget

/-- In every reachable world the session and the engine are of one mind about the media. -/
theorem Reachable.shows (hw : w.Reachable) (hs : w.stage? i = some s) :
    ∃ l, s.reel.Shows l := by
  obtain ⟨w₀, as, h₀, rfl⟩ := hw
  exact ⟨_, (h₀.screens i).run h₀.sound as s hs⟩

end World
end MediaHost
