import MediaHost.Proofs.Account
import MediaHost.Proofs.Panel

/-!
# Proofs — Tuning

The settings of one session through a run.  Queued work leaves them alone (`World.Leads.panel`), and
so do a look for a frame and all that is asked of other sessions (`World.panel?_of_other`).  So once
the volume or the base time was brought to the engine, the engine's pipeline has what the session is
configured for, until the session is destroyed (`settings_stay_in_step`).
-/

namespace MediaHost

/-! ### A look for a frame -/

namespace Stage
variable {s s' : Stage}

/-- Looking at the engine for frames turns no dial. -/
theorem dialsOf_pull (h : Handle) (s : Stage) (g : Handle) :
    (pull h s).1.host.dialsOf g = s.host.dialsOf g := by
  cases hd : s.decodes with
  | false => rw [pull_of_idle h hd]
  | true =>
      obtain ⟨f, ha, hf⟩ := alters_pull h hd
      refine Host.dialsOf_kept ha (fun p => ?_) g
      obtain ⟨blits, limit, hq⟩ := hf p
      rw [hq]
      exact (p.looked_grab s.host.engine.autoFrames).reading (v := Pipeline.dials)
        fun _ _ _ _ _ _ => rfl

theorem panel_pull (h : Handle) (s : Stage) : (pull h s).1.panel = s.panel := by
  obtain ⟨frames, image, health, hsession⟩ := session_pull h s
  exact panel_congr (by rw [hsession]) (by rw [hsession]) (by rw [hsession])
    fun g _ => dialsOf_pull h s g

theorem dialsOf_nudged (hs : s.Nudged s') :
    s.session.pipeline.bind s'.host.dialsOf = s.session.pipeline.bind s.host.dialsOf :=
  hs.reading (v := Pipeline.dials) fun _ _ _ _ _ _ => rfl

/-- A session that is spared keeps its panel. -/
theorem Spared.panel (h : s.Spared s') : s'.panel = s.panel := by
  simp only [Stage.panel, h.session, dialsOf_nudged h.pipeline]

/-- Of the settings, queued work touches none. -/
theorem Stirred.panel (h : s.Stirred s') : s'.panel = s.panel := by
  have hdials := dialsOf_nudged h.pipeline
  have hages := h.ages
  obtain ⟨_, _, -, hs⟩ := h.session
  refine Panel.ext ?_ hages.destroyed ?_ hages.looping ?_ ?_ ?_ ?_
  · simp only [Stage.panel, Session.isUp, h.pipeline_eq]
  · change s'.session.status.direction = s.session.status.direction
    rcases h.status with heq | ⟨-, heq⟩ <;> rw [heq]
  all_goals rw [Stage.panel, hs]
  · rfl
  · rfl
  · rfl
  · exact hdials

end Stage

namespace World
variable {w w' w₀ : World} {i j : Nat} {s s' s₁ x : Stage} {h : Handle} {a : Action} {b : Brought}

/-- The settings of session `i`. -/
def panel? (w : World) (i : Nat) : Option Panel := (w.stage? i).map Stage.panel

theorem panel?_eq (hs : w.stage? i = some s) : w.panel? i = some s.panel := by
  rw [panel?, hs, Option.map_some]

/-- The session that shows an unchanged panel is still there. -/
theorem stage_of_panel (hs : w.stage? i = some s) (hp : w'.panel? i = w.panel? i) :
    ∃ s', w'.stage? i = some s' ∧ s'.panel = s.panel := by
  rw [panel?_eq hs] at hp
  exact Option.map_eq_some_iff.mp hp

theorem panel?_congr (hs : w'.sessions.get? i = w.sessions.get? i)
    (hd : ∀ h, w'.host.dialsOf h = w.host.dialsOf h) : w'.panel? i = w.panel? i := by
  simp only [panel?, stage?, hs, Option.map_map]
  exact Option.map_congr fun x _ => Stage.panel_congr rfl rfl rfl fun h _ => hd h

/-- Queued work leaves the settings of every session alone. -/
theorem Leads.panel (hl : Leads w w') (i : Nat) : w'.panel? i = w.panel? i := by
  cases hs : w.stage? i with
  | none =>
      have hgone := hl.absent (sessions_of_none hs)
      simp only [panel?, stage?, hgone, sessions_of_none hs, Option.map_none]
  | some s =>
      obtain ⟨s', hs', hstirred⟩ := hl.stirred hs
      rw [panel?_eq hs', panel?_eq hs, hstirred.panel]

/-- No session's look turns a dial of any session. -/
theorem panel?_look (w : World) (i j : Nat) :
    (w.act j (·.withLive Stage.pull)).1.panel? i = w.panel? i := by
  cases hx : w.stage? j with
  | none => simp only [act, hx]
  | some x =>
      rcases look_cases hx with ⟨e, hlook⟩ | ⟨h, hl, hlook⟩
      · rw [hlook]
      · obtain ⟨hj, hget, hhost⟩ := stage?_eq_some.mp hx
        have hindex : (Stage.pull h x).1.index = j :=
          (Stage.keeps_pull x (Stage.live_eq_ok.mp hl).2).index.trans hj
        rw [hlook]
        by_cases hij : j = i
        · obtain rfl := hij
          have hput : (w.put (Stage.pull h x).1).stage? j = some (Stage.pull h x).1 := by
            rw [stage?_put, if_pos hindex]
          rw [panel?_eq hput, panel?_eq hx, Stage.panel_pull]
        · refine panel?_congr ?_ fun g => (Stage.dialsOf_pull h x g).trans (by rw [hhost])
          simp only [put, Table.get?_set, hindex, hij, if_false]

/-- Work of the queues turns no dial. -/
theorem panel?_work (ha : a.isWork = true) (w : World) (i : Nat) :
    (w.apply a).panel? i = w.panel? i := by
  cases a with
  | tick j => exact ((leads_advance w j).panel i).trans (panel?_look w i j)
  | drain q => exact (leads_drain w q).panel i
  | _ => cases ha

/-! ### Other sessions -/

/-- What does not reach a session leaves its panel alone. -/
theorem panel?_of_other (hw : w.Sound) (hs : w.stage? i = some s) (ha : a.reaches i = false) :
    (w.apply a).panel? i = w.panel? i := by
  obtain ⟨s', hs', hspared⟩ := spared_of_other hw hs ha
  rw [panel?_eq hs', panel?_eq hs, hspared.panel]

/-! ### Actions -/

/-- What an action brings to the engine for the session `i`. -/
def brings (w : World) (i : Nat) : Action → Brought
  | .command j c => if j = i then ((w.stage? i).map c.brings).getD {} else {}
  | _ => {}

theorem brings_command (hs : w.stage? i = some s) (c : Command) :
    w.brings i (.command i c) = c.brings s := by
  simp only [brings, if_true, hs, Option.map_some, Option.getD_some]

/-- A command of the session is a course of its panel. -/
theorem panel_command (free : Bool) (hw : w.Sound) (hs : w.stage? i = some s) (c : Command)
    (hfree : free = false → ∀ d, c ≠ .setupWith d) :
    ∃ s', (w.apply (.command i c)).stage? i = some s' ∧
      Panel.Course free s.panel (c.brings s) s'.panel := by
  refine ⟨(c.exec s).1, ?_, Stage.panel_exec (hw.attached hs) (hw.coupled hs) hfree⟩
  rw [apply, act_eq hs, stage?_put, if_pos]
  exact (Stage.turns_exec (hw.attached hs) (hw.coupled hs) c).index.trans (stage?_eq_some.mp hs).1

/-- An action moves the settings of a session in steps, and brings to the engine what it brings. -/
theorem panel_apply (free : Bool) (hw : w.Sound) (hs : w.stage? i = some s) (hd : a ≠ .drop i)
    (hfree : free = false → ∀ d, a ≠ .command i (.setupWith d)) :
    ∃ s', (w.apply a).stage? i = some s' ∧
      Panel.Course free s.panel (w.brings i a) s'.panel := by
  by_cases hc : ∃ c, a = .command i c
  · obtain ⟨c, rfl⟩ := hc
    rw [brings_command hs]
    exact panel_command free hw hs c fun hf d hcd => hfree hf d (by rw [hcd])
  have hnothing : w.brings i a = {} := by
    cases a with
    | command j c => exact if_neg fun hji => hc ⟨c, by rw [hji]⟩
    | _ => rfl
  have hpanel : (w.apply a).panel? i = w.panel? i := by
    by_cases hwork : a.isWork = true
    · exact panel?_work hwork w i
    · refine panel?_of_other hw hs (Bool.eq_false_iff.mpr fun hreach => ?_)
      cases a with
      | command j c => exact hc ⟨c, by rw [of_decide_eq_true hreach]⟩
      | drop j => exact hd (by rw [of_decide_eq_true hreach])
      | tick | drain => exact hwork rfl
      | _ => cases hreach
  obtain ⟨s', hs', hsame⟩ := stage_of_panel hs hpanel
  rw [hnothing, ← hsame]
  exact ⟨s', hs', .refl _⟩

end World
end MediaHost
