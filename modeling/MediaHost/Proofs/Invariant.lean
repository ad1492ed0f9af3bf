import MediaHost.Proofs.Lifecycle

/-!
# Proofs — Invariant

A world is sound if its books are, and if every session is coupled to its pipeline.  Every
reachable world is sound (`Reachable.sound`): queued work is a sequence of effects that leave
the books as they are, and every action moves the books.
-/

namespace MediaHost

namespace Stage
variable {s : Stage}

/-- A session that is stopped, and its pipeline with it. -/
def halt (s : Stage) : Stage :=
  (match s.session.pipeline with
    | some h => s.onHost (·.tell (·.stop h.id))
    | none => s).setPhase .stopped

/-- A session that stops after an error keeps its pipeline. -/
theorem keeps_halt (hc : s.session.phase.isConfigured = true) : Keeps s s.halt := by
  have hdes := Phase.isDestroyed_of_isConfigured hc
  simp only [halt]
  cases hp : s.session.pipeline with
  | none =>
      have hs := same_setPhase (p := .stopped) hdes rfl
      exact ⟨hs.index, hs.wiring, hs.host.ledger, fun k _ => by rw [hs.host.pipelines],
        fun _ => coupled_of_down hp⟩
  | some h =>
      have hw := (works_tell (s := s) (h := h) (·.stop h.id) Engine.alters_stop).thenSame
        (same_setPhase (p := .stopped) hdes rfl)
      exact hw.keeps hp fun p hcp => hcp.stopFailed hc

end Stage

namespace World
variable {w w' : World} {i : Nat} {s s' : Stage}

/-- The books of a world. -/
def books (w : World) : Books := ⟨w.host.ledger, w.sessions.map Session.wiring⟩

/-- The books are sound, and every session is coupled to its pipeline. -/
structure Sound (w : World) : Prop where
  books : w.books.Sound
  coupled : ∀ {i s}, w.stage? i = some s → s.Coupled

/-- What the books say of destroyed pipelines is what the engine was asked. -/
theorem destroys_books (w : World) (k : Nat) :
    w.books.ledger.destroys k = w.host.engine.callCount k .destroy :=
  Engine.count_milestones (Request.isMilestone_destroy k)

/-! ### One session -/

theorem stage?_eq_some : w.stage? i = some s ↔
    s.index = i ∧ w.sessions.get? i = some s.session ∧ s.host = w.host := by
  simp only [stage?]
  cases w.sessions.get? i with
  | none => simp
  | some x =>
      obtain ⟨j, y, a⟩ := s
      simp only [Option.map_some, Option.some.injEq, Stage.mk.injEq]
      exact ⟨fun ⟨h₁, h₂, h₃⟩ => ⟨h₁.symm, h₂, h₃.symm⟩, fun ⟨h₁, h₂, h₃⟩ =>
        ⟨h₁.symm, h₂, h₃.symm⟩⟩

/-- A session that is put back is found there, and all others see its host. -/
theorem stage?_put (w : World) (s : Stage) (i : Nat) :
    (w.put s).stage? i =
      if s.index = i then some s else (w.stage? i).map fun x => { x with host := s.host } := by
  simp only [stage?, put, Table.get?_set]
  split
  · next h => rw [← h]; rfl
  · rw [Option.map_map]
    rfl

/-- A session put back as it was. -/
theorem put_self (hs : w.stage? i = some s) : w.put s = w := by
  obtain ⟨hi, hget, hh⟩ := stage?_eq_some.mp hs
  simp only [put, hi, hh, Table.set_self hget]

theorem wirings_of_stage (hs : w.stage? i = some s) :
    w.books.wirings.get? i = some s.session.wiring := by
  simp [World.books, (stage?_eq_some.mp hs).2.1]

/-- In a sound world each session is attached to what its wiring says. -/
theorem Sound.attached (hw : w.Sound) (hs : w.stage? i = some s) :
    Books.Attached s.host.ledger s.index s.session.wiring := by
  obtain ⟨hi, -, hh⟩ := stage?_eq_some.mp hs
  rw [hi, hh]
  exact hw.books.attached (wirings_of_stage hs)

/-- A session with a pipeline is up. -/
theorem Sound.wiring_of_pipeline (hw : w.Sound) (hs : w.stage? i = some s) {h : Handle}
    (hp : s.session.pipeline = some h) : ∃ t, s.session.wiring = .up h t :=
  (hw.attached hs).of_pipeline hp

/-- A turn of one session leaves the pipelines of all others alone. -/
theorem Sound.pipeline_of_turns (hw : w.Sound) (hs : w.stage? i = some s)
    (ht : Stage.Turns s s') {j : Nat} {y : Stage} (hy : w.stage? j = some y) (hij : i ≠ j)
    {h : Handle} (hp : y.session.pipeline = some h) :
    s'.host.engine.pipelines.get? h.id = w.host.engine.pipelines.get? h.id := by
  obtain ⟨t, hwir⟩ := hw.wiring_of_pipeline hy hp
  have hwj : w.books.wirings.get? j = some (.up h t) := hwir ▸ wirings_of_stage hy
  rw [← (stage?_eq_some.mp hs).2.2]
  -- the pipeline is neither the other session's nor a new one
  refine ht.others h.id (fun h₀ hp₀ => ?_) fun hk => ?_
  · obtain ⟨t₀, hwir₀⟩ := hw.wiring_of_pipeline hs hp₀
    have hwi : w.books.wirings.get? i = some (.up h₀ t₀) := hwir₀ ▸ wirings_of_stage hs
    exact (hw.books.apart hwi hwj hij).1
  · have hpl := (hw.books.attached hwj).of_up.1
    rw [(stage?_eq_some.mp hs).2.2] at hk
    rw [hw.books.ids (by rw [hk]; exact Nat.le_refl _)] at hpl
    cases hpl

/-- A turn of one session is a move of the books, and keeps the world sound. -/
theorem Sound.put (hw : w.Sound) (hs : w.stage? i = some s) (ht : Stage.Turns s s') :
    Moves true w.books (w.put s').books ∧ (w.put s').Sound := by
  obtain ⟨hi, hget, hh⟩ := stage?_eq_some.mp hs
  have hws : w.books.wirings.get? s.index = some s.session.wiring := by
    rw [hi]
    exact wirings_of_stage hs
  have hmoves : Moves true w.books (w.put s').books := by
    have hm := ht.moves hws
    rw [hh] at hm
    simpa only [World.books, World.put, Table.map_set, ht.index] using hm
  refine ⟨hmoves, hmoves.preserves (fun _ _ => Move.sound) hw.books, fun {j x} hx => ?_⟩
  rw [stage?_put, ht.index, hi] at hx
  split at hx
  · cases hx
    exact ht.coupled (hw.coupled hs)
  · next hij =>
      obtain ⟨y, hy, rfl⟩ := Option.map_eq_some_iff.mp hx
      intro h p hp hget'
      rw [hw.pipeline_of_turns hs ht hy hij hp, ← (stage?_eq_some.mp hy).2.2] at hget'
      exact hw.coupled hy h p hp hget'

/-- A change of the host that concerns nobody. -/
theorem Sound.onHost {h : Host} {k : Nat} {f : Pipeline → Pipeline} (hw : w.Sound)
    (ha : Host.Alters k f w.host h) (hf : ∀ p, (f p).gear = p.gear) :
    ({ w with host := h } : World).books = w.books ∧ ({ w with host := h } : World).Sound := by
  have hb : ({ w with host := h } : World).books = w.books := by
    simp only [World.books, ha.ledger]
  refine ⟨hb, hb ▸ hw.books, fun {j x} hx => ?_⟩
  obtain ⟨hj, hget, hh⟩ := stage?_eq_some.mp hx
  have hy : w.stage? j = some { x with host := w.host } := stage?_eq_some.mpr ⟨hj, hget, rfl⟩
  intro h' p hp hgetp
  rw [hh, ha.pipeline] at hgetp
  split at hgetp
  · obtain ⟨q, hq, rfl⟩ := Option.map_eq_some_iff.mp hgetp
    exact (hw.coupled hy h' q hp hq).of_gear (hf q)
  · exact hw.coupled hy h' p hp hgetp

/-- A host that is the same to the books is as sound. -/
theorem Sound.same {h : Host} (hw : w.Sound) (hs : Host.Same w.host h) :
    ({ w with host := h } : World).books = w.books ∧ ({ w with host := h } : World).Sound :=
  hw.onHost (k := 0) hs.alters fun _ => rfl

/-! ### Queued work -/

theorem modifySession_of_none (hs : w.stage? i = none) (f : Session → Session) :
    w.modifySession i f = w := by
  have hn : w.sessions.get? i = none := by simpa [stage?] using hs
  simp only [modifySession, Table.modify_of_none hn]

/-- Changing a session is putting it back changed. -/
theorem modifySession_eq_put (hd : w.sessions.Distinct) (hs : w.stage? i = some s)
    (f : Session → Session) : w.modifySession i f = w.put (s.modify f) := by
  obtain ⟨hi, hget, hh⟩ := stage?_eq_some.mp hs
  simp only [modifySession, put, Stage.modify, hd.modify_eq_set hget, hi, hh]

/-- Nothing that the books say changes: the host changes without concerning anybody, or one
session keeps what it has. -/
inductive Quiet (w : World) : World → Prop
  | host {h : Host} (hs : Host.Same w.host h) : Quiet w { w with host := h }
  | session {i : Nat} {s s' : Stage} (hs : w.stage? i = some s) (hk : Stage.Keeps s s') :
      Quiet w (w.put s')

theorem Quiet.refl (w : World) : Quiet w w := .host (.refl _)

theorem sessions_of_none (hs : w.stage? i = none) : w.sessions.get? i = none := by
  simpa [stage?] using hs

/-- What leaves wiring and status alone is quiet. -/
theorem quiet_modifySession (hd : w.sessions.Distinct) (i : Nat) (f : Session → Session)
    (hw : ∀ x, (f x).wiring = x.wiring) (hst : ∀ x, (f x).status = x.status) :
    Quiet w (w.modifySession i f) := by
  cases hs : w.stage? i with
  | none =>
      rw [modifySession_of_none hs]
      exact .refl w
  | some s =>
      rw [modifySession_eq_put hd hs]
      exact .session hs (Stage.keeps_modify f (hw _) (hst _))

/-- Looping is quiet. -/
theorem quiet_loopBack (w : World) (i : Nat) : Quiet w (loopBack i w) := by
  cases hs : w.stage? i with
  | none =>
      simp only [loopBack, sessions_of_none hs]
      exact .refl w
  | some s =>
      obtain ⟨hi, hget, hh⟩ := stage?_eq_some.mp hs
      cases hp : s.session.pipeline with
      | none =>
          simp only [loopBack, hget, hp]
          exact .refl w
      | some h =>
          by_cases hc : (s.session.status.looping && !s.session.phase.isDestroyed) = true
          · have hk := (Stage.works_tell (s := s) (h := h) (·.setPosition h.id .zero)
              (Engine.alters_setPosition .zero)).keeps hp fun p hcp => hcp.setPosition .zero
            have heq : w.put (s.onHost (·.tell (·.setPosition h.id .zero))) =
                w.onHost (·.tell (·.setPosition h.id .zero)) := by
              simp only [put, Stage.onHost, World.onHost, hi, hh, Table.set_self hget]
            simp only [loopBack, hget, hp, hc, if_true]
            rw [← heq]
            exact .session hs hk
          · simp only [loopBack, hget, hp, hc]
            exact .refl w

/-- A session whose media failed is stopped, and its pipeline with it. -/
theorem stopFailed_eq (hd : w.sessions.Distinct) (hs : w.stage? i = some s)
    (hc : s.session.phase.isConfigured = true) : stopFailed i w = w.put s.halt := by
  obtain ⟨hi, hget, hh⟩ := stage?_eq_some.mp hs
  simp only [stopFailed, hget, hc, if_true, Stage.halt]
  cases s.session.pipeline with
  | none =>
      dsimp only
      rw [modifySession_eq_put hd hs]
      rfl
  | some h =>
      have hst : (w.onHost (·.tell (·.stop h.id))).stage? i =
          some (s.onHost (·.tell (·.stop h.id))) :=
        stage?_eq_some.mpr ⟨hi, hget, by simp only [Stage.onHost, World.onHost, hh]⟩
      have hd' : (w.onHost (·.tell (·.stop h.id))).sessions.Distinct := hd
      dsimp only
      rw [modifySession_eq_put hd' hst]
      rfl

/-- So is the stop after an error. -/
theorem quiet_stopFailed (hd : w.sessions.Distinct) (i : Nat) : Quiet w (stopFailed i w) := by
  cases hs : w.stage? i with
  | none =>
      simp only [stopFailed, sessions_of_none hs]
      exact .refl w
  | some s =>
      by_cases hc : s.session.phase.isConfigured = true
      · rw [stopFailed_eq hd hs hc]
        exact .session hs (Stage.keeps_halt hc)
      · obtain ⟨-, hget, -⟩ := stage?_eq_some.mp hs
        simp only [stopFailed, hget, hc]
        exact .refl w

/-- Every effect is quiet. -/
theorem Effect.quiet (hd : w.sessions.Distinct) (he : Effect w w') : Quiet w w' := by
  cases he with
  | record x => exact .host (Host.same_record x)
  | note hn => exact .host (Host.same_note hn)
  | queue q f => exact .host (Host.same_modifyQueue q f)
  | observers i o => exact quiet_modifySession hd i _ (fun _ => rfl) fun _ => rfl
  | account i e => exact quiet_modifySession hd i _ (fun _ => rfl) fun _ => rfl
  | loopBack i => exact quiet_loopBack w i
  | stopFailed i => exact quiet_stopFailed hd i

/-- The session kept what it has, so the books are as before. -/
theorem Sound.put_of_keeps (hw : w.Sound) (hs : w.stage? i = some s) (hk : Stage.Keeps s s') :
    (w.put s').books = w.books ∧ (w.put s').Sound := by
  obtain ⟨hi, hget, hh⟩ := stage?_eq_some.mp hs
  refine ⟨?_, (hw.put hs hk.turns).2⟩
  have hws := wirings_of_stage hs
  rw [← hi] at hws
  simp only [World.books, World.put, Table.map_set, hk.index, hk.wiring, hk.ledger, hh]
  exact congrArg _ (Table.set_self hws)

/-- What is quiet leaves the books alone and the world sound. -/
theorem Quiet.sound (hw : w.Sound) (hq : Quiet w w') : w'.books = w.books ∧ w'.Sound := by
  cases hq with
  | host hs => exact hw.same hs
  | session hs hk => exact hw.put_of_keeps hs hk

theorem Sound.distinct (hw : w.Sound) : w.sessions.Distinct :=
  Table.distinct_map.mp hw.books.wirings

/-- Queued work leaves the books as they are, and the world sound. -/
theorem Leads.sound (hl : Leads w w') (hw : w.Sound) : w'.books = w.books ∧ w'.Sound := by
  refine hl.preserves (P := fun x => x.books = w.books ∧ x.Sound) (fun x y he hx => ?_) ⟨rfl, hw⟩
  obtain ⟨hb, hy⟩ := Quiet.sound hx.2 (he.quiet hx.2.distinct)
  exact ⟨hb.trans hx.1, hy⟩

/-! ### Actions -/

/-- The world moved its books, and stayed sound. -/
structure Steps (leased : Bool) (w w' : World) : Prop where
  moves : Moves leased w.books w'.books
  sound : w'.Sound

theorem steps_of_eq {leased : Bool} (h : w'.books = w.books ∧ w'.Sound) : Steps leased w w' :=
  ⟨h.1 ▸ .refl _, h.2⟩

theorem Steps.trans {leased : Bool} {w₁ : World} (h₁ : Steps leased w w₁)
    (h₂ : Steps leased w₁ w') : Steps leased w w' :=
  ⟨h₁.moves.trans h₂.moves, h₂.sound⟩

/-- A number stays its owner's, step after step. -/
theorem Steps.belongs {leased : Bool} {t : Nat} {target : Target} (h : Steps leased w w')
    (hw : w.Sound) (ht : w.books.ledger.Belongs t target) : w'.books.ledger.Belongs t target :=
  (h.moves.preserves (P := fun b => b.Sound ∧ b.ledger.Belongs t target)
    (fun _ _ hm hb => ⟨hm.sound hb.1, hm.belongs hb.1 hb.2⟩) ⟨hw.books, ht⟩).2

/-- A session of a sound world is coupled on every host with the same pipelines. -/
theorem Sound.coupled_on {x : Session} {h : Host} (hw : w.Sound)
    (hx : w.sessions.get? i = some x) (hp : h.engine.pipelines = w.host.engine.pipelines) :
    Stage.Coupled ⟨i, x, h⟩ := by
  intro h' p hh hget
  change h.engine.pipelines.get? h'.id = some p at hget
  rw [hp] at hget
  have hs : w.stage? i = some ⟨i, x, w.host⟩ := stage?_eq_some.mpr ⟨rfl, hx, rfl⟩
  exact hw.coupled hs h' p hh hget

/-- A move that only the host makes. -/
theorem Sound.moved {h : Host} {leased : Bool} (hw : w.Sound)
    (hm : Move leased w.books ⟨h.ledger, w.books.wirings⟩)
    (hp : h.engine.pipelines = w.host.engine.pipelines) :
    Steps leased w { w with host := h } := by
  refine ⟨.one hm, hm.sound hw.books, fun {j x} hx => ?_⟩
  obtain ⟨k, y, g⟩ := x
  obtain ⟨rfl, hget, rfl⟩ := stage?_eq_some.mp hx
  exact hw.coupled_on hget hp

/-- A session that is new. -/
theorem Sound.addSession (hw : w.Sound) (hi : w.sessions.get? i = none) (config : Config)
    (image : Image) (q : Nat) : Steps true w (w.addSession i config image q) := by
  have hn : w.books.wirings.get? i = none := by simp [World.books, hi]
  have hmove : Move true w.books (w.addSession i config image q).books := by
    have hm : Move true w.books _ := .join hn
    simp only [World.books, World.addSession, World.onHost, Table.map_set]
    exact hm
  refine ⟨.one hmove, hmove.sound hw.books, fun {j x} hx => ?_⟩
  obtain ⟨k, y, g⟩ := x
  obtain ⟨rfl, hget, rfl⟩ := stage?_eq_some.mp hx
  simp only [World.addSession, World.onHost, Table.get?_set] at hget
  split at hget
  · cases hget
    exact Stage.coupled_of_down rfl
  · exact hw.coupled_on hget rfl

/-- A turn of one session is a step of the world. -/
theorem Sound.act {α : Type} (hw : w.Sound) (i : Nat) {f : Stage → Stage × α}
    (hf : ∀ s, w.stage? i = some s → Stage.Turns s (f s).1) : Steps true w (w.act i f).1 := by
  simp only [World.act]
  split
  · exact steps_of_eq ⟨rfl, hw⟩
  · next s hs =>
      obtain ⟨hm, hs'⟩ := hw.put hs (hf s hs)
      exact ⟨hm, hs'⟩

theorem Sound.look (hw : w.Sound) (i : Nat) :
    Steps true w (w.act i (·.withLive Stage.pull)).1 := by
  refine hw.act i fun s _ => (Stage.Keeps.withLive fun h hl => ?_).turns
  exact Stage.keeps_pull s (Stage.live_eq_ok.mp hl).2

theorem Sound.advance (hw : w.Sound) (i : Nat) : Steps true w (w.advance i).1 := by
  have hlook := hw.look i
  exact hlook.trans (steps_of_eq ((leads_advance w i).sound hlook.sound))

/-- A drop destroys the session, and then removes it. -/
theorem Sound.drop (hw : w.Sound) (i : Nat) : Steps true w (w.drop i).1 := by
  simp only [World.drop]
  split
  · exact steps_of_eq ⟨rfl, hw⟩
  · next s hs =>
      obtain ⟨hi, hget, hh⟩ := stage?_eq_some.mp hs
      have hd := Stage.destroys_destroy (hw.attached hs) (hw.coupled hs)
      obtain ⟨hm, hput⟩ := hw.put hs hd.turns
      have hdown : (w.put s.destroy).books.wirings.get? i = some (.down true) := by
        have hst : (w.put s.destroy).stage? i = some s.destroy := by
          rw [stage?_put, if_pos (hd.turns.index.trans hi)]
        rw [wirings_of_stage hst, hd.wiring]
      have hleave : Move true (w.put s.destroy).books
          { w.put s.destroy with sessions := (w.put s.destroy).sessions.erase i }.books := by
        simp only [World.books, Table.map_erase]
        exact .leave (b := (w.put s.destroy).books) hdown
      refine ⟨hm.trans (.one hleave), hleave.sound hput.books, fun {j x} hx => ?_⟩
      obtain ⟨hj, hgetj, hhj⟩ := stage?_eq_some.mp hx
      rw [Table.get?_erase] at hgetj
      split at hgetj
      · cases hgetj
      · exact hput.coupled (stage?_eq_some.mpr ⟨hj, hgetj, hhj⟩)

/-- Every action moves the books and keeps the world sound. -/
theorem Sound.apply (hw : w.Sound) (a : Action) : Steps a.isLeased w (w.apply a) := by
  cases a with
  | newSession i q config image =>
      simp only [World.apply]
      split
      · next hc =>
          have hi : w.sessions.get? i = none := by
            simpa using (Bool.and_eq_true_iff.mp hc).1
          exact hw.addSession hi config image q
      · exact steps_of_eq ⟨rfl, hw⟩
  | command i c =>
      exact hw.act i fun s hs => Stage.turns_exec (hw.attached hs) (hw.coupled hs) c
  | tick i => exact hw.advance i
  | drop i => exact hw.drop i
  | drain q => exact steps_of_eq ((leads_drain w q).sound hw)
  | submit q program => exact steps_of_eq (hw.same (Host.same_modifyQueue q _))
  | closeQueue q => exact steps_of_eq (hw.same (Host.same_modifyQueue q _))
  | push k frame =>
      exact steps_of_eq (hw.onHost (Host.alters_tell (Engine.alters_push frame)) fun _ => rfl)
  | callback c => exact steps_of_eq (hw.same (Host.same_signal c))
  | arrive n => exact steps_of_eq (hw.same (Host.same_arrive n))
  | settle =>
      refine hw.moved ?_ Host.pipelines_settle
      rw [Host.ledger_settle]
      exact .settle
  | pace prompt => exact steps_of_eq (hw.same (Host.same_setEngine rfl rfl))
  | refuseCreate => exact steps_of_eq (hw.same (Host.same_setEngine rfl rfl))
  | failStarts count => exact steps_of_eq (hw.same (Host.same_setEngine rfl rfl))
  | addRef =>
      obtain ⟨ok, hok⟩ := Host.ledger_addRef (h := w.host)
      refine hw.moved ?_ Host.pipelines_addRef
      rw [hok]
      exact .addRef rfl ok
  | releaseRef =>
      refine hw.moved ?_ (Host.pipelines_releaseLease {})
      rw [Host.ledger_releaseRef]
      exact .releaseRef rfl

/-- The books before anything happened. -/
theorem Fresh.books (hw : w.Fresh) :
    w.books =
      { ledger :=
          { refs := 0
            started := false
            engine := { active := false, nextId := 1, pipelines := {}, milestones := [] }
            nextToken := 1
            bindings := {}
            leaks := []
            late := [] }
        wirings := {} } := by
  obtain ⟨h₁, h₂, -, h₃, h₄, h₅, h₆, h₇, h₈, h₉, h₁₀⟩ := hw
  simp only [World.books, Host.ledger, Engine.inventory, h₁, h₂, h₃, h₄, h₅, h₆, h₇, h₈, h₉, h₁₀]
  rfl

/-- A fresh world is sound. -/
theorem Fresh.sound (hw : w.Fresh) : w.Sound := by
  refine ⟨?_, fun {i s} hs => ?_⟩
  · rw [hw.books]
    refine ⟨Table.distinct_empty, Table.distinct_empty, Table.distinct_empty, ?_, fun _ => rfl,
      fun _ => rfl, Nat.one_pos, fun k => ?_, by simp, rfl, fun _ => rfl⟩
    · intro i v hi
      cases hi
    · rw [if_neg (by change ¬(0 < k ∧ k < 1); omega)]
      rfl
  · obtain ⟨-, hget, -⟩ := stage?_eq_some.mp hs
    rw [hw.sessions] at hget
    cases hget

/-- Every run moves the books and keeps the world sound. -/
theorem Sound.run (hw : w.Sound) (as : List Action) : (w.run as).Sound :=
  run_preserves (fun _ a h => (h.apply a).sound) as hw

/-- Every reachable world is. -/
theorem Reachable.sound (hw : w.Reachable) : w.Sound :=
  hw.induction (fun _ => Fresh.sound) fun _ a hw => (hw.apply a).sound

end World
end MediaHost
