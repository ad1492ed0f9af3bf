import MediaHost.Proofs.Invariant

/-!
# Proofs — Balance

References to the engine, bindings in use and live pipelines are always as many as the sessions
that are up (`leases_balance`): whatever is taken on the way up is given back on the way down,
on every path.
-/

namespace MediaHost

namespace Ledger
variable {l : Ledger} {t : Nat} {target : Target}

/-- A registration is one number more. -/
theorem count_register (target : Target) (h : l.bindings.get? l.nextToken = none) :
    (l.register target).bindings.count (·.2) = l.bindings.count (·.2) + 1 :=
  Table.count_set_new h (target, true) (·.2)

/-- A number that is given back is one less. -/
theorem count_unregister (hd : l.bindings.Distinct) (h : l.bindings.get? t = some (target, true)) :
    (l.unregister t).bindings.count (·.2) + 1 = l.bindings.count (·.2) := by
  have hc := Table.count_set_old h (target, false) (·.2)
  simp only [unregister, hd.modify_eq_set h]
  exact hc

end Ledger

/-- A number that is given out and taken back leaves as many as before. -/
theorem Books.Sound.count_refuse {b : Books} (hs : b.Sound) (ok : Bool) (target : Target) :
    ((((b.ledger.addRef ok).register target).refuse.unregister
      b.ledger.nextToken).release).bindings.count (·.2) = b.ledger.bindings.count (·.2) := by
  have ha := Ledger.alike_addRef (l := b.ledger) ok
  have hreg := (hs.addRef ok).register target
  have hr := Ledger.count_register (l := b.ledger.addRef ok) target
    (by rw [ha.bindings, ha.nextToken]; exact hs.tokens (Nat.le_refl _))
  have hu := Ledger.count_unregister (l := ((b.ledger.addRef ok).register target).refuse)
    (t := b.ledger.nextToken) hreg.bindings (show _ = some (target, true) by
      simp [Ledger.refuse, Ledger.register, ha.nextToken])
  rw [Ledger.alike_release.bindings]
  rw [ha.bindings] at hr
  change _ + 1 = ((b.ledger.addRef ok).register target).bindings.count (·.2) at hu
  omega

/-- Books stay balanced while as many sessions are up. -/
theorem Books.Balanced.rewire {b : Books} {ws : Table Wiring} (hb : b.Balanced)
    (hw : ws.count (·.isUp) = b.wirings.count (·.isUp)) :
    Balanced { b with wirings := ws } :=
  ⟨hb.refs.trans hw.symm, hb.bindings.trans hw.symm,
    hb.pipelines.trans (congrArg (· + b.ledger.leaks.length) hw.symm)⟩

/-- A session that was up gives back one reference and one number. -/
theorem Books.Balanced.lower {b : Books} (hs : b.Sound) (hb : b.Balanced) {i t : Nat}
    {h : Handle} (hi : b.wirings.get? i = some (.up h t)) {l : Ledger}
    (hr : l.refs = b.ledger.refs) (hbind : l.bindings = (b.ledger.unregister t).bindings)
    (hp : l.engine.pipelines.size + b.ledger.leaks.length + 1 =
      b.ledger.engine.pipelines.size + l.leaks.length) :
    Balanced ⟨l.release, b.wirings.set i (.down true)⟩ := by
  have ha := Ledger.alike_release (l := l)
  have hw := Table.count_set_old hi (.down true) (·.isUp)
  simp only [Wiring.isUp_up, Wiring.isUp_down, Bool.toNat_true, Bool.toNat_false,
    Nat.add_zero] at hw
  have hu := Ledger.count_unregister hs.bindings (hs.attached hi).of_up.2
  obtain ⟨h₁, h₂, h₃⟩ := hb
  refine ⟨?_, ?_, ?_⟩
  · rw [Ledger.refs_release]
    change _ = (b.wirings.set i (.down true)).count (·.isUp)
    omega
  · rw [ha.bindings, hbind]
    change _ = (b.wirings.set i (.down true)).count (·.isUp)
    omega
  · rw [ha.pipelines, ha.leaks]
    change _ = (b.wirings.set i (.down true)).count (·.isUp) + _
    omega

/-- Moves that take references for sessions only keep the books balanced. -/
theorem Move.balanced {b b' : Books} (hm : Move true b b') (hs : b.Sound) (hb : b.Balanced) :
    b'.Balanced := by
  cases hm with
  | join hi => exact hb.rewire (Table.count_set_new hi (.down false) (·.isUp))
  | fail ok =>
      have h₁ := Ledger.alike_addRef (l := b.ledger) ok
      have h₂ := Ledger.alike_release (l := b.ledger.addRef ok)
      refine ⟨?_, ?_, ?_⟩
      · simpa using hb.refs
      · rw [h₂.bindings, h₁.bindings]
        exact hb.bindings
      · rw [h₂.pipelines, h₁.pipelines, h₂.leaks, h₁.leaks]
        exact hb.pipelines
  | refuse ok target =>
      have h₁ := Ledger.alike_addRef (l := b.ledger) ok
      have h₂ := Ledger.alike_release
        (l := ((b.ledger.addRef ok).register target).refuse.unregister b.ledger.nextToken)
      refine ⟨?_, (hs.count_refuse ok target).trans hb.bindings, ?_⟩
      · rw [Ledger.refs_release]
        change (b.ledger.addRef ok).refs - 1 = _
        simpa using hb.refs
      · rw [h₂.pipelines, h₂.leaks]
        change (b.ledger.addRef ok).engine.pipelines.size = _ + (b.ledger.addRef ok).leaks.length
        rw [h₁.pipelines, h₁.leaks]
        exact hb.pipelines
  | @bringUp i hi ok name =>
      have ha := Ledger.alike_addRef (l := b.ledger) ok
      have hw := Table.count_set_old hi (.up ⟨name, b.ledger.engine.nextId⟩ b.ledger.nextToken)
        (·.isUp)
      simp only [Wiring.isUp_up, Wiring.isUp_down, Bool.toNat_true, Bool.toNat_false,
        Nat.add_zero] at hw
      have hr := Ledger.count_register (l := b.ledger.addRef ok) (.session i)
        (by rw [ha.bindings, ha.nextToken]; exact hs.tokens (Nat.le_refl _))
      have hp := Table.count_set_new (hs.ids (Nat.le_refl _)) (b.ledger.nextToken, .all)
        fun _ => true
      obtain ⟨h₁, h₂, h₃⟩ := hb
      refine ⟨?_, ?_, ?_⟩
      · change (b.ledger.addRef ok).refs = _
        rw [Ledger.refs_addRef, hw, h₁]
      · change ((b.ledger.addRef ok).register (.session i)).bindings.count (·.2) = _
        rw [hr, ha.bindings, hw, h₂]
      · change ((b.ledger.addRef ok).engine.pipelines.set (b.ledger.addRef ok).engine.nextId
          (b.ledger.nextToken, .all)).size = _ + (b.ledger.addRef ok).leaks.length
        rw [ha.pipelines, ha.nextId, ha.leaks, Table.size_eq_count, hp, ← Table.size_eq_count,
          hw, h₃]
        simp only [Bool.toNat_true]
        omega
  | retire hi => exact hb.rewire (Table.count_set_old hi (.down true) (·.isUp))
  | @destroy i t h hi late hl =>
      refine hb.lower hs hi rfl rfl ?_
      have hc := hs.pipelines.count_erase (hs.attached hi).of_up.1 fun _ => true
      rw [← Table.size_eq_count, ← Table.size_eq_count] at hc
      change (b.ledger.engine.pipelines.erase h.id).size + _ + 1 = _ + b.ledger.leaks.length
      simp only [Bool.toNat_true] at hc
      omega
  | @leak i t h hi late hl =>
      refine hb.lower hs hi rfl rfl ?_
      change b.ledger.engine.pipelines.size + b.ledger.leaks.length + 1 =
        b.ledger.engine.pipelines.size + (b.ledger.leaks ++ [h.id]).length
      rw [List.length_append]
      rfl
  | leave hi => exact hb.rewire (hs.wirings.count_erase hi (·.isUp))
  | settle => exact ⟨hb.refs, hb.bindings, hb.pipelines⟩
  | addRef h _ => cases h
  | releaseRef h => cases h

/-- Books stay balanced, move by move. -/
theorem Moves.balanced {b b' : Books} (hm : Moves true b b') (hs : b.Sound) (hb : b.Balanced) :
    b'.Balanced :=
  (hm.preserves (P := fun x => x.Sound ∧ x.Balanced)
    (fun _ _ h hx => ⟨h.sound hx.1, h.balanced hx.1 hx.2⟩) ⟨hs, hb⟩).2

namespace World
variable {w w₀ : World}

/-- How many sessions are initialized and not destroyed. -/
def upCount (w : World) : Nat := w.sessions.count fun s => s.isUp && !s.phase.isDestroyed

/-- How many sessions have the pipeline `k`. -/
def holders (w : World) (k : Nat) : Nat :=
  w.sessions.count fun s => s.pipeline.any (·.id = k)

/-- The sessions that are up are the wirings that are. -/
theorem Sound.upCount_eq (hw : w.Sound) : w.upCount = w.books.wirings.count (·.isUp) := by
  refine Eq.trans (hw.distinct.count_congr fun i s hs => ?_)
    (Table.count_map Session.wiring w.sessions (·.isUp)).symm
  change (s.isUp && !s.phase.isDestroyed) = s.isUp
  have hst : w.stage? i = some ⟨i, s, w.host⟩ := stage?_eq_some.mpr ⟨rfl, hs, rfl⟩
  cases hp : s.pipeline with
  | none => simp [Session.isUp, hp]
  | some h =>
      obtain ⟨t, hwir⟩ := hw.wiring_of_pipeline hst hp
      have hd : s.phase.isDestroyed = false := congrArg Wiring.destroyed hwir
      simp [hd]

theorem holders_eq (w : World) (k : Nat) : w.holders k = w.books.wirings.count (·.holds k) :=
  (Table.count_map Session.wiring w.sessions (·.holds k)).symm

theorem Fresh.balanced (hw : w.Fresh) : w.books.Balanced := by
  rw [hw.books]
  exact ⟨rfl, rfl, rfl⟩

/-- Books stay balanced over every run of leased actions. -/
theorem Sound.balanced_run (hw : w.Sound) (hb : w.books.Balanced) {as : List Action}
    (ha : ∀ a ∈ as, a.isLeased = true) : (w.run as).books.Balanced := by
  induction as generalizing w with
  | nil => exact hb
  | cons a as ih =>
      have hs := hw.apply a
      have hm : Moves true w.books (w.apply a).books := ha a List.mem_cons_self ▸ hs.moves
      exact ih hs.sound (hm.balanced hw.books hb) fun c hc => ha c (List.mem_cons_of_mem a hc)

theorem arena_size_eq (w : World) :
    w.host.arena.size = w.books.ledger.bindings.count (·.2) :=
  (Table.count_map Binding.wire w.host.arena.bindings (·.2)).symm

theorem pipelines_size_eq (w : World) :
    w.host.engine.pipelines.size = w.books.ledger.engine.pipelines.size := by
  simp [World.books, Host.ledger, Engine.inventory, Table.size, Table.map]

/-- In every run, at every point: references to the engine, bindings in use, and pipelines
that were not given up are as many as the sessions that are up; every pipeline ever made is held
by one session, destroyed once, or given up once; and once no session is up any more, nothing is
left: no reference, no number that finds anybody, and no start of the engine without its
shutdown. -/
theorem leases_balance (h₀ : Fresh w₀) (as : List Action) (ha : ∀ a ∈ as, a.isLeased = true) :
    (w₀.run as).host.context.refs = (w₀.run as).upCount ∧
    (w₀.run as).host.arena.size = (w₀.run as).upCount ∧
    (w₀.run as).host.engine.pipelines.size =
      (w₀.run as).upCount + (w₀.run as).host.ledger.leaks.length ∧
    (∀ k, (w₀.run as).host.engine.callCount k .destroy +
        (w₀.run as).host.ledger.leaks.count k + (w₀.run as).holders k =
      if 0 < k ∧ k < (w₀.run as).host.engine.nextId then 1 else 0) ∧
    ((∀ i s, (w₀.run as).sessions.get? i = some s → s.isUp = false ∨ s.phase = .destroyed) →
      (w₀.run as).host.context.refs = 0 ∧
      (∀ t, (w₀.run as).host.arena.resolve t = none) ∧
      (∀ k, (w₀.run as).holders k = 0) ∧
      (w₀.run as).host.engine.startCount = (w₀.run as).host.engine.shutDownCount) := by
  -- the books balance; what is left is to read the world off them
  have hb := h₀.sound.balanced_run h₀.balanced ha
  have hs := h₀.sound.run as
  generalize w₀.run as = w at hb hs ⊢
  have hup := hs.upCount_eq
  have hrefs : w.host.context.refs = w.upCount := hb.refs.trans hup.symm
  have hsize : w.host.arena.size = w.upCount :=
    (arena_size_eq w).trans (hb.bindings.trans hup.symm)
  refine ⟨hrefs, hsize, ?_, fun k => ?_, fun hdown => ?_⟩
  · rw [pipelines_size_eq, hup]
    exact hb.pipelines
  · have hf := hs.books.fates k
    rwa [destroys_books, ← holders_eq] at hf
  · have hzero : w.upCount = 0 := by
      refine Eq.trans (hs.distinct.count_congr (q := fun _ => false) fun i s hi => ?_) (by
        simp [Table.count])
      rcases hdown i s hi with h | h
      · rw [h]
        rfl
      · rw [h]
        simp [Phase.isDestroyed]
    have hsteady := hs.books.steady
    have hstarted := hsteady.started (hrefs.trans hzero)
    refine ⟨hrefs.trans hzero, fun t => ?_, fun k => ?_, ?_⟩
    · cases hr : w.host.arena.resolve t with
      | none => rfl
      | some b =>
          obtain ⟨hget, hreg⟩ := Option.filter_eq_some_iff.mp hr
          have hfalse := Table.eq_false_of_count (hsize.trans hzero) hget
          rw [hreg] at hfalse
          cases hfalse
    · refine Eq.trans (hs.distinct.count_congr (q := fun _ => false) fun i s hi => ?_) (by
        simp [Table.count])
      have hwir : w.books.wirings.get? i = some s.wiring := by simp [World.books, hi]
      have hnone : s.pipeline.isSome = false :=
        Table.eq_false_of_count (hup.symm.trans hzero) hwir
      cases hp : s.pipeline with
      | none => rfl
      | some h => simp [hp] at hnone
    · have hstarts := hsteady.starts
      rw [hstarted] at hstarts
      have h₁ := Engine.count_milestones (e := w.host.engine) Request.isMilestone_startUp
      have h₂ := Engine.count_milestones (e := w.host.engine) Request.isMilestone_shutDown
      exact h₁.symm.trans (hstarts.trans h₂)

/-- Two sessions on one engine: the first one fails to come up, comes up, and is destroyed
twice, its pipeline given up; the second one is dropped. -/
def twoSessions : List Action :=
  .newSession 1 2 {} (.outline ⟨1, 1⟩) :: .command 1 .bringUp :: .refuseCreate ::
    (encoderSetUp ++ [.command 0 .bringUp, .command 0 .bringUp,
      .command 0 (.setupEncoding ⟨"out.mp4", ⟨4, 2⟩⟩), .command 0 .play, .command 0 .destroy,
      .command 0 .destroy, .drop 1])

theorem two_sessions_balance :
    (slow.run twoSessions).host.context.refs = 0 ∧
    (slow.run twoSessions).host.engine.startCount =
      (slow.run twoSessions).host.engine.shutDownCount ∧
    (slow.run twoSessions).host.ledger.leaks = [2] := by
  have hdown : (slow.run twoSessions).sessions.count (·.isUp) = 0 := by decide
  obtain ⟨-, -, -, -, hrest⟩ := leases_balance fresh_slow twoSessions (by decide)
  obtain ⟨hrefs, -, -, hstarts⟩ := hrest fun i s hs => .inl (Table.eq_false_of_count hdown hs)
  exact ⟨hrefs, hstarts, by decide⟩

end World
end MediaHost
