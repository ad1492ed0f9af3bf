import MediaHost.Proofs.Balance
import MediaHost.Proofs.Calls

/-!
# Proofs — Upkeep

A session that is up keeps the engine up.  While the books are balanced, no reference that is
given back is the last one as long as one session stays up (`Move.kept`), and an engine that was
started runs (`Move.active`); so whatever is asked of the other sessions, the engine runs
(`World.Fresh.isActive_run`) and is not shut down meanwhile (`World.Orderly.shutDownCount_apply`).
-/

namespace MediaHost

namespace Ledger
variable {l : Ledger}

/-- How often the engine was shut down. -/
def shutDowns (l : Ledger) : Nat := l.engine.milestones.count .shutDown

theorem shutDowns_addRef (ok : Bool) : (l.addRef ok).shutDowns = l.shutDowns := by
  simp only [addRef]
  split
  · cases ok
    · rfl
    · simp [shutDowns]
  · rfl

/-- Only the last reference that is given back shuts the engine down. -/
theorem shutDowns_release (h : l.refs ≠ 1) : l.release.shutDowns = l.shutDowns := by
  simp only [release]
  split
  · rfl
  · split
    · next h1 => exact absurd (of_decide_eq_true (Bool.and_eq_true_iff.mp h1).1) h
    · rfl

/-- A call of a pipeline shuts nothing down. -/
theorem shutDowns_called {e : Inventory} {k : Nat} {c : Call}
    (he : e.milestones = .call k c :: l.engine.milestones) :
    shutDowns { l with engine := e } = l.shutDowns := by
  simp [shutDowns, he]

theorem shutDowns_refuse (ok : Bool) (target : Target) (t : Nat) :
    (((l.addRef ok).register target).refuse.unregister t).shutDowns = l.shutDowns :=
  (shutDowns_called (l := l.addRef ok) rfl).trans (shutDowns_addRef ok)

theorem shutDowns_create (ok : Bool) (target : Target) (t : Nat) :
    (((l.addRef ok).register target).create t).shutDowns = l.shutDowns :=
  (shutDowns_called (l := l.addRef ok) rfl).trans (shutDowns_addRef ok)

theorem shutDowns_destroy (late : List Callback) (t k : Nat) :
    (((l.withLate late).unregister t).destroy k).shutDowns = l.shutDowns :=
  shutDowns_called (l := l) rfl

/-- An engine is active exactly if the context has started it; the first reference starts both. -/
theorem active_addRef (hs : l.Steady) (ha : l.engine.active = l.started) (ok : Bool) :
    (l.addRef ok).engine.active = (l.addRef ok).started := by
  simp only [addRef]
  split
  · next h0 =>
      cases ok
      · exact ha.trans (hs.started h0)
      · rfl
  · exact ha

/-- The last reference that goes stops both. -/
theorem active_release (ha : l.engine.active = l.started) :
    l.release.engine.active = l.release.started := by
  simp only [release]
  split
  · exact ha
  · split
    · rfl
    · exact ha

end Ledger

/-- An engine runs exactly if it was started. -/
theorem Move.active {leased : Bool} {b b' : Books} (hm : Move leased b b') (hs : b.Sound)
    (ha : b.ledger.engine.active = b.ledger.started) :
    b'.ledger.engine.active = b'.ledger.started := by
  have hadd := Ledger.active_addRef hs.steady ha
  cases hm with
  | fail ok => exact Ledger.active_release (hadd ok)
  | refuse ok target =>
      have hreg : (((b.ledger.addRef ok).register target).refuse.unregister
          b.ledger.nextToken).engine.active = _ := hadd ok
      exact Ledger.active_release hreg
  | bringUp hi ok name => exact hadd ok
  | @destroy i t h hi late hl =>
      have hold : (((b.ledger.withLate late).unregister t).destroy h.id).engine.active = _ := ha
      exact Ledger.active_release hold
  | @leak i t h hi late hl =>
      have hold : (((b.ledger.withLate late).unregister t).leak h.id).engine.active = _ := ha
      exact Ledger.active_release hold
  | addRef _ ok => exact hadd ok
  | releaseRef _ => exact Ledger.active_release ha
  | _ => exact ha

namespace Books
variable {b b' : Books} {i j t u n : Nat} {g h : Handle}

/-- As long as a session is up there is a reference. -/
theorem Balanced.refs_pos (hb : b.Balanced) (hj : b.wirings.get? j = some (.up h t)) :
    b.ledger.refs ≠ 0 := by
  intro h0
  have hfalse := Table.eq_false_of_count (hb.refs.symm.trans h0) hj
  cases hfalse

/-- Two sessions that are up hold two references. -/
theorem Balanced.refs_ne_one (hb : b.Balanced) (hi : b.wirings.get? i = some (.up g u))
    (hj : b.wirings.get? j = some (.up h t)) (hij : i ≠ j) : b.ledger.refs ≠ 1 := by
  intro h1
  have hc := Table.count_set_old hi (.down true) (·.isUp)
  simp only [Wiring.isUp_up, Wiring.isUp_down, Bool.toNat_true, Bool.toNat_false,
    Nat.add_zero] at hc
  have hzero : (b.wirings.set i (.down true)).count (·.isUp) = 0 := by
    have hrefs := hb.refs
    omega
  have hj' : (b.wirings.set i (.down true)).get? j = some (.up h t) := by
    rw [Table.get?_set, if_neg hij]
    exact hj
  have hfalse := Table.eq_false_of_count hzero hj'
  cases hfalse

/-- A session that is up after another one went down was up before. -/
theorem up_of_set_down {d : Bool} (hj : (b.wirings.set i (.down d)).get? j = some (.up h t)) :
    i ≠ j ∧ b.wirings.get? j = some (.up h t) := by
  rw [Table.get?_set] at hj
  split at hj
  · cases hj
  · next hne => exact ⟨hne, hj⟩

/-- As long as the session `j` is up, the engine was shut down `n` times. -/
structure Kept (j : Nat) (h : Handle) (t n : Nat) (b : Books) : Prop where
  sound : b.Sound
  balanced : b.Balanced
  belongs : b.ledger.Belongs t (.session j)
  count : b.wirings.get? j = some (.up h t) → b.ledger.shutDowns = n

end Books

/-- While the session stays up, no move shuts the engine down. -/
theorem Move.kept {b b' : Books} {j t n : Nat} {h : Handle} (hm : Move true b b')
    (hk : b.Kept j h t n) : b'.Kept j h t n := by
  refine ⟨hm.sound hk.sound, hm.balanced hk.sound hk.balanced, hm.belongs hk.sound hk.belongs,
    fun hj => ?_⟩
  cases hm with
  | join hi => exact hk.count (Books.up_of_set_down hj).2
  | fail ok =>
      have hpos := hk.balanced.refs_pos hj
      have hrel := Ledger.shutDowns_release (l := b.ledger.addRef ok) (by simpa using hpos)
      exact hrel.trans ((Ledger.shutDowns_addRef ok).trans (hk.count hj))
  | refuse ok target =>
      have hpos := hk.balanced.refs_pos hj
      have hrel := Ledger.shutDowns_release (l := ((b.ledger.addRef ok).register
        target).refuse.unregister b.ledger.nextToken) (by
          change (b.ledger.addRef ok).refs ≠ 1
          simpa using hpos)
      exact hrel.trans ((Ledger.shutDowns_refuse ok target _).trans (hk.count hj))
  | @bringUp i hi ok name =>
      rw [Table.get?_set] at hj
      split at hj
      · -- the number that is given out now is not one that was given out before
        obtain rfl := Option.some.inj (congrArg Wiring.token (Option.some.inj hj))
        obtain ⟨r, hr⟩ := hk.belongs
        rw [hk.sound.tokens (Nat.le_refl _)] at hr
        cases hr
      · exact (Ledger.shutDowns_create ok (.session i) _).trans (hk.count hj)
  | retire hi => exact hk.count (Books.up_of_set_down hj).2
  | @destroy i u g hi late hl =>
      obtain ⟨hij, hup⟩ := Books.up_of_set_down hj
      have hrel := Ledger.shutDowns_release
        (l := ((b.ledger.withLate late).unregister u).destroy g.id)
        (hk.balanced.refs_ne_one hi hup hij)
      exact hrel.trans ((Ledger.shutDowns_destroy late u g.id).trans (hk.count hup))
  | @leak i u g hi late hl =>
      obtain ⟨hij, hup⟩ := Books.up_of_set_down hj
      have hrel := Ledger.shutDowns_release
        (l := ((b.ledger.withLate late).unregister u).leak g.id)
        (hk.balanced.refs_ne_one hi hup hij)
      exact hrel.trans (hk.count hup)
  | leave hi =>
      rw [Table.get?_erase] at hj
      split at hj
      · cases hj
      · exact hk.count hj
  | settle => exact hk.count hj
  | addRef hl _ => cases hl
  | releaseRef hl => cases hl

namespace World
variable {w w₀ : World} {j : Nat} {y y' : Stage}

theorem shutDowns_books (w : World) : w.books.ledger.shutDowns = w.host.engine.shutDownCount :=
  Engine.count_milestones Request.isMilestone_shutDown

/-- After every run the engine is active exactly if the context has started it. -/
theorem Fresh.active_run (hw : w₀.Fresh) (as : List Action) :
    (w₀.run as).host.engine.active = (w₀.run as).host.context.started := by
  have hrun := run_preserves
    (P := fun w => w.Sound ∧ w.books.ledger.engine.active = w.books.ledger.started)
    (fun w a hx => ?_) as ⟨hw.sound, hw.active.trans hw.started.symm⟩
  · exact hrun.2
  · have hs := hx.1.apply a
    refine ⟨hs.sound, (hs.moves.preserves
      (P := fun b => b.Sound ∧ b.ledger.engine.active = b.ledger.started)
      (fun _ _ hm hb => ⟨hm.sound hb.1, hm.active hb.1 hb.2⟩) ⟨hx.1.books, hx.2⟩).2⟩

/-- A session that holds a lease is up. -/
theorem Sound.up_of_lease (hw : w.Sound) (hy : w.stage? j = some y)
    (hl : y.session.lease.isSome = true) : ∃ h t, y.session.wiring = .up h t := by
  have ha := hw.attached hy
  generalize hv : y.session.wiring = v at ha
  cases ha with
  | down d =>
      have hnone : y.session.lease = none := congrArg Wiring.lease hv
      rw [hnone] at hl
      cases hl
  | @up h t _ _ => exact ⟨h, t, rfl⟩

/-- A session that holds a lease keeps the engine running. -/
theorem Fresh.isActive_run (h₀ : Fresh w₀) {as : List Action}
    (ha : ∀ a ∈ as, a.isLeased = true) (hy : (w₀.run as).stage? j = some y)
    (hl : y.session.lease.isSome = true) : (w₀.run as).host.context.isActive = true := by
  have hw := h₀.orderly.run ha
  have hactive := h₀.active_run as
  generalize w₀.run as = w at hw hactive hy
  obtain ⟨h, t, hup⟩ := hw.sound.up_of_lease hy hl
  have hrefs : w.host.context.refs ≠ 0 := hw.balanced.refs_pos (hup ▸ wirings_of_stage hy)
  have hstarted := hw.host.started.mpr (Nat.pos_of_ne_zero hrefs)
  simp only [Context.isActive, Bool.and_eq_true, decide_eq_true_eq]
  exact ⟨⟨Nat.pos_of_ne_zero hrefs, hstarted⟩, hactive.trans hstarted⟩

/-- As long as a session holds its lease, nothing shuts the engine down. -/
theorem Orderly.shutDownCount_apply (hw : w.Orderly) {a : Action} (ha : a.isLeased = true)
    (hy : w.stage? j = some y) (hl : y.session.lease.isSome = true)
    (hy' : (w.apply a).stage? j = some y') (hsame : y'.session.wiring = y.session.wiring) :
    (w.apply a).host.engine.shutDownCount = w.host.engine.shutDownCount := by
  obtain ⟨h, t, hup⟩ := hw.sound.up_of_lease hy hl
  have hget : w.books.wirings.get? j = some (.up h t) := hup ▸ wirings_of_stage hy
  have hkept : w.books.Kept j h t w.books.ledger.shutDowns :=
    ⟨hw.sound.books, hw.balanced, ⟨true, (hw.sound.books.attached hget).of_up.2⟩, fun _ => rfl⟩
  have hmoves : Moves true w.books (w.apply a).books := ha ▸ (hw.sound.apply a).moves
  have hcount := (hmoves.preserves (fun _ _ => Move.kept) hkept).count
    ((hsame.trans hup) ▸ wirings_of_stage hy')
  rwa [shutDowns_books, shutDowns_books] at hcount

end World
end MediaHost
