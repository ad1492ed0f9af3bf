import MediaHost.Proofs.Invariant
import MediaHost.Proofs.Service

/-!
# Proofs — Standby

An engine that was not started is off: it does not run and passes no messages on.  Every run
keeps it so, whoever takes references and gives them back (`World.Standby.run`).
-/

namespace MediaHost

namespace Context
variable {c c' : Context}

/-- The engine is not started unless it is held, and runs exactly if it is started; otherwise it
passes no messages on. -/
structure Standby (c : Context) : Prop where
  started : c.refs = 0 → c.started = false
  active : c.engine.active = c.started
  silent : c.started = false → c.engine.forwardsLog = false

/-- Neither the references nor the mode of the engine changed. -/
structure Stays (c c' : Context) : Prop where
  refs : c'.refs = c.refs
  started : c'.started = c.started
  mode : c'.engine.mode = c.engine.mode

theorem Stays.refl (c : Context) : Stays c c := ⟨rfl, rfl, rfl⟩

/-- What touches neither the references nor the mode keeps an engine off that is. -/
theorem Standby.stays (hc : c.Standby) (hs : Stays c c') : c'.Standby := by
  obtain ⟨hr, hst, hm⟩ := hs
  have ha : c'.engine.active = c.engine.active := congrArg Prod.fst hm
  have hf : c'.engine.forwardsLog = c.engine.forwardsLog := congrArg Prod.snd hm
  exact ⟨fun h => hst.trans (hc.started (hr.symm.trans h)), by rw [ha, hst, hc.active],
    fun h => hf.trans (hc.silent (hst.symm.trans h))⟩

/-- The first reference starts the engine, or the start fails and it stays off. -/
theorem Standby.addRef (hc : c.Standby) : c.addRef.1.Standby := by
  simp only [Context.addRef, start, Engine.startUp]
  by_cases hr : c.refs = 0
  · have hs := hc.started hr
    by_cases hf : 0 < c.engine.failingStarts
    · simp only [hr, hf, if_true]
      exact ⟨fun _ => rfl, hc.active.trans hs, fun _ => hc.silent hs⟩
    · simp only [hr, hf, if_true, if_false]
      exact ⟨fun h => absurd h (Nat.succ_ne_zero _), rfl, fun h => by cases h⟩
  · simp only [hr, if_false]
    exact ⟨fun h => absurd h (Nat.succ_ne_zero _), hc.active, hc.silent⟩

/-- The last reference shuts the engine down. -/
theorem Standby.release (hc : c.Standby) : c.release.1.Standby := by
  simp only [Context.release]
  split
  · exact hc
  split
  · exact ⟨fun _ => rfl, rfl, fun _ => rfl⟩
  · next hlast =>
      refine ⟨fun h0 => ?_, hc.active, hc.silent⟩
      simpa [show c.refs - 1 = 0 from h0] using hlast

/-- A lease is given back once at most. -/
theorem Standby.releaseLease (hc : c.Standby) (l : Lease) : (l.release c).2.1.Standby := by
  simp only [Lease.release]
  split
  · exact hc
  · exact hc.release

end Context

namespace Host
variable {h a b : Host} {k : Nat}

theorem standby_addRef (hh : h.context.Standby) : h.addRef.context.Standby := by
  simp only [addRef, context_noteAll]
  exact hh.addRef

theorem standby_releaseRef (hh : h.context.Standby) : h.releaseRef.context.Standby := by
  simp only [releaseRef, context_noteAll]
  exact hh.release

/-- What is left of a lease is given back to the host. -/
theorem standby_releaseLease (hh : h.context.Standby) (l : Lease) :
    (h.releaseLease l).context.Standby := by
  simp only [releaseLease, context_noteAll]
  exact hh.releaseLease l

/-- Calls for a pipeline are not about the engine itself. -/
theorem Calls.stays (hc : Calls k a b) : Context.Stays a.context b.context :=
  ⟨hc.refs, hc.started, hc.mode⟩

end Host

namespace Stage
variable {s s' : Stage} {h : Handle}

/-- A command that keeps what is held and asks for its pipeline leaves the engine's mode alone. -/
theorem Keeps.stays (hk : Keeps s s') (ha : Asks s s') :
    Context.Stays s.host.context s'.host.context := by
  rcases ha with he | ⟨g, -, ha⟩
  · exact ⟨congrArg Ledger.refs hk.ledger, congrArg Ledger.started hk.ledger,
      congrArg Engine.mode he⟩
  · exact (hk.calls ha).stays

/-- Making a pipeline, or refusing to, leaves the mode alone. -/
theorem mode_create (e : Engine) (name : String) (callbacks : Callbacks) (userdata : Nat) :
    (e.create name callbacks userdata).1.mode = e.mode := by
  simp only [Engine.create]
  split <;> rfl

/-- However bringing up ends, the reference it took is held or was given back. -/
theorem standby_bringUp (hs : s.host.context.Standby) : s.bringUp.1.host.context.Standby := by
  by_cases hd : s.session.phase.isDestroyed = true
  · simp only [bringUp, hd, if_true]
    exact hs
  by_cases hl : s.session.lease.isSome = true
  · simp only [bringUp, hd, hl, if_true]
    exact hs
  rw [Bool.not_eq_true] at hd hl
  have hheld := Host.standby_addRef hs
  by_cases ha : s.host.addRef.context.isActive = true
  · rcases hc : s.bound.engine.create s.session.name .all s.host.addRef.arena.next with
      ⟨e, made⟩
    have hm := mode_create s.bound.engine s.session.name .all s.host.addRef.arena.next
    rw [hc] at hm
    have hmade : (s.bound.setEngine e).context.Standby := hheld.stays ⟨rfl, rfl, hm⟩
    cases made with
    | none =>
        rw [bringUp_refused hd hl ha hc]
        exact Host.standby_releaseLease
          (h := (s.bound.setEngine e).unregister s.host.addRef.arena.next) hmade {}
    | some id =>
        rw [bringUp_made hd hl ha hc]
        exact hmade
  · rw [bringUp_inactive hd hl (by simpa using ha)]
    exact Host.standby_releaseLease hheld {}

/-- Of what is left to give back, only the lease concerns the engine. -/
theorem standby_letGo (hs : s.host.context.Standby) : s.letGo.host.context.Standby := by
  have hqueue : s.releaseToken.leaveQueue.host.context = s.host.context :=
    (context_leaveQueue _).trans (context_releaseToken s)
  have heq : s.letGo = s.releaseToken.leaveQueue.releaseLease := rfl
  rw [heq]
  simp only [releaseLease]
  split
  · exact hqueue ▸ hs
  · exact Host.standby_releaseLease (h := s.releaseToken.leaveQueue.host) (hqueue ▸ hs) _

/-- However the wait came out, the lease is given back after it. -/
theorem standby_finish (h : Handle) (x : Stage × Wait) (hs : x.1.host.context.Standby) :
    (finish h x).host.context.Standby := by
  have htoken := context_releaseToken x.1
  obtain ⟨y, wait⟩ := x
  cases wait with
  | endless => exact hs
  | ended =>
      refine standby_letGo (s := y.releaseToken.onHost (·.tell (·.destroy h.id))) ?_
      exact hs.stays (htoken ▸ ⟨rfl, rfl, rfl⟩)
  | timedOut =>
      exact standby_letGo (s := y.releaseToken.onHost (·.note h.leakNotice)) (htoken ▸ hs)

/-- Destroying a session, running or not. -/
theorem standby_destroy (hs : s.host.context.Standby) : s.destroy.host.context.Standby := by
  by_cases hd : s.session.phase.isDestroyed = true
  · simpa only [destroy, hd, if_true] using hs
  rw [Bool.not_eq_true] at hd
  cases hp : s.session.pipeline with
  | none =>
      rw [destroy_of_none hd hp]
      exact standby_letGo (s := s.withdrawn) hs
  | some h =>
      by_cases he : s.isEncoding = true
      · rw [destroy_of_encoding hp he]
        exact standby_finish h _
          (hs.stays ((calls_ending h s).trans (calls_awaitEnd h _)).stays)
      · rw [destroy_of_idle hd hp (by simpa using he)]
        exact standby_finish h (s.withdrawn, .ended) hs

/-- Every command of a session. -/
theorem standby_exec (hs : s.host.context.Standby) (c : Command) :
    (c.exec s).1.host.context.Standby := by
  by_cases h₁ : c = .bringUp
  · rw [h₁]
    exact standby_bringUp hs
  by_cases h₂ : c = .start
  · rw [h₂]
    obtain ⟨hk, ha⟩ := start_spec s
    exact (standby_bringUp hs).stays (hk.stays ha)
  by_cases h₃ : c = .destroy
  · rw [h₃]
    exact standby_destroy hs
  exact hs.stays ((keeps_exec s c h₁ h₂ h₃).stays (asks_exec s c h₁ h₂ h₃))

end Stage

namespace World
variable {w w' w₀ : World}

/-- Queued work leaves the references and the mode of the engine alone. -/
theorem Effect.stays (he : Effect w w') : Context.Stays w.host.context w'.host.context := by
  cases he with
  | loopBack i =>
      simp only [World.loopBack]
      split
      · exact .refl _
      · split
        · split <;> exact ⟨rfl, rfl, rfl⟩
        · exact .refl _
  | stopFailed i =>
      simp only [World.stopFailed]
      split
      · exact .refl _
      · split
        · split <;> exact ⟨rfl, rfl, rfl⟩
        · exact .refl _
  | _ => exact ⟨rfl, rfl, rfl⟩

/-- A sequence of effects, such as a drain. -/
theorem Leads.standby (hl : Leads w w') (hw : w.host.context.Standby) :
    w'.host.context.Standby :=
  hl.preserves (P := fun x => x.host.context.Standby) (fun _ _ he hx => hx.stays he.stays) hw

/-- An operation of one session is one of its host. -/
theorem standby_act {α : Type} (hw : w.host.context.Standby) (i : Nat)
    {f : Stage → Stage × α}
    (hf : ∀ s : Stage, s.host.context.Standby → (f s).1.host.context.Standby) :
    (w.act i f).1.host.context.Standby := by
  simp only [act]
  split
  · exact hw
  · next s hs => exact hf s ((stage?_eq_some.mp hs).2.2 ▸ hw)

/-- Every step of a run. -/
theorem standby_apply (hw : w.host.context.Standby) (a : Action) :
    (w.apply a).host.context.Standby := by
  cases a with
  | newSession i q config image =>
      simp only [apply]
      split <;> exact hw
  | command i c => exact standby_act hw i fun s hs => Stage.standby_exec hs c
  | tick i =>
      refine (leads_advance w i).standby (standby_act hw i fun s hs => ?_)
      have hk : Stage.Keeps s (s.withLive Stage.pull).1 := Stage.Keeps.withLive fun h hl =>
        Stage.keeps_pull s (Stage.live_eq_ok.mp hl).2
      exact hs.stays (hk.stays (Stage.Asks.withLive fun h _ => Stage.asks_pull h s))
  | drop i =>
      simp only [apply, drop]
      split
      · exact hw
      · next s hs =>
          exact Stage.standby_destroy (s := s) ((stage?_eq_some.mp hs).2.2 ▸ hw)
  | drain q => exact (leads_drain w q).standby hw
  | callback c =>
      simpa only [apply, onHost, Host.context_signal] using hw
  | arrive n => simpa only [apply, onHost, Host.context_arrive] using hw
  | settle => simpa only [apply, onHost, Host.context_settle] using hw
  | addRef => exact Host.standby_addRef hw
  | releaseRef => exact Host.standby_releaseRef hw
  | _ => exact hw.stays ⟨rfl, rfl, rfl⟩

/-- Whoever holds the engine in a run, it is off as long as it is not started. -/
theorem Fresh.standby_run (hw : w₀.Fresh) (hf : w₀.host.engine.forwardsLog = false)
    (as : List Action) : (w₀.run as).host.context.Standby :=
  run_preserves (P := fun w => w.host.context.Standby) (fun _ a h => standby_apply h a) as
    ⟨fun _ => hw.started, hw.active.trans hw.started.symm, fun _ => hf⟩

end World
end MediaHost
