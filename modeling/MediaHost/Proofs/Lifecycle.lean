import MediaHost.Proofs.Books
import MediaHost.Proofs.Ending
import MediaHost.Proofs.Requests

/-!
# Proofs — Lifecycle

What bringing a session up and destroying it do to the books (`Turns`).  Both are written out by
their outcomes: a session comes up or gives back all it took, and a session that is destroyed
has its pipeline destroyed or given up.
-/

namespace MediaHost

namespace Host
variable {h : Host}

@[simp] theorem pipelines_releaseLease (l : Lease) :
    (h.releaseLease l).engine.pipelines = h.engine.pipelines := by
  simp only [releaseLease, Lease.release, Context.release]
  rw [engine_noteAll]
  by_cases hl : l.released = true
  · simp only [hl, if_true]
  · by_cases h0 : h.context.refs = 0
    · simp only [hl, h0, if_true]
      rfl
    · simp only [hl, h0]
      by_cases h1 : (decide (h.context.refs - 1 = 0) && h.context.started) = true
      · simp only [h1, if_true]
        rfl
      · simp only [h1]
        rfl

/-- When everything late arrived, nothing is late. -/
theorem ledger_settle : h.settle.ledger = h.ledger.withLate [] := by
  simp only [settle]
  rw [(same_signalAll _).ledger]
  rfl

@[simp] theorem pipelines_settle : h.settle.engine.pipelines = h.engine.pipelines := by
  simp only [settle]
  rw [(same_signalAll _).pipelines]
  rfl

end Host

namespace Stage
variable {s s' : Stage} {h : Handle} {t : Nat}

/-- From `s` to `s'` the books moved, no pipeline changed but the session's own and a new one,
the session took no other, and it stayed coupled to its pipeline. -/
structure Turns (s s' : Stage) : Prop where
  index : s'.index = s.index
  moves : ∀ {ws : Table Wiring}, ws.get? s.index = some s.session.wiring →
    Moves true ⟨s.host.ledger, ws⟩ ⟨s'.host.ledger, ws.set s.index s'.session.wiring⟩
  own : ∀ h, s'.session.pipeline = some h →
    s.session.pipeline = some h ∨ h.id = s.host.engine.nextId
  others : ∀ k, (∀ h, s.session.pipeline = some h → h.id ≠ k) → k ≠ s.host.engine.nextId →
    s'.host.engine.pipelines.get? k = s.host.engine.pipelines.get? k
  coupled : s.Coupled → s'.Coupled

/-- What keeps the wiring is a turn of it. -/
theorem Keeps.turns (hk : Keeps s s') : Turns s s' where
  index := hk.index
  moves hw := by
    rw [hk.wiring, hk.ledger, Table.set_self hw]
    exact .refl _
  own h hp := .inl (by rwa [pipeline_of_wiring hk.wiring] at hp)
  others k h₁ _ := hk.others k h₁
  coupled := hk.coupled

theorem Turns.thenKeeps {a b c : Stage} (h₁ : Turns a b) (h₂ : Keeps b c) : Turns a c where
  index := h₂.index.trans h₁.index
  moves hw := by
    rw [h₂.wiring, h₂.ledger]
    exact h₁.moves hw
  own h hp := h₁.own h (by rwa [pipeline_of_wiring h₂.wiring] at hp)
  others k ho hk := by
    refine (h₂.others k fun h hp => ?_).trans (h₁.others k ho hk)
    rcases h₁.own h hp with ha | hn
    · exact ho h ha
    · exact fun he => hk (he.symm.trans hn)
  coupled hc := h₂.coupled (h₁.coupled hc)

/-- A session that is not up is coupled to nothing. -/
theorem coupled_of_down (hp : s.session.pipeline = none) : s.Coupled := by
  intro h p hh
  rw [hp] at hh
  cases hh

/-- A session without a lease is not up. -/
theorem wiring_of_lease (ha : Books.Attached s.host.ledger s.index s.session.wiring)
    (hl : s.session.lease.isSome = false) :
    s.session.wiring = .down s.session.phase.isDestroyed := by
  generalize hv : s.session.wiring = v at ha
  cases ha with
  | down d =>
      have hd : s.session.phase.isDestroyed = d := congrArg Wiring.destroyed hv
      rw [hd]
  | up _ _ =>
      have hs : s.session.lease = some {} := congrArg Wiring.lease hv
      rw [hs] at hl
      cases hl

/-! ### Bringing a session up -/

/-- A session that does not come up keeps what it has; so does the host. -/
theorem turns_of_failed (hd : s.session.pipeline = none) (hi : s'.index = s.index)
    (hs : s'.session = s.session) (hp : s'.host.engine.pipelines = s.host.engine.pipelines)
    (hm : ∀ {ws : Table Wiring}, Move true ⟨s.host.ledger, ws⟩ ⟨s'.host.ledger, ws⟩) :
    Turns s s' where
  index := hi
  moves hw := by
    rw [hs, Table.set_self hw]
    exact .one hm
  own h hp := .inl (by rwa [hs] at hp)
  others k _ _ := by rw [hp]
  coupled _ := coupled_of_down (by rwa [hs])

/-- A pipeline as it is made. -/
theorem pipelines_create {e e' : Engine} {name : String} {callbacks : Callbacks}
    {userdata id : Nat} (h : e.create name callbacks userdata = (e', some id)) :
    id = e.nextId ∧ e'.pipelines = e.pipelines.set e.nextId
      { name := name, userdata := userdata, callbacks := callbacks, duration := e.duration } := by
  by_cases hr : e.refuseNextCreate
  · simp [Engine.create, Engine.asked, hr] at h
  · simp only [Engine.create, Engine.asked, hr] at h
    cases h
    exact ⟨rfl, rfl⟩

section
variable (hd : s.session.phase.isDestroyed = false) (hl : s.session.lease.isSome = false)

/-- The host once a reference and the number `t` are taken for a session. -/
def bound (s : Stage) : Host := s.host.addRef.register s.session.queue (.session s.index)

include hd hl

/-- An engine that does not start gets its reference back. -/
theorem bringUp_inactive (ha : s.host.addRef.context.isActive = false) :
    s.bringUp.1 = { s with host := s.host.addRef.releaseLease {} } := by
  simp only [bringUp, hd, hl, onHost, ha]
  rfl

/-- An engine that refuses the pipeline gets back the number and the reference. -/
theorem bringUp_refused {e : Engine} (ha : s.host.addRef.context.isActive = true)
    (hc : s.bound.engine.create s.session.name .all s.host.addRef.arena.next = (e, none)) :
    s.bringUp.1 =
      { s with
        host := ((s.bound.setEngine e).unregister s.host.addRef.arena.next).releaseLease {} } := by
  change s.host.addRef.engine.create _ _ _ = _ at hc
  simp only [bringUp, hd, hl, onHost, Handle.create, Arena.register, ha, hc]
  rfl

/-- An engine that makes the pipeline leaves the session with all three. -/
theorem bringUp_made {e : Engine} {id : Nat} (ha : s.host.addRef.context.isActive = true)
    (hc : s.bound.engine.create s.session.name .all s.host.addRef.arena.next = (e, some id)) :
    s.bringUp.1 =
      { s with
        session :=
          { s.session with
            pipeline := some ⟨s.session.name, id⟩
            status := {}
            lease := some {}
            token := some s.host.addRef.arena.next }
        host := s.bound.setEngine e } := by
  change s.host.addRef.engine.create _ _ _ = _ at hc
  simp only [bringUp, hd, hl, onHost, Handle.create, Arena.register, ha, hc]
  rfl

end

/-- The books once a reference and a number are taken. -/
theorem ledger_bound (s : Stage) : ∃ ok, s.host.addRef.ledger = s.host.ledger.addRef ok ∧
    s.host.addRef.arena.next = s.host.ledger.nextToken ∧
    s.bound.ledger = (s.host.ledger.addRef ok).register (.session s.index) ∧
    s.bound.engine.inventory.nextId = s.host.engine.nextId := by
  obtain ⟨ok, hok⟩ := Host.ledger_addRef (h := s.host)
  have ha := Ledger.alike_addRef (l := s.host.ledger) ok
  rw [← hok] at ha
  exact ⟨ok, hok, ha.nextToken, by rw [bound, Host.ledger_register, hok], ha.nextId⟩

section
variable (hd : s.session.phase.isDestroyed = false) (hl : s.session.lease.isSome = false)
include hd hl

/-- A start that failed is undone in the books. -/
theorem turns_inactive (hn : s.session.pipeline = none)
    (ha : s.host.addRef.context.isActive = false) : Turns s s.bringUp.1 := by
  obtain ⟨ok, hok, -⟩ := ledger_bound s
  rw [bringUp_inactive hd hl ha]
  refine turns_of_failed hn rfl rfl ?_ fun {ws} => ?_
  · exact (Host.pipelines_releaseLease _).trans Host.pipelines_addRef
  · simp only [Host.ledger_releaseLease (l := {}) rfl, hok]
    exact .fail ok

/-- So is a pipeline that was refused. -/
theorem turns_refused (hn : s.session.pipeline = none) {e : Engine}
    (ha : s.host.addRef.context.isActive = true)
    (hc : s.bound.engine.create s.session.name .all s.host.addRef.arena.next = (e, none)) :
    Turns s s.bringUp.1 := by
  obtain ⟨ok, -, hnext, hbound, -⟩ := ledger_bound s
  obtain ⟨hi, hp⟩ := Engine.inventory_create_refused hc
  rw [bringUp_refused hd hl ha hc]
  refine turns_of_failed hn rfl rfl ?_ fun {ws} => ?_
  · simp only [Host.pipelines_releaseLease, Host.engine_unregister, Host.engine_setEngine, hp]
    exact Host.pipelines_addRef
  · have hledger : ((s.bound.setEngine e).unregister s.host.addRef.arena.next).ledger =
        ((s.host.ledger.addRef ok).register (.session s.index)).refuse.unregister
          s.host.ledger.nextToken := by
      rw [Host.ledger_unregister, Host.ledger_setEngine, hi, ← hbound, hnext]
      rfl
    simp only [Host.ledger_releaseLease (l := {}) rfl, hledger]
    exact .refuse ok _

/-- A pipeline that was made is in the books, with its number and its lease. -/
theorem turns_made (hw : s.session.wiring = .down false) {e : Engine} {id : Nat}
    (ha : s.host.addRef.context.isActive = true)
    (hc : s.bound.engine.create s.session.name .all s.host.addRef.arena.next = (e, some id)) :
    Turns s s.bringUp.1 := by
  obtain ⟨ok, -, hnext, hbound, hnid⟩ := ledger_bound s
  obtain ⟨hid, hi⟩ := Engine.inventory_create hc
  obtain ⟨-, hp⟩ := pipelines_create hc
  rw [hnid] at hid
  rw [bringUp_made hd hl ha hc]
  have hnew : ∀ k, e.pipelines.get? k =
      if s.host.engine.nextId = k then
        some
          { name := s.session.name, userdata := s.host.addRef.arena.next, callbacks := .all,
            duration := s.bound.engine.duration }
      else s.host.engine.pipelines.get? k := by
    intro k
    have hnid' : s.bound.engine.nextId = s.host.engine.nextId := hnid
    have hold : s.bound.engine.pipelines = s.host.engine.pipelines := Host.pipelines_addRef
    rw [hp, Table.get?_set, hnid', hold]
  refine ⟨rfl, fun {ws} hws => ?_, fun h hh => ?_, fun k _ hk => ?_, fun _ => ?_⟩
  · have hledger : (s.bound.setEngine e).ledger =
        ((s.host.ledger.addRef ok).register (.session s.index)).create
          s.host.ledger.nextToken := by
      rw [Host.ledger_setEngine, hi, ← hbound, hnext]
      rfl
    rw [hw] at hws
    simp only [hledger, hid, hnext]
    exact .one (.bringUp (b := ⟨s.host.ledger, ws⟩) hws ok s.session.name)
  · cases hh
    exact .inr hid
  · exact (hnew k).trans (if_neg (Ne.symm hk))
  · -- the pipeline is as it was made, and so is the status
    intro h p hh hget
    cases hh
    rw [hid] at hget
    cases (hnew _).symm.trans hget |>.symm.trans (if_pos rfl)
    exact .of_idle (by simp) rfl rfl

end

/-- Bringing a session up ends in one of these three ways. -/
theorem turns_bringUp (ha : Books.Attached s.host.ledger s.index s.session.wiring) :
    Turns s s.bringUp.1 := by
  by_cases hd : s.session.phase.isDestroyed = true
  · simp only [bringUp, hd, if_true]
    exact (Keeps.refl s).turns
  by_cases hl : s.session.lease.isSome = true
  · simp only [bringUp, hd, hl, if_true]
    exact (Keeps.refl s).turns
  rw [Bool.not_eq_true] at hd hl
  have hdown := wiring_of_lease ha hl
  rw [hd] at hdown
  have hnone : s.session.pipeline = none := congrArg Wiring.pipeline hdown
  by_cases hact : s.host.addRef.context.isActive = true
  · rcases hc : s.bound.engine.create s.session.name .all s.host.addRef.arena.next with
      ⟨e, _ | id⟩
    · exact turns_refused hd hl hnone hact hc
    · exact turns_made hd hl hdown hact hc
  · exact turns_inactive hd hl hnone (by simpa using hact)

theorem turns_start (ha : Books.Attached s.host.ledger s.index s.session.wiring) :
    Turns s s.start.1 :=
  (turns_bringUp ha).thenKeeps (start_spec s).1

/-! ### Destroying a session -/

/-- A session that is encoding, and whose media plays or is paused. -/
def isEncoding (s : Stage) : Bool :=
  decide (s.session.status.direction = some .encoding) && s.session.phase.isActive

/-- The session counts as destroyed, and takes no more calls. -/
def withdrawn (s : Stage) : Stage :=
  (s.setPhase .destroyed).modify fun x => { x with pipeline := none }

/-- A paused encoder plays on, so that it can be ended. -/
def ending (h : Handle) (s : Stage) : Stage :=
  if s.session.phase = .paused then s.withdrawn.onHost (·.tell (·.play h.id)) else s.withdrawn

/-- What is left to do once the wait for the end of the stream is over. -/
def finish (h : Handle) (x : Stage × Wait) : Stage :=
  match x.2 with
  | .endless => x.1
  | .ended => (x.1.releaseToken.onHost (·.tell (·.destroy h.id))).letGo
  | .timedOut => (x.1.releaseToken.onHost (·.note h.leakNotice)).letGo

/-- Without a pipeline only the queue and the lease are left to give up. -/
theorem destroy_of_none (hd : s.session.phase.isDestroyed = false)
    (hp : s.session.pipeline = none) : s.destroy = s.withdrawn.letGo := by
  simp only [destroy, hd, hp]
  rfl

/-- A pipeline that encodes nothing is destroyed without a wait. -/
theorem destroy_of_idle (hd : s.session.phase.isDestroyed = false)
    (hp : s.session.pipeline = some h) (he : s.isEncoding = false) :
    s.destroy = finish h (s.withdrawn, .ended) := by
  simp only [isEncoding, Session.phase] at he
  simp only [destroy, hd, hp, he]
  rfl

/-- An encoder is asked for its end first, and the wait decides. -/
theorem destroy_of_encoding (hp : s.session.pipeline = some h) (he : s.isEncoding = true) :
    s.destroy = finish h (awaitEnd h (s.ending h)) := by
  obtain ⟨hdir, hact⟩ := Bool.and_eq_true_iff.mp he
  rw [decide_eq_true_eq] at hdir
  simp only [ending]
  cases hph : s.session.phase with
  | playing =>
      have hst : s.session.status.phase = .playing := hph
      simp only [destroy, hph, hp, hdir, hst]
      rfl
  | paused =>
      have hst : s.session.status.phase = .paused := hph
      simp only [destroy, hph, hp, hdir, hst]
      rfl
  | _ => rw [hph] at hact; cases hact

/-- The session and its host after a number or the lease is given back. -/
structure Returns (s : Stage) (v : Wiring) (l : Ledger) (s' : Stage) : Prop where
  index : s'.index = s.index
  wiring : s'.session.wiring = v
  ledger : s'.host.ledger = l
  pipelines : s'.host.engine.pipelines = s.host.engine.pipelines

/-- The number goes back to the arena. -/
theorem returns_releaseToken (ht : s.session.token = some t) :
    Returns s { s.session.wiring with token := none } (s.host.ledger.unregister t)
      s.releaseToken := by
  simp only [releaseToken]
  simp only [ht]
  exact ⟨rfl, rfl, Host.ledger_unregister t, rfl⟩

/-- A session closes the queue it has to itself. -/
def leaveQueue (s : Stage) : Stage :=
  if s.session.ownsQueue then s.onHost (·.modifyQueue s.session.queue (·.close)) else s

/-- Without a number, letting go is leaving the queue and returning the lease. -/
theorem letGo_eq (ht : s.session.token = none) : s.letGo = s.leaveQueue.releaseLease := by
  have hr : s.releaseToken = s := by simp only [releaseToken, ht]
  simp only [letGo]
  rw [hr]
  rfl

theorem leaveQueue_spec (s : Stage) :
    s.leaveQueue.session = s.session ∧ Same s s.leaveQueue := by
  simp only [leaveQueue]
  split
  · exact ⟨rfl, rfl, rfl, Host.same_modifyQueue _ _⟩
  · exact ⟨rfl, .refl s⟩

/-- The lease goes back to the context. -/
theorem returns_letGo (ht : s.session.token = none) (hl : s.session.lease = some {}) :
    Returns s { s.session.wiring with lease := none } s.host.ledger.release s.letGo := by
  obtain ⟨hs, hq⟩ := leaveQueue_spec s
  rw [letGo_eq ht]
  simp only [releaseLease, hs, hl]
  refine ⟨hq.index, ?_, ?_, ?_⟩
  · rw [← hq.wiring]
    rfl
  · rw [← hq.host.ledger]
    exact Host.ledger_releaseLease rfl
  · rw [← hq.host.pipelines]
    exact Host.pipelines_releaseLease _

/-- A session that was never up has nothing to give back. -/
theorem same_letGo (ht : s.session.token = none) (hl : s.session.lease = none) :
    Same s s.letGo := by
  obtain ⟨hs, hq⟩ := leaveQueue_spec s
  rw [letGo_eq ht]
  simpa only [releaseLease, hs, hl] using hq

/-- A session that was up, and has withdrawn. -/
structure Withdrawn (t : Nat) (s : Stage) : Prop where
  token : s.session.token = some t
  lease : s.session.lease = some {}
  pipeline : s.session.pipeline = none
  destroyed : s.session.phase.isDestroyed = true

/-- From `s` to `s'` the session gave back all it held, the pipeline by `f`; `late` is on its way
since. -/
structure Lowers (h : Handle) (t : Nat) (f : Ledger → Ledger) (late : List Callback)
    (s s' : Stage) : Prop where
  index : s'.index = s.index
  wiring : s'.session.wiring = .down true
  ledger : s'.host.ledger = (f ((s.host.ledger.withLate late).unregister t)).release
  others : ∀ k, h.id ≠ k →
    s'.host.engine.pipelines.get? k = s.host.engine.pipelines.get? k

section
variable {a : Stage} {late : List Callback} (hs : s.Withdrawn t) (hi : s.index = a.index)
  (hl : s.host.ledger = a.host.ledger.withLate late)
  (ho : ∀ k, h.id ≠ k →
    s.host.engine.pipelines.get? k = a.host.engine.pipelines.get? k)
include hs hi hl ho

/-- What happens to the pipeline between the number and the lease. -/
theorem lowers_letGo {f : Ledger → Ledger} (g : Host → Host)
    (hg : (g s.releaseToken.host).ledger = f s.releaseToken.host.ledger)
    (hp : ∀ k, h.id ≠ k → (g s.releaseToken.host).engine.pipelines.get? k =
      s.releaseToken.host.engine.pipelines.get? k) :
    Lowers h t f late a (s.releaseToken.onHost g).letGo := by
  have hr := returns_releaseToken hs.token
  have htok : s.releaseToken.session.token = none := congrArg Wiring.token hr.wiring
  have hlease : s.releaseToken.session.lease = some {} :=
    (congrArg Wiring.lease hr.wiring).trans hs.lease
  have hlet := returns_letGo (s := s.releaseToken.onHost g) htok hlease
  refine ⟨(hlet.index.trans hr.index).trans hi, ?_, ?_, fun k hk => ?_⟩
  · refine hlet.wiring.trans ?_
    change { s.releaseToken.session.wiring with lease := none } = _
    rw [hr.wiring]
    simp only [Session.wiring, hs.pipeline, hs.destroyed, Wiring.down]
  · rw [hlet.ledger, ← hl, ← hr.ledger, ← hg]
    rfl
  · rw [hlet.pipelines, ← ho k hk, ← hr.pipelines]
    exact hp k hk

/-- After an end in time the pipeline is destroyed. -/
theorem lowers_ended : Lowers h t (·.destroy h.id) late a (finish h (s, .ended)) := by
  refine lowers_letGo hs hi hl ho (·.tell (·.destroy h.id)) ?_ fun k hk => ?_
  · change (s.releaseToken.host.setEngine _).ledger = _
    rw [Host.ledger_setEngine, Engine.inventory_destroy]
    rfl
  · change (s.releaseToken.host.engine.pipelines.erase h.id).get? k = _
    rw [Table.get?_erase, if_neg hk]

/-- After a timeout it is leaked. -/
theorem lowers_timedOut : Lowers h t (·.leak h.id) late a (finish h (s, .timedOut)) := by
  refine lowers_letGo hs hi hl ho (·.note h.leakNotice) ?_ fun k _ => rfl
  rw [Host.ledger_note]
  rfl

end

theorem endDelay_ending (h : Handle) (s : Stage) :
    (s.ending h).host.engine.endDelay = s.host.engine.endDelay := by
  simp only [ending]
  split <;> rfl

theorem endsAtOnce_ending (h : Handle) (s : Stage) :
    (s.ending h).host.engine.endsAtOnce = s.host.engine.endsAtOnce := by
  simp only [ending]
  split <;> rfl

theorem config_ending (h : Handle) (s : Stage) :
    (s.ending h).session.config = s.session.config := by
  simp only [ending]
  split <;> rfl

theorem givesUp_ending (h : Handle) (s : Stage) : (s.ending h).givesUp = s.givesUp := by
  simp only [givesUp, config_ending, endDelay_ending]

section
variable (hw : s.session.wiring = .up h t)
include hw

/-- What is wired up has everything a destroy gives back. -/
theorem live_of_up : s.session.phase.isDestroyed = false ∧ s.session.pipeline = some h ∧
    s.session.token = some t ∧ s.session.lease = some {} :=
  ⟨congrArg Wiring.destroyed hw, congrArg Wiring.pipeline hw, congrArg Wiring.token hw,
    congrArg Wiring.lease hw⟩

theorem withdrawn_withdrawn : s.withdrawn.Withdrawn t := by
  obtain ⟨-, -, ht, hl⟩ := live_of_up hw
  exact ⟨ht, hl, rfl, rfl⟩

/-- A session that is not encoding waits for nothing. -/
theorem lowers_idle (he : s.isEncoding = false) :
    Lowers h t (·.destroy h.id) s.host.late s s.destroy := by
  obtain ⟨hd, hp, -, -⟩ := live_of_up hw
  rw [destroy_of_idle hd hp he]
  exact lowers_ended (withdrawn_withdrawn hw) rfl rfl fun _ _ => rfl

/-- Asking for the end touches nothing but the session's own pipeline. -/
theorem ending_spec : (s.ending h).index = s.index ∧ (s.ending h).Withdrawn t ∧
    (s.ending h).session = s.withdrawn.session ∧ (s.ending h).host.arena = s.host.arena ∧
    (s.ending h).host.ledger = s.host.ledger ∧
    ∀ k, h.id ≠ k →
      (s.ending h).host.engine.pipelines.get? k = s.host.engine.pipelines.get? k := by
  have hwd := withdrawn_withdrawn hw
  simp only [ending]
  split
  · have hp := works_tell (s := s.withdrawn) (h := h) (·.play h.id) Engine.alters_play
    exact ⟨rfl, ⟨hwd.token, hwd.lease, rfl, rfl⟩, rfl, rfl, hp.host.ledger, fun k hk =>
      hp.host.other hk⟩
  · exact ⟨rfl, hwd, rfl, rfl, rfl, fun _ _ => rfl⟩

theorem isOver_ending : (s.ending h).isOver = s.host.isOver t := by
  obtain ⟨-, hwd, -, ha, -⟩ := ending_spec hw
  rw [isOver_eq hwd.token]
  simp only [Host.isOver]
  rw [ha]

end

/-- What a session that is up has: its pipeline, and its binding. -/
theorem attached_up (hw : s.session.wiring = .up h t)
    (ha : Books.Attached s.host.ledger s.index s.session.wiring) :
    (∃ p, s.host.engine.pipelines.get? h.id = some p ∧ p.wire = (t, .all)) ∧
      (s.host.arena.resolve t).isSome = true := by
  rw [hw] at ha
  obtain ⟨hp, hb⟩ := ha.of_up
  constructor
  · change (s.host.engine.pipelines.map Pipeline.wire).get? h.id = _ at hp
    rw [Table.get?_map] at hp
    exact Option.map_eq_some_iff.mp hp
  · rw [Host.isSome_resolve, hb]
    rfl

/-- The end of every encoder that plays or is paused can be awaited. -/
theorem encodes_ending (hw : s.session.wiring = .up h t)
    (ha : Books.Attached s.host.ledger s.index s.session.wiring) (hc : s.Coupled)
    (he : s.isEncoding = true) : (s.ending h).Encodes h t := by
  obtain ⟨-, hwd, -, harena, -⟩ := ending_spec hw
  obtain ⟨⟨p, hp, hpw⟩, hr⟩ := attached_up hw ha
  obtain ⟨hd, hact⟩ := Bool.and_eq_true_iff.mp he
  rw [decide_eq_true_eq] at hd
  have hcp := hc h p (live_of_up hw).2.1 hp
  have hconf : s.session.status.phase.isConfigured = true := by
    exact Phase.isConfigured_of_isActive hact
  obtain ⟨hdir, hload, hend⟩ := hcp.encoder hd hconf
  refine ⟨hwd.token, by rwa [harena], ?_⟩
  simp only [ending]
  split
  · -- a paused encoder was asked to play, and does so at once
    next hpa =>
      have hplay := works_tell (s := s.withdrawn) (h := h) (·.play h.id) Engine.alters_play
      refine ⟨p.play, hplay.host.at hp, hpw, hload, ?_, hend⟩
      simp [Pipeline.play, hdir, hload]
  · next hpa =>
      have hph : s.session.status.phase = .playing := by
        exact (Phase.eq_of_isActive hact).resolve_right hpa
      exact ⟨p, hp, hpw, hload, hcp.running hd hph, hend⟩

section
variable (hw : s.session.wiring = .up h t)
  (ha : Books.Attached s.host.ledger s.index s.session.wiring) (hc : s.Coupled)
  (he : s.isEncoding = true)
include hw ha hc he

/-- An encoder whose binding was told of an end or an error before is not waited for. -/
theorem lowers_at_once
    (ho : (s.host.isOver t || s.host.engine.endsAtOnce) = true) :
    Lowers h t (·.destroy h.id)
      (if s.host.engine.endsAtOnce then s.host.late else s.host.late ++ [⟨t, .finished⟩])
      s s.destroy := by
  have hen := encodes_ending hw ha hc he
  obtain ⟨hi, hwd, -, -, hl, hoth⟩ := ending_spec hw
  have hlate : (s.ending h).host.late = s.host.late := congrArg Ledger.late hl
  rw [destroy_of_encoding (live_of_up hw).2.1 he,
    awaitEnd_at_once hen (by rwa [isOver_ending hw, endsAtOnce_ending])]
  refine lowers_ended (s := (s.ending h).asked h) ⟨hwd.token, hwd.lease, hwd.pipeline,
    hwd.destroyed⟩ hi ?_ fun k hk => (pipelines_asked hen hk).trans (hoth k hk)
  rw [ledger_asked hen, endsAtOnce_ending, hl, hlate]

/-- The report of the end arrives, and with it everything late. -/
theorem lowers_arrives
    (ho : (s.host.isOver t || s.host.engine.endsAtOnce) = false)
    (hg : s.givesUp = false) : Lowers h t (·.destroy h.id) [] s s.destroy := by
  have hen := encodes_ending hw ha hc he
  obtain ⟨hi, hwd, -, -, hl, hoth⟩ := ending_spec hw
  rw [destroy_of_encoding (live_of_up hw).2.1 he,
    awaitEnd_arrives hen (by rwa [isOver_ending hw, endsAtOnce_ending]) (by rwa [givesUp_ending])]
  refine lowers_ended (s := ((s.ending h).asked h).onHost (·.settle)) ⟨hwd.token, hwd.lease,
    hwd.pipeline, hwd.destroyed⟩ hi ?_ fun k hk => ?_
  · change ((s.ending h).asked h).host.settle.ledger = _
    rw [Host.ledger_settle, ledger_asked hen, hl]
    rfl
  · change ((s.ending h).asked h).host.settle.engine.pipelines.get? k = _
    rw [Host.pipelines_settle]
    exact (pipelines_asked hen hk).trans (hoth k hk)

/-- The timeout comes first, and the pipeline is given up. -/
theorem lowers_givesUp
    (ho : (s.host.isOver t || s.host.engine.endsAtOnce) = false)
    (hg : s.givesUp = true) :
    Lowers h t (·.leak h.id) (s.host.late ++ [⟨t, .finished⟩]) s s.destroy := by
  have hen := encodes_ending hw ha hc he
  obtain ⟨hi, hwd, -, -, hl, hoth⟩ := ending_spec hw
  have hlate : (s.ending h).host.late = s.host.late := congrArg Ledger.late hl
  have hd := (Bool.or_eq_false_iff.mp ho).2
  obtain ⟨limit, hwait⟩ := awaitEnd_givesUp hen (by rwa [isOver_ending hw, endsAtOnce_ending])
    (by rwa [givesUp_ending])
  rw [destroy_of_encoding (live_of_up hw).2.1 he, hwait]
  refine lowers_timedOut (s := (((s.ending h).asked h).timeOut limit).1) ⟨hwd.token, hwd.lease,
    hwd.pipeline, hwd.destroyed⟩ hi ?_ fun k hk => (pipelines_asked hen hk).trans (hoth k hk)
  change (((s.ending h).asked h).host.note _).ledger = _
  rw [(Host.same_note rfl).ledger, ledger_asked hen, endsAtOnce_ending, hl, hlate, hd]
  rfl

end

/-- What destroying a session comes to. -/
inductive Destroys (s s' : Stage) : Prop
  /-- It was destroyed before. -/
  | stays (hv : s.session.wiring = .down true) (hs : s' = s)
  /-- It was never up. -/
  | retires (hv : s.session.wiring = .down false) (hv' : s'.session.wiring = .down true)
      (hi : s'.index = s.index) (hh : Host.Same s.host s'.host)
  | lowers {h : Handle} {t : Nat} {f : Ledger → Ledger} {late : List Callback}
      (hv : s.session.wiring = .up h t) (hl : Lowers h t f late s s')
      (hlate : ∀ c ∈ late, c ∈ s.host.ledger.late ∨ c.userdata = t)
      (hf : f = (·.destroy h.id) ∨ f = (·.leak h.id))

/-- A session that is down has nothing to return. -/
theorem destroys_of_down (hv : s.session.wiring = .down false) : Destroys s s.destroy := by
  have hd : s.session.phase.isDestroyed = false := congrArg Wiring.destroyed hv
  have ht : s.session.token = none := congrArg Wiring.token hv
  have hl : s.session.lease = none := congrArg Wiring.lease hv
  rw [destroy_of_none hd (congrArg Wiring.pipeline hv)]
  have hg : Same s.withdrawn s.withdrawn.letGo := same_letGo ht hl
  refine .retires hv ?_ hg.index ⟨hg.host.ledger, hg.host.pipelines⟩
  rw [hg.wiring]
  simp only [Session.wiring, withdrawn, modify, setPhase, ht, hl]
  rfl

/-- A session that is up returns its number and its lease, and its pipeline is destroyed or
leaked. -/
theorem destroys_of_up (hv : s.session.wiring = .up h t)
    (ha : Books.Attached s.host.ledger s.index s.session.wiring) (hc : s.Coupled) :
    Destroys s s.destroy := by
  have hold : ∀ c ∈ s.host.late, c ∈ s.host.ledger.late ∨ c.userdata = t := fun c hc => .inl hc
  have hnew : ∀ c ∈ s.host.late ++ [⟨t, .finished⟩],
      c ∈ s.host.ledger.late ∨ c.userdata = t := by
    intro c hm
    rcases List.mem_append.mp hm with h₁ | h₁
    · exact .inl h₁
    · rw [List.mem_singleton.mp h₁]
      exact .inr rfl
  by_cases he : s.isEncoding = true
  · by_cases ho : (s.host.isOver t || s.host.engine.endsAtOnce) = true
    · refine .lowers hv (lowers_at_once hv ha hc he ho) ?_ (.inl rfl)
      split
      · exact hold
      · exact hnew
    · rw [Bool.not_eq_true] at ho
      by_cases hg : s.givesUp = true
      · exact .lowers hv (lowers_givesUp hv ha hc he ho hg) hnew (.inr rfl)
      · rw [Bool.not_eq_true] at hg
        exact .lowers hv (lowers_arrives hv ha hc he ho hg) (by simp) (.inl rfl)
  · rw [Bool.not_eq_true] at he
    exact .lowers hv (lowers_idle hv he) hold (.inl rfl)

/-- A destroy leaves the books in order, whatever the session was wired to. -/
theorem destroys_destroy (ha : Books.Attached s.host.ledger s.index s.session.wiring)
    (hc : s.Coupled) : Destroys s s.destroy := by
  generalize hv : s.session.wiring = v
  rw [hv] at ha
  cases ha with
  | up hp hb => exact destroys_of_up hv (hv ▸ .up hp hb) hc
  | down d =>
      cases d with
      | false => exact destroys_of_down hv
      | true =>
          have hd : s.session.phase.isDestroyed = true := congrArg Wiring.destroyed hv
          exact .stays hv (by simp only [destroy, hd, if_true])

/-- It leaves nothing wired. -/
theorem Destroys.wiring (hd : Destroys s s') : s'.session.wiring = .down true := by
  cases hd with
  | stays hv hs => rwa [hs]
  | retires _ hv' _ _ => exact hv'
  | lowers _ hl _ _ => exact hl.wiring

/-- Destroying a session is one move, or none if it was destroyed before. -/
theorem Destroys.turns (hd : Destroys s s') : Turns s s' := by
  have hnone : s'.session.pipeline = none := congrArg Wiring.pipeline hd.wiring
  have hown : ∀ h, s'.session.pipeline = some h →
      s.session.pipeline = some h ∨ h.id = s.host.engine.nextId := by
    intro h hp
    rw [hnone] at hp
    cases hp
  cases hd with
  | stays hv hs =>
      rw [hs]
      exact (Keeps.refl s).turns
  | retires hv hv' hi hh =>
      refine ⟨hi, fun {ws} hws => ?_, hown, fun k _ _ => ?_, fun _ => coupled_of_down hnone⟩
      · rw [hv', hh.ledger]
        exact .one (.retire (b := ⟨s.host.ledger, ws⟩) (hv ▸ hws))
      · rw [hh.pipelines]
  | @lowers h t f late hv hl hlate hf =>
      refine ⟨hl.index, fun {ws} hws => ?_, hown, fun k hk _ => ?_, fun _ =>
        coupled_of_down hnone⟩
      · rw [hv] at hws
        rw [hl.wiring, hl.ledger]
        rcases hf with rfl | rfl
        · exact .one (.destroy (b := ⟨s.host.ledger, ws⟩) hws hlate)
        · exact .one (.leak (b := ⟨s.host.ledger, ws⟩) hws hlate)
      · exact hl.others k (hk h (live_of_up hv).2.1)

/-- Every command, one by one. -/
theorem turns_exec (ha : Books.Attached s.host.ledger s.index s.session.wiring) (hc : s.Coupled)
    (c : Command) : Turns s (c.exec s).1 := by
  by_cases h₁ : c = .bringUp
  · rw [h₁]
    exact turns_bringUp ha
  by_cases h₂ : c = .start
  · rw [h₂]
    exact turns_start ha
  by_cases h₃ : c = .destroy
  · rw [h₃]
    exact (destroys_destroy ha hc).turns
  exact (keeps_exec s c h₁ h₂ h₃).turns

end Stage
end MediaHost
