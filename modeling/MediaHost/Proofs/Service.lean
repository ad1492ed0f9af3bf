import MediaHost.Proofs.Lifecycle

/-!
# Proofs — Service

What a session may ask of the engine, and when.  Whatever a session does is a sequence of taking
references, giving them back, and calls to its own pipeline while the engine is up and the
pipeline not destroyed (`Host.Serves`); so the history of the engine stays proper
(`Host.Serves.orderly`), and no other pipeline is called (`Host.Serves.spares`).
-/

namespace MediaHost

/-! ### Histories -/

namespace Request

/-- The engine was started, and not shut down since. -/
def upAfter : List Request → Bool
  | [] => false
  | .startUp :: _ => true
  | .shutDown :: _ => false
  | .call _ _ :: rs => upAfter rs

/-- The engine is up if it was started and nothing shut it down since. -/
theorem upAfter_iff (rs : List Request) :
    upAfter rs = true ↔ ∃ since before, rs = since ++ .startUp :: before ∧ .shutDown ∉ since := by
  induction rs with
  | nil => simp [upAfter]
  | cons r rs ih =>
      cases r with
      | startUp => exact iff_of_true rfl ⟨[], rs, rfl, List.not_mem_nil⟩
      | shutDown =>
          refine iff_of_false (by simp [upAfter]) ?_
          rintro ⟨since, before, heq, hs⟩
          cases since with
          | nil => cases heq
          | cons r since => exact hs ((List.cons.inj heq).1 ▸ List.mem_cons_self)
      | call k c =>
          rw [upAfter, ih]
          constructor
          · rintro ⟨since, before, rfl, hs⟩
            exact ⟨.call k c :: since, before, rfl, by simpa using hs⟩
          · rintro ⟨since, before, heq, hs⟩
            cases since with
            | nil => cases heq
            | cons r since =>
                exact ⟨since, before, (List.cons.inj heq).2, fun h =>
                  hs (List.mem_cons_of_mem r h)⟩

/-- Pipelines were asked for only while the engine was up, and none after it was destroyed. -/
def Proper : List Request → Prop
  | [] => True
  | .call k _ :: rs => upAfter rs = true ∧ .call k .destroy ∉ rs ∧ Proper rs
  | _ :: rs => Proper rs

/-- What was asked first is proper by itself. -/
theorem Proper.earlier {later rs : List Request} (h : Proper (later ++ rs)) : Proper rs := by
  induction later with
  | nil => exact h
  | cons r later ih =>
      cases r with
      | call k c => exact ih h.2.2
      | _ => exact ih h

end Request

namespace Host
variable {a b h : Host} {own : Nat → Prop} {k : Nat}

/-- What a session asks of the engine, if `own` are the pipelines it may ask for. -/
inductive Serves (own : Nat → Prop) : Host → Host → Prop
  /-- Nothing is asked, and no reference taken. -/
  | quiet {a b : Host} (hh : b.engine.history = a.engine.history)
      (hr : b.context.refs = a.context.refs) (hs : b.context.started = a.context.started) :
      Serves own a b
  /-- A reference to an engine that runs then. -/
  | hold (a : Host) (hup : a.addRef.context.started = true) : Serves own a a.addRef
  /-- A reference that is given back at once. -/
  | attempt (a : Host) : Serves own a (a.addRef.releaseLease {})
  | giveBack (a : Host) (l : Lease) : Serves own a (a.releaseLease l)
  | call {a b : Host} {k : Nat} {c : Call} (hk : own k) (hup : a.context.started = true)
      (hn : .call k .destroy ∉ a.engine.history)
      (hh : b.engine.history = .call k c :: a.engine.history)
      (hr : b.context.refs = a.context.refs) (hs : b.context.started = a.context.started) :
      Serves own a b
  | trans {a b c : Host} (h₁ : Serves own a b) (h₂ : Serves own b c) : Serves own a c

theorem Serves.refl (a : Host) : Serves own a a := .quiet rfl rfl rfl

/-- With the same context, nothing was asked and no reference taken. -/
theorem Serves.of_context (hc : b.context = a.context) : Serves own a b :=
  .quiet (congrArg (·.engine.history) hc) (congrArg Context.refs hc) (congrArg Context.started hc)

/-- The history is proper and agrees with the context, which keeps an engine up exactly as long
as someone holds it. -/
structure Orderly (h : Host) : Prop where
  proper : Request.Proper h.engine.history
  inStep : Request.upAfter h.engine.history = h.context.started
  started : h.context.started = true ↔ 0 < h.context.refs

/-- A reference to an engine that is held takes nothing else; the first one starts the engine,
if that does not fail. -/
theorem addRef_spec (h : Host) :
    h.addRef.context.refs = h.context.refs + 1 ∧
      (h.addRef.engine.history = h.engine.history ∧
          h.addRef.context.started = (if h.context.refs = 0 then false else h.context.started) ∨
        h.context.refs = 0 ∧ h.addRef.engine.history = .startUp :: h.engine.history ∧
          h.addRef.context.started = true) := by
  simp only [engine, addRef, context_noteAll, Context.addRef, Context.start, Engine.startUp]
  by_cases hr : h.context.refs = 0
  · by_cases hf : 0 < h.context.engine.failingStarts
    · simp [hr, hf]
    · simp [hr, hf, Engine.asked]
  · simp [hr]

/-- A reference that is given back shuts the engine down if it is the last one. -/
theorem releaseLease_spec (h : Host) (l : Lease) :
    (l.released = true ∨ h.context.refs = 0) ∧ (h.releaseLease l).context = h.context ∨
      (h.releaseLease l).context.refs = h.context.refs - 1 ∧
        (h.releaseLease l).engine.history = h.engine.history ∧
        (h.releaseLease l).context.started = h.context.started ∧
        (h.context.refs - 1 = 0 → h.context.started = false) ∨
      (h.releaseLease l).context.refs = 0 ∧
        (h.releaseLease l).engine.history = .shutDown :: h.engine.history ∧
        (h.releaseLease l).context.started = false := by
  simp only [engine, releaseLease, context_noteAll, Lease.release]
  by_cases hl : l.released = true
  · simp [hl]
  · by_cases h0 : h.context.refs = 0
    · simp [hl, Context.release, h0]
    · cases hs : h.context.started with
      | false => simp [hl, Context.release, h0, hs]
      | true =>
          by_cases h1 : h.context.refs - 1 = 0
          · simp [hl, Context.release, h0, hs, h1, Engine.shutDown, Engine.asked]
          · simp [hl, Context.release, h0, hs, h1]

theorem Orderly.of_context (ha : a.Orderly) (hh : b.engine.history = a.engine.history)
    (hr : b.context.refs = a.context.refs) (hs : b.context.started = a.context.started) :
    b.Orderly :=
  ⟨hh ▸ ha.proper, by rw [hh, hs, ha.inStep], by rw [hr, hs, ha.started]⟩

/-- A lease that is given back leaves the host in order. -/
theorem Orderly.giveBack (ha : a.Orderly) (l : Lease) : (a.releaseLease l).Orderly := by
  rcases releaseLease_spec a l with ⟨-, hc⟩ | ⟨hr, hh, hs, hlast⟩ | ⟨hr, hh, hs⟩
  · exact ha.of_context (congrArg (·.engine.history) hc) (congrArg Context.refs hc)
      (congrArg Context.started hc)
  · refine ⟨hh ▸ ha.proper, by rw [hh, hs, ha.inStep], ?_⟩
    rw [hr, hs, ha.started]
    refine ⟨fun h => Nat.pos_of_ne_zero fun hz => ?_, by omega⟩
    have hfalse := hlast hz
    rw [ha.started.mpr h] at hfalse
    cases hfalse
  · exact ⟨hh ▸ ha.proper, by rw [hh, hs]; rfl, by simp [hr, hs]⟩

/-- A reference to an engine that runs then keeps it up. -/
theorem Orderly.hold (ha : a.Orderly) (hup : a.addRef.context.started = true) :
    a.addRef.Orderly := by
  obtain ⟨hr, ⟨hh, hs⟩ | ⟨-, hh, hs⟩⟩ := addRef_spec a
  · refine ⟨hh ▸ ha.proper, ?_, by simp [hr, hup]⟩
    rw [hh, hup, ha.inStep]
    rw [hup] at hs
    split at hs
    · cases hs
    · exact hs.symm
  · exact ⟨hh ▸ ha.proper, by rw [hh, hs]; rfl, by simp [hr, hup]⟩

/-- A reference that is given back at once leaves things as they are, whether the engine could
be started or not. -/
theorem Orderly.attempt (ha : a.Orderly) : (a.addRef.releaseLease {}).Orderly := by
  by_cases hup : a.addRef.context.started = true
  · exact (ha.hold hup).giveBack {}
  rw [Bool.not_eq_true] at hup
  obtain ⟨hr, ⟨hh, hs⟩ | ⟨-, -, hs⟩⟩ := addRef_spec a
  · -- nobody held the engine before, and it did not start
    have hzero : a.context.refs = 0 := by
      rcases Nat.eq_zero_or_pos a.context.refs with h0 | h0
      · exact h0
      · rw [if_neg (by omega), hup, ha.started.mpr h0] at hs
        cases hs
    have hdown : a.context.started = false :=
      Bool.eq_false_iff.mpr fun h => by
        have := ha.started.mp h
        omega
    rcases releaseLease_spec a.addRef {} with ⟨h | h, -⟩ | ⟨hr', hh', hs', -⟩ | ⟨hr', hh', hs'⟩
    · cases h
    · omega
    · exact ha.of_context (hh'.trans hh) (by omega) (by rw [hs', hup, hdown])
    · refine ⟨?_, by rw [hh', hs']; rfl, by simp [hr', hs']⟩
      rw [hh', hh]
      exact ha.proper
  · rw [hup] at hs
    cases hs

/-- Whatever serves its own pipelines keeps the host in order. -/
theorem Serves.orderly (hs : Serves own a b) (ha : a.Orderly) : b.Orderly := by
  induction hs with
  | quiet hh hr hs => exact ha.of_context hh hr hs
  | hold a hup => exact ha.hold hup
  | attempt a => exact ha.attempt
  | giveBack a l => exact ha.giveBack l
  | call _ hup hn hh hr hs =>
      refine ⟨?_, by rw [hh, hs]; exact ha.inStep, by rw [hr, hs, ha.started]⟩
      rw [hh]
      exact ⟨ha.inStep.trans hup, hn, ha.proper⟩
  | trans _ _ ih₁ ih₂ => exact ih₂ (ih₁ ha)

/-- Counting references calls no pipeline. -/
theorem count_addRef (a : Host) (k : Nat) (c : Call) :
    a.addRef.engine.callCount k c = a.engine.callCount k c := by
  simp only [Engine.callCount]
  obtain ⟨-, ⟨hh, -⟩ | ⟨-, hh, -⟩⟩ := addRef_spec a
  · rw [hh]
  · rw [hh, List.count_cons_of_ne (by simp)]

theorem count_releaseLease (a : Host) (l : Lease) (k : Nat) (c : Call) :
    (a.releaseLease l).engine.callCount k c = a.engine.callCount k c := by
  simp only [Engine.callCount]
  rcases releaseLease_spec a l with ⟨-, hc⟩ | ⟨-, hh, -⟩ | ⟨-, hh, -⟩
  · rw [engine, hc]
    rfl
  · rw [hh]
  · rw [hh, List.count_cons_of_ne (by simp)]

/-- A pipeline of others is not called. -/
theorem Serves.spares (hs : Serves own a b) (hk : ¬own k) (c : Call) :
    b.engine.callCount k c = a.engine.callCount k c := by
  induction hs with
  | quiet hh _ _ => rw [Engine.callCount, hh, Engine.callCount]
  | hold a _ => exact count_addRef a k c
  | attempt a => exact (count_releaseLease _ _ k c).trans (count_addRef a k c)
  | giveBack a l => exact count_releaseLease a l k c
  | @call a b j d hj _ _ hh _ _ =>
      have hne : j ≠ k := fun h => hk (h ▸ hj)
      rw [Engine.callCount, hh, List.count_cons_of_ne (by simp [hne]), Engine.callCount]
  | trans _ _ ih₁ ih₂ => exact ih₂.trans ih₁

/-- Calls to one pipeline that is not destroyed by them. -/
structure Calls (k : Nat) (a b : Host) : Prop where
  history : ∃ cs : List Call, .destroy ∉ cs ∧
    b.engine.history = cs.map (.call k) ++ a.engine.history
  refs : b.context.refs = a.context.refs
  started : b.context.started = a.context.started
  mode : b.engine.mode = a.engine.mode

theorem Calls.refl (k : Nat) (a : Host) : Calls k a a := ⟨⟨[], by simp, rfl⟩, rfl, rfl, rfl⟩

theorem Calls.trans {c : Host} (h₁ : Calls k a b) (h₂ : Calls k b c) : Calls k a c := by
  obtain ⟨⟨cs, hcs, hh₁⟩, hr₁, hs₁, hm₁⟩ := h₁
  obtain ⟨⟨ds, hds, hh₂⟩, hr₂, hs₂, hm₂⟩ := h₂
  refine ⟨⟨ds ++ cs, by simp [hcs, hds], ?_⟩, hr₂.trans hr₁, hs₂.trans hs₁, hm₂.trans hm₁⟩
  rw [hh₂, hh₁, List.map_append, List.append_assoc]

theorem Calls.of_context {c : Host} (h : Calls k a b) (hc : c.context = b.context) :
    Calls k a c := by
  obtain ⟨hh, hr, hs, hm⟩ := h
  exact ⟨by rwa [engine, hc], by rwa [hc], by rwa [hc], by rwa [engine, hc]⟩

/-- Calls of a pipeline are never its destruction. -/
theorem Calls.not_destroyed (hc : Calls k a b) (hn : .call k .destroy ∉ a.engine.history) :
    .call k .destroy ∉ b.engine.history := by
  obtain ⟨cs, hcs, hh⟩ := hc.history
  rw [hh]
  simp [hcs, hn]

/-- Calls of a pipeline that is not destroyed, on an engine that is up, are in service. -/
theorem Calls.serves (hc : Calls k a b) (hk : own k) (hup : a.context.started = true)
    (hn : .call k .destroy ∉ a.engine.history) : Serves own a b := by
  obtain ⟨⟨cs, hcs, hh⟩, hr, hs, -⟩ := hc
  induction cs generalizing b with
  | nil => exact .quiet hh hr hs
  | cons c cs ih =>
      -- the host before the last call
      have hcs' : .destroy ∉ cs := fun h => hcs (List.mem_cons_of_mem c h)
      have hprev := ih (b := a.setEngine { a.engine with
        history := cs.map (.call k) ++ a.engine.history }) rfl rfl hcs' rfl
      refine hprev.trans (.call hk hup ?_ hh hr hs)
      change .call k .destroy ∉ cs.map (Request.call k) ++ a.engine.history
      simp [hcs', hn]

end Host

namespace Stage
variable {s s' : Stage} {h : Handle} {t k : Nat} {own : Nat → Prop}

/-- The session may call its pipeline, or a new one. -/
structure Ready (s : Stage) : Prop where
  live : ∀ h, s.session.pipeline = some h →
    s.host.context.started = true ∧ .call h.id .destroy ∉ s.host.engine.history
  create : .call Engine.noPipeline .destroy ∉ s.host.engine.history
  next : .call s.host.engine.nextId .destroy ∉ s.host.engine.history

/-! ### Commands on the live pipeline -/

/-- Requests for one pipeline that leave the ledger alone destroy nothing. -/
theorem Keeps.calls (hk : Keeps s s') (ha : Engine.Asks k s.host.engine s'.host.engine) :
    Host.Calls k s.host s'.host := by
  obtain ⟨⟨cs, hh⟩, hm⟩ := ha
  have hmile : s'.host.engine.inventory.milestones = s.host.engine.inventory.milestones :=
    congrArg (·.engine.milestones) hk.ledger
  refine ⟨⟨cs, fun hd => ?_, hh⟩, congrArg Ledger.refs hk.ledger,
    congrArg Ledger.started hk.ledger, hm⟩
  simp only [Engine.inventory, hh, List.filter_append, List.append_left_eq_self,
    List.filter_eq_nil_iff] at hmile
  exact hmile (.call k .destroy) (List.mem_map_of_mem hd) rfl

/-- What a session asks of its own live pipeline is in service. -/
theorem serves_of_asks (hlive : ∀ h, s.session.pipeline = some h →
      s.host.context.started = true ∧ .call h.id .destroy ∉ s.host.engine.history)
    (hk : Keeps s s') (ha : Asks s s') (hown : ∀ h, s.session.pipeline = some h → own h.id) :
    Host.Serves own s.host s'.host := by
  rcases ha with he | ⟨h, hl, ha⟩
  · exact .quiet (congrArg (·.history) he) (congrArg Ledger.refs hk.ledger)
      (congrArg Ledger.started hk.ledger)
  · have hp := (live_eq_ok.mp hl).2
    exact (hk.calls ha).serves (hown h hp) (hlive h hp).1 (hlive h hp).2

/-! ### Bringing a session up -/

theorem history_create (e : Engine) (name : String) (callbacks : Callbacks) (userdata : Nat) :
    (e.create name callbacks userdata).1.history =
      .call Engine.noPipeline .create :: e.history := by
  simp only [Engine.create]
  split <;> rfl

/-- A reference destroys nothing. -/
theorem mem_history_addRef {a : Host} {k : Nat} {c : Call} :
    .call k c ∈ a.addRef.engine.history ↔ .call k c ∈ a.engine.history := by
  obtain ⟨-, ⟨hh, -⟩ | ⟨-, hh, -⟩⟩ := Host.addRef_spec a
  · rw [hh]
  · rw [hh]
    simp

/-- An active context has started its engine. -/
theorem started_of_isActive {c : Context} (ha : c.isActive = true) : c.started = true := by
  simp only [Context.isActive, Bool.and_eq_true] at ha
  exact ha.1.2

section
variable {e : Engine} {made : Option Nat}
  (hc : s.bound.engine.create s.session.name .all s.host.addRef.arena.next = (e, made))
include hc

theorem history_bound :
    e.history = .call Engine.noPipeline .create :: s.host.addRef.engine.history := by
  have hh := history_create s.bound.engine s.session.name .all s.host.addRef.arena.next
  rw [hc] at hh
  exact hh

/-- The pipeline is created on an engine that was just started, or was up before. -/
theorem serves_create (hr : s.Ready) (ha : s.host.addRef.context.isActive = true)
    (hown : own Engine.noPipeline) : Host.Serves own s.host (s.bound.setEngine e) := by
  have hup := started_of_isActive ha
  refine (Host.Serves.hold s.host hup).trans (.call hown hup ?_ (history_bound hc) rfl rfl)
  rw [mem_history_addRef]
  exact hr.create

end

/-- However far bringing a session up comes, it is in service. -/
theorem serves_bringUp (hr : s.Ready) (hown : own Engine.noPipeline) :
    Host.Serves own s.host s.bringUp.1.host := by
  by_cases hd : s.session.phase.isDestroyed = true
  · simp only [bringUp, hd, if_true]
    exact .refl _
  by_cases hl : s.session.lease.isSome = true
  · simp only [bringUp, hd, hl, if_true]
    exact .refl _
  rw [Bool.not_eq_true] at hd hl
  by_cases ha : s.host.addRef.context.isActive = true
  · rcases hc : s.bound.engine.create s.session.name .all s.host.addRef.arena.next with
      ⟨e, _ | id⟩
    · rw [bringUp_refused hd hl ha hc]
      have hback : Host.Serves own s.host
          ((s.bound.setEngine e).unregister s.host.addRef.arena.next) :=
        (serves_create hc hr ha hown).trans (.quiet rfl rfl rfl)
      exact hback.trans (.giveBack ((s.bound.setEngine e).unregister s.host.addRef.arena.next) {})
    · rw [bringUp_made hd hl ha hc]
      exact serves_create hc hr ha hown
  · rw [bringUp_inactive hd hl (by simpa using ha)]
    exact .attempt s.host

/-- Once it is up, the session may call its pipeline. -/
theorem live_bringUp (hr : s.Ready)
    (hat : Books.Attached s.host.ledger s.index s.session.wiring) {h : Handle}
    (hp : s.bringUp.1.session.pipeline = some h) :
    s.bringUp.1.host.context.started = true ∧
      .call h.id .destroy ∉ s.bringUp.1.host.engine.history := by
  by_cases hd : s.session.phase.isDestroyed = true
  · simp only [bringUp, hd, if_true] at hp ⊢
    exact hr.live h hp
  by_cases hl : s.session.lease.isSome = true
  · simp only [bringUp, hd, hl, if_true] at hp ⊢
    exact hr.live h hp
  rw [Bool.not_eq_true] at hd hl
  have hnone : s.session.pipeline = none := congrArg Wiring.pipeline (wiring_of_lease hat hl)
  by_cases ha : s.host.addRef.context.isActive = true
  · rcases hc : s.bound.engine.create s.session.name .all s.host.addRef.arena.next with
      ⟨e, _ | id⟩
    · rw [bringUp_refused hd hl ha hc] at hp
      simp [hnone] at hp
    · rw [bringUp_made hd hl ha hc] at hp ⊢
      cases hp
      have hup := started_of_isActive ha
      refine ⟨hup, ?_⟩
      obtain ⟨ok, -, -, -, hnid⟩ := ledger_bound s
      obtain ⟨hid, -⟩ := Engine.inventory_create hc
      change .call id .destroy ∉ e.history
      rw [history_bound hc, hid, hnid]
      simp [mem_history_addRef, hr.next]
  · rw [bringUp_inactive hd hl (by simpa using ha)] at hp
    simp [hnone] at hp

/-! ### Starting a session -/

theorem serves_start (hr : s.Ready)
    (hat : Books.Attached s.host.ledger s.index s.session.wiring) (hcreate : own Engine.noPipeline)
    (hnext : own s.host.engine.nextId) (hown : ∀ h, s.session.pipeline = some h → own h.id) :
    Host.Serves own s.host s.start.1.host := by
  obtain ⟨hk, ha⟩ := start_spec s
  refine (serves_bringUp hr hcreate).trans (serves_of_asks (fun h => live_bringUp hr hat) hk ha ?_)
  exact fun h hp => ((turns_bringUp hat).own h hp).elim (hown h) fun hn => hn ▸ hnext

/-! ### Destroying a session -/

theorem context_releaseToken (s : Stage) : s.releaseToken.host.context = s.host.context := by
  simp only [releaseToken]
  split <;> rfl

theorem context_leaveQueue (s : Stage) : s.leaveQueue.host.context = s.host.context := by
  simp only [leaveQueue]
  split <;> rfl

/-- What is left to give back makes no call. -/
theorem serves_letGo (s : Stage) : Host.Serves own s.host s.letGo.host := by
  have hcontext : s.releaseToken.leaveQueue.host.context = s.host.context :=
    (context_leaveQueue _).trans (context_releaseToken s)
  have hlease : ∀ x : Stage, Host.Serves own x.host x.releaseLease.host := by
    intro x
    simp only [releaseLease]
    split
    · exact .refl _
    · exact .giveBack _ _
  exact (Host.Serves.of_context hcontext).trans (hlease s.releaseToken.leaveQueue)

/-- The end of an encoder stream is asked of its own pipeline only. -/
theorem calls_ending (h : Handle) (s : Stage) : Host.Calls h.id s.host (s.ending h).host := by
  simp only [ending]
  split
  · exact ⟨⟨[.play], by simp, rfl⟩, rfl, rfl, rfl⟩
  · exact .refl _ _

theorem calls_stopEncoding (a : Host) (k : Nat) : Host.Calls k a (a.stopEncoding k) := by
  have hset : Host.Calls k a (a.setEngine (a.engine.stopEncoding k).1) := by
    refine ⟨⟨[.stopEncoding], by simp, ?_⟩, rfl, rfl, Engine.asks_stopEncoding.mode⟩
    simp only [Host.engine_setEngine, Engine.stopEncoding]
    split <;> rfl
  simp only [Host.stopEncoding]
  split
  · exact hset.of_context (Host.context_signalAll _)
  · exact hset.of_context rfl

theorem calls_settle (a : Host) (k : Nat) : Host.Calls k a a.settle :=
  (Host.Calls.refl k a).of_context Host.context_settle

/-- The wait for the end of a stream asks for the end, and looks. -/
theorem calls_awaitEnd (h : Handle) (s : Stage) :
    Host.Calls h.id s.host (awaitEnd h s).1.host := by
  have hasked := calls_stopEncoding s.host h.id
  have harrived := hasked.trans (calls_settle _ _)
  simp only [awaitEnd]
  split
  · exact .refl _ _
  split
  · exact hasked
  split
  · exact hasked
  · exact hasked.of_context rfl
  · exact harrived
  · split
    · exact harrived
    · exact hasked.of_context rfl

/-- However the wait came out, the pipeline is called once more at most, and then no more. -/
theorem serves_finish (h : Handle) (x : Stage × Wait) (hown : own h.id)
    (hup : x.1.host.context.started = true)
    (hn : .call h.id .destroy ∉ x.1.host.engine.history) :
    Host.Serves own x.1.host (finish h x).host := by
  have hcontext := context_releaseToken x.1
  have hback : Host.Serves own x.1.host x.1.releaseToken.host := .of_context hcontext
  obtain ⟨y, wait⟩ := x
  cases wait with
  | endless => exact .refl _
  | ended =>
      have hcall : Host.Serves own y.releaseToken.host
          (y.releaseToken.onHost (·.tell (·.destroy h.id))).host := by
        refine .call hown (hcontext ▸ hup) ?_ rfl rfl rfl
        rwa [Host.engine, hcontext]
      exact (hback.trans hcall).trans (serves_letGo _)
  | timedOut =>
      have hnote : Host.Serves own y.releaseToken.host
          (y.releaseToken.onHost (·.note h.leakNotice)).host := .quiet rfl rfl rfl
      exact (hback.trans hnote).trans (serves_letGo _)

/-- A session destroys its own pipeline last and asks nothing of it afterwards. -/
theorem serves_destroy (hr : s.Ready) (hown : ∀ h, s.session.pipeline = some h → own h.id) :
    Host.Serves own s.host s.destroy.host := by
  by_cases hd : s.session.phase.isDestroyed = true
  · simp only [destroy, hd, if_true]
    exact .refl _
  rw [Bool.not_eq_true] at hd
  cases hp : s.session.pipeline with
  | none =>
      rw [destroy_of_none hd hp]
      exact serves_letGo s.withdrawn
  | some h =>
      obtain ⟨hup, hn⟩ := hr.live h hp
      -- the end of a running stream is awaited first
      have hend : ∀ x : Stage × Wait, Host.Calls h.id s.host x.1.host →
          Host.Serves own s.host (finish h x).host := fun x hx =>
        (hx.serves (hown h hp) hup hn).trans
          (serves_finish h x (hown h hp) (hx.started.trans hup) (hx.not_destroyed hn))
      by_cases he : s.isEncoding = true
      · rw [destroy_of_encoding hp he]
        exact hend _ ((calls_ending h s).trans (calls_awaitEnd h _))
      · rw [destroy_of_idle hd hp (by simpa using he)]
        exact hend _ (.refl _ _)

/-- Every command of a session is in service. -/
theorem serves_exec (hr : s.Ready)
    (hat : Books.Attached s.host.ledger s.index s.session.wiring) (hcreate : own Engine.noPipeline)
    (hnext : own s.host.engine.nextId) (hown : ∀ h, s.session.pipeline = some h → own h.id)
    (c : Command) : Host.Serves own s.host (c.exec s).1.host := by
  by_cases h₁ : c = .bringUp
  · rw [h₁]
    exact serves_bringUp hr hcreate
  by_cases h₂ : c = .start
  · rw [h₂]
    exact serves_start hr hat hcreate hnext hown
  by_cases h₃ : c = .destroy
  · rw [h₃]
    exact serves_destroy hr hown
  exact serves_of_asks hr.live (keeps_exec s c h₁ h₂ h₃) (asks_exec s c h₁ h₂ h₃) hown

end Stage
end MediaHost
