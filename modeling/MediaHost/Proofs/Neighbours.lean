import MediaHost.Proofs.Hearing
import MediaHost.Proofs.Upkeep

/-!
# Proofs — Neighbours

Two sessions on one host share its engine, its numbers, and perhaps a queue that neither made.
Whatever is asked of one of them, a tick apart, and whatever the engine does for it, leaves the
other as it was, with its pipeline, its binding and all that waits for it (`Tidy.unmoved_of`).
A tick of one does to the other nothing, or exactly what the other's own drain would do
(`Tidy.ticked`); and the engine runs as long as either holds a lease (`neighbours_apart`).
-/

namespace MediaHost

namespace Stage
variable {y y₁ y' : Stage}

/-- What waits to be told to the session, oldest first. -/
def mail (s : Stage) : List Event := s.host.mail s.session.token s.session.queue

/-- No more is delivered on the session's queue. -/
def isDeaf (s : Stage) : Bool := (s.host.queue s.session.queue).closed

/-- The session, its pipeline, its binding and all that waits for it are as before, and its queue
is open if it was. -/
structure Unmoved (y y' : Stage) : Prop where
  estate : y'.estate = y.estate
  binding : y'.binding = y.binding
  mail : y'.mail = y.mail
  isDeaf : y'.isDeaf = y.isDeaf

theorem Unmoved.refl (y : Stage) : Unmoved y y := ⟨rfl, rfl, rfl, rfl⟩

theorem Unmoved.session (h : y.Unmoved y') : y'.session = y.session :=
  congrArg Estate.session h.estate

/-- What work on a queue leaves of a session `y`, if the session's own drain leaves `z` of it. -/
inductive Worked (y z y' : Stage) : Prop
  | still (h : y.Unmoved y')
  /-- All that waited for the session was run. -/
  | drained (he : y'.estate = z.estate) (hb : y'.binding = z.binding) (hm : y'.mail = [])
  /-- A program closed the queue. -/
  | closed (he : y'.estate = y.estate) (hb : y'.binding = y.binding) (hc : y'.isDeaf = true)
    (hm : y'.mail = [])

end Stage

namespace World
variable {w w' w₀ : World} {i j t : Nat} {x x' y y' : Stage} {a : Action}

/-- What is asked of the session `i`, a tick apart, and what the engine does for it: a frame for
its pipeline, a callback with a number that it has or had, be it in flight or not, and all that is
late. -/
inductive Of (w : World) (i : Nat) : Action → Prop
  | command (c : Command) : Of w i (.command i c)
  | drop : Of w i (.drop i)
  | push {s : Stage} {h : Handle} (hs : w.stage? i = some s) (hp : s.session.pipeline = some h)
    (frame : Frame) : Of w i (.push h.id frame)
  | callback {t : Nat} (ht : w.books.ledger.Belongs t (.session i)) (e : Event) :
    Of w i (.callback ⟨t, e⟩)
  | arrive {n : Nat}
    (hn : ∀ c, w.host.inFlight[n]? = some c → w.books.ledger.Belongs c.userdata (.session i)) :
    Of w i (.arrive n)
  | settle : Of w i .settle

theorem Of.isLeased (h : w.Of i a) : a.isLeased = true := by
  cases h <;> rfl

/-! ### What does not reach a session -/

/-- The number of a session is registered, and was given out. -/
theorem Tidy.registered (hw : w.Tidy) (hy : w.stage? j = some y)
    (ht : y.session.token = some t) :
    t < w.host.arena.next ∧ w.books.ledger.bindings.get? t = some (.session j, true) := by
  have hhost := (stage?_eq_some.mp hy).2.2
  refine ⟨hhost ▸ (hw.home hy t ht).1, ?_⟩
  obtain ⟨h, hup⟩ := (hw.sound.attached hy).of_token (v := y.session.wiring) ht
  exact (hw.sound.books.attached (hup ▸ wirings_of_stage hy)).of_up.2

/-- Deeds that reach neither the session's number nor its queue, and leave its pipeline alone. -/
theorem Tidy.unmoved {r : Reach} {h' : Host} (hw : w.Tidy) (hy : w.stage? j = some y)
    (hd : Host.Deeds r w.host h') (ht : ∀ t, y.session.token = some t → ¬r.owns t)
    (hq : ¬r.closes y.session.queue)
    (hp : ∀ h, y.session.pipeline = some h →
      h'.engine.pipelines.get? h.id = w.host.engine.pipelines.get? h.id) :
    y.Unmoved { y with host := h' } := by
  have hhost := (stage?_eq_some.mp hy).2.2
  refine ⟨Estate.ext rfl ?_, ?_, ?_, ?_⟩
  · simp only [Stage.estate, hhost]
    cases hh : y.session.pipeline with
    | none => rfl
    | some h => exact hp h hh
  · simp only [Stage.binding, hhost]
    cases htok : y.session.token with
    | none => rfl
    | some t => exact hd.resolve (ht t htok) (hw.registered hy htok).1
  · simp only [Stage.mail, hhost]
    exact hd.mail (fun {t} htok => ht t htok) hq
  · simp only [Stage.isDeaf, hhost]
    exact hd.closed hq

section
variable (hw : w.Tidy) (hx : w.stage? i = some x) (hy : w.stage? j = some y) (hij : i ≠ j)
  (hq : x.session.ownsQueue = true → x.session.queue ≠ y.session.queue)
include hw hx hy hij hq

/-- What a session does within its reach. -/
theorem Tidy.unmoved_put (ht : Stage.Turns x x') (hd : Host.Deeds x.reach x.host x'.host) :
    ∃ y', (w.put x').stage? j = some y' ∧ y.Unmoved y' := by
  obtain ⟨hi, -, hxh⟩ := stage?_eq_some.mp hx
  have hne : x'.index ≠ j := by
    rw [ht.index, hi]
    exact hij
  refine ⟨{ y with host := x'.host }, ?_, ?_⟩
  · rw [stage?_put, if_neg hne, hy]
    rfl
  · refine hw.unmoved hy (hxh ▸ hd) (fun t hty => ?_) ?_ fun h hp => ?_
    · rintro (htx | hnew)
      · -- the two sessions have numbers of their own
        have htarget := (hw.registered hx htx).2.symm.trans (hw.registered hy hty).2
        exact hij (Target.session.inj (Prod.mk.inj (Option.some.inj htarget)).1)
      · rw [hxh] at hnew
        exact absurd (hw.registered hy hty).1 (Nat.not_lt.mpr hnew)
    · rintro ⟨howns, heq⟩
      exact hq howns heq
    · exact hw.sound.pipeline_of_turns hx ht hy hij hp

omit hx hq in
/-- What the engine does for numbers that belong to a session. -/
theorem Tidy.unmoved_calls {owns : Nat → Prop} {h' : Host}
    (howns : ∀ t, owns t → w.books.ledger.Belongs t (.session i))
    (hd : Host.Deeds ⟨owns, fun _ => False⟩ w.host h') (hs : Host.Same w.host h') :
    y.Unmoved { y with host := h' } := by
  refine hw.unmoved hy hd (fun u hu howned => ?_) id fun g _ => ?_
  · obtain ⟨registered, hget⟩ := howns u howned
    have htarget := hget.symm.trans (hw.registered hy hu).2
    exact hij (Target.session.inj (Prod.mk.inj (Option.some.inj htarget)).1)
  · exact congrArg (·.get? g.id) hs.pipelines

theorem Tidy.unmoved_exec (c : Command) :
    ∃ y', (w.put (c.exec x).1).stage? j = some y' ∧ y.Unmoved y' := by
  have ha := hw.sound.attached hx
  exact hw.unmoved_put hx hy hij hq (Stage.turns_exec ha (hw.sound.coupled hx) c)
    (Stage.deeds_exec ha (Stage.within_reach ha) (hw.sound.late hx) c)

theorem Tidy.unmoved_look :
    ∃ y', (w.act i (·.withLive Stage.pull)).1.stage? j = some y' ∧ y.Unmoved y' := by
  rcases look_cases hx with ⟨e, hlook⟩ | ⟨h, hl, hlook⟩
  · rw [hlook]
    exact ⟨y, hy, .refl y⟩
  · have hp := (Stage.live_eq_ok.mp hl).2
    rw [hlook]
    exact hw.unmoved_put hx hy hij hq (Stage.keeps_pull x hp).turns
      (Stage.deeds_pull (Stage.within_reach (hw.sound.attached hx)) hp)

/-- Whatever is asked of one session, a tick apart, leaves the other as it was. -/
theorem Tidy.unmoved_of (ha : w.Of i a) :
    ∃ y', (w.apply a).stage? j = some y' ∧ y.Unmoved y' := by
  have hstage : ∀ h : Host,
      ({ w with host := h } : World).stage? j = some { y with host := h } := by
    intro h
    obtain ⟨hj, hget, -⟩ := stage?_eq_some.mp hy
    exact stage?_eq_some.mpr ⟨hj, hget, rfl⟩
  cases ha with
  | command c =>
      simp only [World.apply, act_eq hx]
      exact hw.unmoved_exec hx hy hij hq c
  | drop =>
      obtain ⟨y', hy', hsame⟩ := hw.unmoved_exec hx hy hij hq .destroy
      refine ⟨y', ?_, hsame⟩
      obtain ⟨hj, hget, hh⟩ := stage?_eq_some.mp hy'
      simp only [World.apply, World.drop, hx]
      refine stage?_eq_some.mpr ⟨hj, ?_, hh⟩
      rw [Table.get?_erase, if_neg hij]
      exact hget
  | @push s h hs hp frame =>
      refine ⟨_, hstage _, ?_⟩
      refine hw.unmoved hy (r := ⟨fun _ => False, fun _ => False⟩) (Host.deeds_setEngine w.host _)
        (fun _ _ => id) id fun g hg => ?_
      have halt := Host.alters_tell (h := w.host) (g := (·.push h.id frame))
        (Engine.alters_push frame)
      exact (halt.pipeline g.id).trans (if_neg (hw.sound.apart hy hs hij hg hp))
  | @callback t ht e =>
      refine ⟨_, hstage _, ?_⟩
      have hown : Host.Deeds ⟨(· = t), fun _ => False⟩ w.host (w.host.signal ⟨t, e⟩) :=
        .one (.signal w.host ⟨t, e⟩ (.inl rfl))
      exact hw.unmoved_calls hy hij (fun u (hu : u = t) => hu ▸ ht) hown (Host.same_signal ⟨t, e⟩)
  | arrive hn =>
      refine ⟨_, hstage _, ?_⟩
      exact hw.unmoved_calls hy hij (fun _ => id) (Host.deeds_arrive w.host hn)
        (Host.same_arrive _)
  | settle =>
      refine ⟨_, hstage _, ?_⟩
      have hlate : ∀ c ∈ w.host.late, w.host.arena.resolve c.userdata = none := by
        have hhost := (stage?_eq_some.mp hy).2.2
        exact hhost ▸ hw.sound.late hy
      refine hw.unmoved hy (r := ⟨fun _ => False, fun _ => False⟩)
        (.more (.late w.host []) (Host.deeds_signalAll _ fun c hc => .inr (hlate c hc)))
        (fun _ _ => id) id fun g _ => ?_
      exact congrArg (·.get? g.id) (Host.pipelines_settle (h := w.host))

end

/-! ### Ticks -/

theorem Tidy.posted (hw : w.Tidy) (hy : w.stage? j = some y) :
    w.Posted j y.session.token y.session.queue := by
  obtain ⟨hj, hget, hhost⟩ := stage?_eq_some.mp hy
  refine ⟨hw.sound, ?_, fun {t z} hz htarget => ?_, fun p hp => ?_⟩
  · simp only [address, hget, Option.map_some]
  · obtain ⟨k, h, hk, hup⟩ := hw.claimed t _ (Host.bindings_of_resolve hz)
    rw [htarget] at hk
    obtain rfl := Target.session.inj hk
    have hwir := Option.some.inj ((wirings_of_stage hy).symm.trans hup)
    exact congrArg Wiring.token hwir
  · -- what waits for the session waits where its binding says
    refine mail_eq_nil.mpr fun t e ht hm => hp ?_
    have hsome : (w.host.arena.resolve t).isSome = true := by
      rw [Host.isSome_resolve]
      change ((w.books.ledger.bindings.get? t).map (·.2)).getD false = true
      rw [(hw.registered hy ht).2]
      rfl
    obtain ⟨z, hz⟩ := Option.isSome_iff_exists.mp hsome
    have hqueue := (hw.home hy t ht).2 z (by rw [hhost]; exact hz)
    exact ((hw.host.home hm).2 z hz).symm.trans hqueue

/-- Work leaves a session its number, its queue and its binding. -/
theorem Wanes.stage (hl : Wanes w w') (hy : w.stage? j = some y) (hy' : w'.stage? j = some y') :
    y'.session.token = y.session.token ∧ y'.session.queue = y.session.queue ∧
      y'.binding = y.binding := by
  have haddr := hl.address j
  simp only [World.address, (stage?_eq_some.mp hy).2.1, (stage?_eq_some.mp hy').2.1,
    Option.map_some, Option.some.injEq, Prod.mk.injEq] at haddr
  refine ⟨haddr.1, haddr.2, ?_⟩
  simp only [Stage.binding, haddr.1, (stage?_eq_some.mp hy).2.2, (stage?_eq_some.mp hy').2.2,
    hl.host.arena]

theorem stage_of_estate {e : Estate} (he : w.estate? j = some e) :
    ∃ y, w.stage? j = some y ∧ y.estate = e := Option.map_eq_some_iff.mp he

theorem Wanes.mail (hl : Wanes w w') (hy : w.stage? j = some y) (hy' : w'.stage? j = some y') :
    y'.mail = w'.host.mail y.session.token y.session.queue := by
  obtain ⟨htok, hqueue, -⟩ := hl.stage hy hy'
  simp only [Stage.mail, htok, hqueue, (stage?_eq_some.mp hy').2.2]

theorem Wanes.isDeaf (hl : Wanes w w') (hy : w.stage? j = some y) (hy' : w'.stage? j = some y') :
    y'.isDeaf = (w'.host.queue y.session.queue).closed := by
  simp only [Stage.isDeaf, (hl.stage hy hy').2.1, (stage?_eq_some.mp hy').2.2]

theorem mail_of_stage (hy : w.stage? j = some y) :
    w.host.mail y.session.token y.session.queue = y.mail := by
  rw [Stage.mail, (stage?_eq_some.mp hy).2.2]

/-- What the session's own drain leaves of it. -/
theorem Tidy.drained (hw : w.Tidy) (hy : w.stage? j = some y) :
    ∃ z, (drain w y.session.queue).1.stage? j = some z ∧
      z.estate = y.estate.toldAll y.mail ∧ z.binding = y.binding ∧ z.mail = [] := by
  have htold := told_drain (hw.posted hy) (hw.host.idle y.session.queue)
  have he := htold.estate
  rw [estate?_eq hy, Option.map_some, mail_of_stage hy] at he
  obtain ⟨z, hz, hze⟩ := stage_of_estate he
  exact ⟨z, hz, hze, (htold.wanes.stage hy hz).2.2, (htold.wanes.mail hy hz).trans htold.mail⟩

/-- A look for a frame leaves the session its queue. -/
theorem queue_look (hx : w.stage? i = some x) :
    ∃ x', (w.act i (·.withLive Stage.pull)).1.stage? i = some x' ∧
      x'.session.queue = x.session.queue := by
  rcases look_cases hx with ⟨e, hlook⟩ | ⟨h, hl, hlook⟩
  · rw [hlook]
    exact ⟨x, hx, rfl⟩
  · have hindex := (Stage.keeps_pull x (Stage.live_eq_ok.mp hl).2).index
    obtain ⟨_, _, _, hsession⟩ := Stage.session_pull h x
    refine ⟨(Stage.pull h x).1, ?_, by rw [hsession]⟩
    rw [hlook, stage?_put, if_pos (hindex.trans (stage?_eq_some.mp hx).1)]

theorem hears_started (token : Option Nat) (q : Nat) (w : World) (label : String) (n : Nat) :
    Hears j token q w (w.record (.observed label n .started)) :=
  ⟨.one (.record w _), .of_host ⟨rfl, fun _ => .refl _⟩, fun _ =>
    .of_queue (estate?_onHost rfl) rfl⟩

theorem Fares.stage {token : Option Nat} {q : Nat} (hf : Fares j token q w w')
    (hy : w.stage? j = some y) : ∃ y', w'.stage? j = some y' := by
  cases hf with
  | still he _ _ | lost he _ _ | heard he _ =>
      rw [estate?_eq hy] at he
      obtain ⟨y', hy', -⟩ := stage_of_estate he
      exact ⟨y', hy'⟩

/-- What work leaves of a session that was as before when it began. -/
theorem Fares.worked (hf : Fares j y₁.session.token y₁.session.queue w w') (hl : Wanes w w')
    (hy₁ : w.stage? j = some y₁) (hy' : w'.stage? j = some y') (hlook : y.Unmoved y₁) {z : Stage}
    (hze : z.estate = y.estate.toldAll y.mail) (hzb : z.binding = y.binding) :
    y.Worked z y' := by
  have hbinding := (hl.stage hy₁ hy').2.2.trans hlook.binding
  have hmail := hl.mail hy₁ hy'
  have hdeaf := hl.isDeaf hy₁ hy'
  cases hf with
  | still he hc hm =>
      rw [estate?_eq hy₁, estate?_eq hy'] at he
      refine .still ⟨(Option.some.inj he).trans hlook.estate, hbinding, ?_, ?_⟩
      · exact hmail.trans (hm.trans ((mail_of_stage hy₁).trans hlook.mail))
      · refine hdeaf.trans (hc.trans ?_)
        rw [← hlook.isDeaf, Stage.isDeaf, (stage?_eq_some.mp hy₁).2.2]
  | lost he hc hm =>
      rw [estate?_eq hy₁, estate?_eq hy'] at he
      exact .closed ((Option.some.inj he).trans hlook.estate) hbinding (hdeaf.trans hc)
        (hmail.trans hm)
  | heard he hm =>
      rw [estate?_eq hy₁, estate?_eq hy', mail_of_stage hy₁, Option.map_some, hlook.estate,
        hlook.mail] at he
      exact .drained ((Option.some.inj he).trans hze.symm) (hbinding.trans hzb.symm)
        (hmail.trans hm)

/-- A tick that succeeds leaves nothing on its queue that another session waits to be told. -/
theorem Tidy.emptied (hw : w.Tidy) (hx : w.stage? i = some x) (hij : i ≠ j)
    (hy₁ : (w.act i (·.withLive Stage.pull)).1.stage? j = some y₁)
    (hshared : x.session.queue = y₁.session.queue) {tick : Tick}
    (hok : (w.advance i).2 = some (.ok tick)) :
    (w.advance i).1.host.mail y₁.session.token y₁.session.queue = [] := by
  have hw₁ := hw.look i
  have hcases := (lenient_hears j y₁.session.token y₁.session.queue).advance_cases
    (hears_drain j _ _) (reacts_hears _ _ hij).observers (hears_started _ _) w
  rcases hcases with ⟨-, hfailed⟩ | ⟨w₂, hears, hdrain⟩
  · exact absurd hok (hfailed tick)
  · -- what is drained at last is the queue of the session that ticks
    obtain ⟨x₁, hx₁, hqueue⟩ := queue_look hx
    have haddr := hears.wanes.address i
    simp only [address, (stage?_eq_some.mp hx₁).2.1, Option.map_some] at haddr
    obtain ⟨x₂, hx₂, hx₂a⟩ := Option.map_eq_some_iff.mp haddr
    have hq₂ : ((w₂.sessions.get? i).map (·.queue)).getD 0 = y₁.session.queue := by
      rw [hx₂, Option.map_some, Option.getD_some, (Prod.mk.inj hx₂a).2, hqueue, hshared]
    have hidle : (w₂.host.queue y₁.session.queue).running = none := by
      have hrun := (hears.wanes.host.queue y₁.session.queue).running
      rw [hw₁.host.idle] at hrun
      exact Option.not_isSome_iff_eq_none.mp (by rw [hrun]; exact Bool.false_ne_true)
    have htold := told_drain ((hw₁.posted hy₁).work hears.leads hears.wanes) hidle
    rw [hdrain, hq₂]
    exact htold.mail

/-- A tick of another session does to a session nothing, or what its own drain would do. -/
theorem Tidy.ticked (hw : w.Tidy) (hx : w.stage? i = some x) (hy : w.stage? j = some y)
    (hij : i ≠ j) (hq : x.session.ownsQueue = true → x.session.queue ≠ y.session.queue)
    {z : Stage} (hz : (drain w y.session.queue).1.stage? j = some z) :
    ∃ y', (w.advance i).1.stage? j = some y' ∧ y.Worked z y' ∧
      (x.session.queue = y.session.queue → (∃ tick, (w.advance i).2 = some (.ok tick)) →
        y'.mail = []) := by
  obtain ⟨y₁, hy₁, hlook⟩ := hw.unmoved_look hx hy hij hq
  obtain ⟨z', hz', hze, hzb, -⟩ := hw.drained hy
  obtain rfl := Option.some.inj (hz'.symm.trans hz)
  have hears := (lenient_hears j y₁.session.token y₁.session.queue).advance
    (hears_drain j _ _) (reacts_hears _ _ hij).observers (hears_started _ _) w
  have hfares := hears.fares ((hw.look i).posted hy₁)
  obtain ⟨y', hy'⟩ := hfares.stage hy₁
  refine ⟨y', hy', hfares.worked hears.wanes hy₁ hy' hlook hze hzb, ?_⟩
  rintro hshared ⟨tick, hok⟩
  rw [hears.wanes.mail hy₁ hy']
  exact hw.emptied hx hij hy₁ (hshared.trans (congrArg Session.queue hlook.session).symm) hok

/-! ### Two sessions -/

/-- In every run, for every two sessions of which the one does not have the other's queue to
itself: whatever is asked of the one, a tick apart, and whatever the engine does for it, leaves
the other as it was, with its pipeline, its binding and all that waits for it in order; a tick of
the one leaves the other alone, or does to it exactly what a drain of the other's queue would do,
which tells it of all that waits for it, in order, unless a program closes the queue before that;
and if only sessions take references, the engine runs and is not shut down as long as the other
holds its lease. -/
theorem neighbours_apart (h₀ : Fresh w₀) (hnew : w₀.host.queues = {}) (as : List Action)
    (hij : i ≠ j) (hx : (w₀.run as).stage? i = some x) (hy : (w₀.run as).stage? j = some y)
    (hq : x.session.ownsQueue = true → x.session.queue ≠ y.session.queue) :
    (∀ a, (w₀.run as).Of i a →
      ∃ y', ((w₀.run as).apply a).stage? j = some y' ∧ y.Unmoved y') ∧
    (∃ z y', (drain (w₀.run as) y.session.queue).1.stage? j = some z ∧
      z.estate = y.estate.toldAll y.mail ∧ z.binding = y.binding ∧
      ((w₀.run as).apply (.tick i)).stage? j = some y' ∧ y.Worked z y' ∧
      (x.session.queue = y.session.queue →
        (∃ tick, ((w₀.run as).advance i).2 = some (.ok tick)) → y'.mail = [])) ∧
    ((∀ a ∈ as, a.isLeased = true) → y.session.lease.isSome = true →
      (w₀.run as).host.context.isActive = true ∧
      ∀ a, a = .tick i ∨ (w₀.run as).Of i a →
        ((w₀.run as).apply a).host.context.isActive = true ∧
        ((w₀.run as).apply a).host.engine.shutDownCount =
          (w₀.run as).host.engine.shutDownCount) := by
  have hw : (w₀.run as).Tidy := (h₀.tidy hnew).run as
  have hunmoved : ∀ a, (w₀.run as).Of i a →
      ∃ y', ((w₀.run as).apply a).stage? j = some y' ∧ y.Unmoved y' :=
    fun a ha => hw.unmoved_of hx hy hij hq ha
  obtain ⟨z, hz, hze, hzb, -⟩ := hw.drained hy
  obtain ⟨y', hy', hworked, hall⟩ := hw.ticked hx hy hij hq hz
  refine ⟨hunmoved, ⟨z, y', hz, hze, hzb, hy', hworked, hall⟩, fun hleased hl => ?_⟩
  refine ⟨h₀.isActive_run hleased hy hl, fun a ha => ?_⟩
  -- the other session holds its lease after the action as well
  have hkeeps : a.isLeased = true ∧ ∃ y₁, ((w₀.run as).apply a).stage? j = some y₁ ∧
      y₁.session.wiring = y.session.wiring := by
    rcases ha with rfl | ha
    · refine ⟨rfl, y', hy', ?_⟩
      have hwir := wirings_of_stage hy'
      change ((w₀.run as).advance i).1.books.wirings.get? j = _ at hwir
      rw [hw.sound.books_advance, wirings_of_stage hy] at hwir
      exact (Option.some.inj hwir).symm
    · obtain ⟨y₁, hy₁, hsame⟩ := hunmoved a ha
      exact ⟨ha.isLeased, y₁, hy₁, congrArg Session.wiring hsame.session⟩
  obtain ⟨hla, y₁, hy₁, hwir⟩ := hkeeps
  have hrun : (w₀.run as).apply a = w₀.run (as ++ [a]) := (run_append w₀ as [a]).symm
  refine ⟨?_, (h₀.orderly.run hleased).shutDownCount_apply hla hy hl hy₁ hwir⟩
  rw [hrun] at hy₁ ⊢
  refine h₀.isActive_run (fun c hc => ?_) hy₁ ?_
  · rcases List.mem_append.mp hc with hc | hc
    · exact hleased c hc
    · obtain rfl := List.mem_singleton.mp hc
      exact hla
  · rw [show y₁.session.lease = y.session.lease from congrArg Wiring.lease hwir]
    exact hl

/-- Two sessions on one queue, both up; the second one encodes, and its failure waits. -/
def sharing : List Action :=
  [.newSession 0 1 {} (.outline ⟨1, 1⟩), .newSession 1 2 {} (.outline ⟨1, 1⟩),
    .command 0 (.share 7), .command 1 (.share 7), .command 0 .bringUp, .command 1 .bringUp,
    .command 1 (.setupEncoding ⟨"out.mp4", ⟨4, 2⟩⟩), .callback ⟨1, .finished⟩,
    .callback ⟨2, .failed "disk full"⟩]

/-- A tick of the first session tells the second one that it failed. -/
theorem failure_heard_from_neighbour :
    ∃ y y', (slow.run sharing).stage? 1 = some y ∧ y.mail = [.failed "disk full"] ∧
      ((slow.run sharing).apply (.tick 0)).stage? 1 = some y' ∧ y'.mail = [] ∧
      y'.estate = y.estate.toldAll [.failed "disk full"] ∧
      ((slow.run sharing).apply (.tick 0)).host.context.isActive = true := by
  obtain ⟨x, hx⟩ := Option.isSome_iff_exists.mp (by decide :
    ((slow.run sharing).stage? 0).isSome = true)
  obtain ⟨y, hy⟩ := Option.isSome_iff_exists.mp (by decide :
    ((slow.run sharing).stage? 1).isSome = true)
  have hqueue : ((slow.run sharing).stage? 0).map (fun s =>
      (s.session.ownsQueue, s.session.queue)) = some (false, 7) := by decide
  have hmail : ((slow.run sharing).stage? 1).map (fun s =>
      (s.mail, s.session.queue, s.session.lease.isSome)) =
        some ([.failed "disk full"], 7, true) := by decide
  rw [hx] at hqueue
  rw [hy] at hmail
  obtain ⟨hown, hx7⟩ := Prod.mk.inj (Option.some.inj hqueue)
  obtain ⟨hwaits, hrest⟩ := Prod.mk.inj (Option.some.inj hmail)
  obtain ⟨hy7, hlease⟩ := Prod.mk.inj hrest
  have htick : ((slow.run sharing).advance 0).2 = some (.ok ⟨.idle, 2⟩) := ticked (by decide)
  have hopen : (((slow.run sharing).apply (.tick 0)).stage? 1).map (·.isDeaf) = some false := by
    decide
  obtain ⟨-, ⟨z, y', -, hze, -, hy', hworked, hall⟩, hup⟩ :=
    neighbours_apart fresh_slow rfl sharing (by decide) hx hy fun ho => by
      rw [hown] at ho
      cases ho
  have hempty := hall (hx7.trans hy7.symm) ⟨_, htick⟩
  refine ⟨y, y', hy, hwaits, hy', hempty, ?_, ((hup (by decide) hlease).2 _ (.inl rfl)).1⟩
  cases hworked with
  | still h => cases hempty.symm.trans (h.mail.trans hwaits)
  | drained he _ _ => rw [he, hze, hwaits]
  | closed _ _ hc _ =>
      rw [hy'] at hopen
      cases hc.symm.trans (Option.some.inj hopen)

end World
end MediaHost
