import MediaHost.Proofs.Home

/-!
# Proofs — Hearing

What the running of queued work does to one session.  Of all that waits on all queues, only the
events for the session's own number concern it, and they wait on one queue (`Posted`).  A drain,
however deep it nests others, runs none of them or all of them in order (`Fares`), and each of
them does the same to the session and its pipeline whoever drains the queue (`Estate.told`).
-/

namespace MediaHost

/-! ### A session that is told of an event -/

/-- A session, and its pipeline. -/
@[ext]
structure Estate where
  session : Session
  pipeline : Option Pipeline

def Stage.estate (s : Stage) : Estate where
  session := s.session
  pipeline := s.session.pipeline.bind fun h => s.host.engine.pipelines.get? h.id

def World.estate? (w : World) (i : Nat) : Option Estate := (w.stage? i).map Stage.estate

namespace Observers
variable {α : Type}

theorem of_set (o : Observers α) (topic : Topic) (l : List α) : (o.set topic l).of topic = l := by
  cases topic <;> rfl

theorem set_set (o : Observers α) (topic : Topic) (l l' : List α) :
    (o.set topic l).set topic l' = o.set topic l' := by
  cases topic <;> rfl

end Observers

/-- The observers of a topic, called once more. -/
def Observers.called (o : Observers Observer) (topic : Topic) : Observers Observer :=
  o.set topic ((o.of topic).map fun x => { x with calls := x.calls + 1 })

namespace Estate

/-- The observers of a topic are called. -/
def notified (topic : Topic) (x : Estate) : Estate :=
  { x with session := { x.session with observers := x.session.observers.called topic } }

def accounted (e : Event) (x : Estate) : Estate :=
  { x with session := { x.session with health := x.session.health.record e } }

/-- Media that loops goes back to its start. -/
def rewound (x : Estate) : Estate :=
  if x.session.status.looping && !x.session.phase.isDestroyed then
    { x with pipeline := x.pipeline.map (·.setPosition .zero) }
  else x

/-- Whatever is set up is stopped. -/
def halted (x : Estate) : Estate :=
  if x.session.phase.isConfigured then
    { session := { x.session with status := { x.session.status with phase := .stopped } }
      pipeline := x.pipeline.map (·.stop) }
  else x

/-- The session after it was told of an event. -/
def told (x : Estate) (e : Event) : Estate :=
  match e with
  | .finished => ((x.accounted e).notified .finish).rewound
  | .failed _ => (x.accounted e).halted.notified .error
  | .quality _ => (x.accounted e).notified .quality

def toldAll (x : Estate) (es : List Event) : Estate := es.foldl told x

end Estate

namespace World
variable {w w₁ w' : World} {i j p q t : Nat} {s x : Stage} {token : Option Nat} {d : Drain}

theorem estate?_eq (hs : w.stage? i = some s) : w.estate? i = some s.estate := by
  simp only [estate?, hs, Option.map_some]

/-- The session and its pipeline are as before. -/
theorem estate?_congr (hs : w'.sessions.get? i = w.sessions.get? i)
    (hp : ∀ s h, w.stage? i = some s → s.session.pipeline = some h →
      w'.host.engine.pipelines.get? h.id = w.host.engine.pipelines.get? h.id) :
    w'.estate? i = w.estate? i := by
  simp only [estate?, stage?, hs]
  cases hx : w.sessions.get? i with
  | none => rfl
  | some x =>
      refine congrArg some (Estate.ext rfl ?_)
      have hstage : w.stage? i = some ⟨i, x, w.host⟩ := stage?_eq_some.mpr ⟨rfl, hx, rfl⟩
      simp only [Stage.estate]
      cases hpx : x.pipeline with
      | none => rfl
      | some h => exact hp _ h hstage hpx

theorem estate?_onHost {f : Host → Host}
    (hf : (f w.host).engine.pipelines = w.host.engine.pipelines) :
    (w.onHost f).estate? i = w.estate? i :=
  estate?_congr rfl fun _ h _ _ => congrArg (·.get? h.id) hf

theorem estate?_modifySession_of_ne (w : World) (hij : j ≠ i) (f : Session → Session) :
    (w.modifySession j f).estate? i = w.estate? i := by
  refine estate?_congr ?_ fun _ _ _ _ => rfl
  rw [get?_modifySession, if_neg hij]

/-- A change of the session that leaves it its pipeline. -/
theorem estate?_modifySession (w : World) (i : Nat) {f : Session → Session}
    (hf : ∀ x, (f x).pipeline = x.pipeline) :
    (w.modifySession i f).estate? i =
      (w.estate? i).map fun x => { x with session := f x.session } := by
  simp only [estate?, stage?, get?_modifySession, if_true, Option.map_map]
  refine Option.map_congr fun x _ => Estate.ext rfl ?_
  simp only [Function.comp_apply, Stage.estate, hf]
  rfl

/-- The pipelines of two sessions are two. -/
theorem Sound.apart (hw : w.Sound) (hs : w.stage? i = some s) (hx : w.stage? j = some x)
    (hij : j ≠ i) {h g : Handle} (hh : s.session.pipeline = some h)
    (hg : x.session.pipeline = some g) : g.id ≠ h.id := by
  obtain ⟨t, hwir⟩ := hw.wiring_of_pipeline hs hh
  obtain ⟨u, hwir'⟩ := hw.wiring_of_pipeline hx hg
  exact (hw.books.apart (hwir' ▸ wirings_of_stage hx) (hwir ▸ wirings_of_stage hs) hij).1

/-- What is asked of another session's pipeline. -/
theorem Sound.estate_tell (hw : w.Sound) (hij : j ≠ i) {y : Session} {g : Handle}
    (hy : w.sessions.get? j = some y) (hg : y.pipeline = some g) {f : Engine → Engine}
    {k : Pipeline → Pipeline} (ha : Engine.Alters g.id k w.host.engine (f w.host.engine)) :
    (w.onHost (·.tell f)).estate? i = w.estate? i := by
  refine estate?_congr rfl fun s h hs hh => ?_
  have hx : w.stage? j = some ⟨j, y, w.host⟩ := stage?_eq_some.mpr ⟨rfl, hy, rfl⟩
  exact ((Host.alters_tell ha).pipeline h.id).trans (if_neg (hw.apart hs hx hij hh hg))

/-- Another session's media that loops changes nothing of this one. -/
theorem Sound.estate_loopBack (hw : w.Sound) (hij : j ≠ i) :
    (loopBack j w).estate? i = w.estate? i := by
  simp only [loopBack]
  split
  · rfl
  · next y hy =>
      split
      · next g hg =>
          split
          · exact hw.estate_tell hij hy hg (Engine.alters_setPosition .zero)
          · rfl
      · rfl

/-- Nor does another session that stops after an error. -/
theorem Sound.estate_stopFailed (hw : w.Sound) (hij : j ≠ i) :
    (stopFailed j w).estate? i = w.estate? i := by
  simp only [stopFailed]
  split
  · rfl
  · next y hy =>
      split
      · rw [estate?_modifySession_of_ne _ hij]
        split
        · next g hg => exact hw.estate_tell hij hy hg Engine.alters_stop
        · rfl
      · rfl

/-! ### The session's own part -/

/-- What is asked of the session's own pipeline. -/
theorem estate_tell_own (hs : w.stage? i = some s) {h : Handle}
    (hh : s.session.pipeline = some h) {f : Engine → Engine} {k : Pipeline → Pipeline}
    (ha : Engine.Alters h.id k w.host.engine (f w.host.engine)) :
    (w.onHost (·.tell f)).estate? i =
      (w.estate? i).map fun x => { x with pipeline := x.pipeline.map k } := by
  obtain ⟨hi, hget, hhost⟩ := stage?_eq_some.mp hs
  have hs' : (w.onHost (·.tell f)).stage? i = some { s with host := w.host.tell f } :=
    stage?_eq_some.mpr ⟨hi, hget, rfl⟩
  rw [estate?_eq hs, estate?_eq hs', Option.map_some]
  refine congrArg some (Estate.ext rfl ?_)
  simp only [Stage.estate, hh, Option.bind_some, hhost]
  exact ((Host.alters_tell ha).pipeline h.id).trans (if_pos rfl)

/-- A session that loops is rewound. -/
theorem estate_loopBack_own (w : World) (i : Nat) :
    (loopBack i w).estate? i = (w.estate? i).map Estate.rewound := by
  cases hs : w.stage? i with
  | none =>
      simp only [loopBack, sessions_of_none hs, estate?, hs, Option.map_none]
  | some s =>
      obtain ⟨-, hget, -⟩ := stage?_eq_some.mp hs
      cases hh : s.session.pipeline with
      | none =>
          simp only [loopBack, hget, hh, estate?_eq hs, Option.map_some, Estate.rewound,
            Stage.estate, Option.bind_none, Option.map_none, ite_self]
      | some h =>
          simp only [loopBack, hget, hh]
          by_cases hc : (s.session.status.looping && !s.session.phase.isDestroyed) = true
          · rw [if_pos hc, estate_tell_own hs hh (Engine.alters_setPosition .zero), estate?_eq hs]
            simp only [Option.map_some, Estate.rewound]
            rw [if_pos (show (s.estate.session.status.looping &&
              !s.estate.session.phase.isDestroyed) = true from hc)]
          · rw [if_neg hc, estate?_eq hs]
            simp only [Option.map_some, Estate.rewound]
            rw [if_neg (show ¬(s.estate.session.status.looping &&
              !s.estate.session.phase.isDestroyed) = true from hc)]

/-- A session that stops after an error is halted. -/
theorem estate_stopFailed_own (w : World) (i : Nat) :
    (stopFailed i w).estate? i = (w.estate? i).map Estate.halted := by
  cases hs : w.stage? i with
  | none =>
      simp only [stopFailed, sessions_of_none hs, estate?, hs, Option.map_none]
  | some s =>
      obtain ⟨-, hget, -⟩ := stage?_eq_some.mp hs
      simp only [stopFailed, hget]
      by_cases hc : s.session.phase.isConfigured = true
      · have hhalt : Estate.halted s.estate =
            { session := { s.session with status := { s.session.status with phase := .stopped } }
              pipeline := s.estate.pipeline.map (·.stop) } := if_pos hc
        rw [if_pos hc, estate?_modifySession _ i (fun _ => ?_), estate?_eq hs, Option.map_some,
          hhalt]
        · cases hh : s.session.pipeline with
          | none =>
              rw [estate?_eq hs]
              refine congrArg some (Estate.ext rfl ?_)
              simp only [Stage.estate, hh, Option.bind_none, Option.map_none]
          | some h =>
              dsimp only
              rw [estate_tell_own hs hh Engine.alters_stop, estate?_eq hs]
              rfl
        · rfl
      · have hhalt : Estate.halted s.estate = s.estate := if_neg hc
        rw [if_neg hc, estate?_eq hs, Option.map_some, hhalt]

/-! ### Where the session's events wait -/

/-- The session has the number `token`, nobody else has, and all that waits for it waits on the
queue `q`. -/
structure Posted (i : Nat) (token : Option Nat) (q : Nat) (w : World) : Prop where
  sound : w.Sound
  here : (w.address i).map Prod.fst = some token
  owner : ∀ {t y}, w.host.arena.resolve t = some y → y.target = .session i → token = some t
  stray : ∀ p, p ≠ q → w.host.mail token p = []

/-- A session stays posted as long as no other queue has mail for it. -/
theorem Posted.of_stray (hP : w.Posted i token q) (hs : w'.Sound)
    (ha : w'.host.arena = w.host.arena) (haddr : w'.address i = w.address i)
    (hm : ∀ p, p ≠ q → w'.host.mail token p = []) : w'.Posted i token q :=
  ⟨hs, haddr ▸ hP.here, ha ▸ hP.owner, hm⟩

/-- Without mail, no delivery to the number is pending. -/
theorem mail_eq_nil {a : Host} :
    a.mail token q = [] ↔ ∀ t e, token = some t → .deliver t e ∉ (a.queue q).pending := by
  simp only [Host.mail, List.filterMap_eq_nil_iff]
  refine ⟨fun h t e ht hm => ?_, fun h job hm => ?_⟩
  · have hn := h _ hm
    simp only [Job.letter?, ht, if_true] at hn
    cases hn
  · cases job with
    | run program => rfl
    | deliver t e => exact if_neg fun ht => h t e ht hm

/-- Work leaves everything where it waits. -/
theorem Posted.work (hP : w.Posted i token q) (hl : Leads w w') (hw : Wanes w w') :
    w'.Posted i token q := by
  refine hP.of_stray (hl.sound hP.sound).2 hw.host.arena (hw.address i) fun p hp => ?_
  refine mail_eq_nil.mpr fun t e ht hm => ?_
  exact mail_eq_nil.mp (hP.stray p hp) t e ht ((hw.host.queue p).letters hm)

/-- A drain that begins takes what waits on its queue. -/
theorem Posted.begin (hP : w.Posted i token q) {jobs : List Job} {y : EventQueue Job}
    (hb : (w.host.queue p).begin = .batch jobs y) :
    (w.onHost (·.modifyQueue p fun _ => y)).Posted i token q := by
  refine hP.of_stray (hP.sound.same (Host.same_modifyQueue p _)).2 rfl rfl fun p' hp' => ?_
  simp only [onHost, Host.mail, Host.queue_modifyQueue_eq]
  split
  · rw [(EventQueue.batch_begin hb).2.2]
    rfl
  · exact hP.stray p' hp'

/-- A number that the session has finds it. -/
theorem Posted.resolve (hP : w.Posted i token q) (ht : token = some t) :
    ∃ y, w.host.arena.resolve t = some y ∧ y.target = .session i := by
  obtain ⟨⟨tok, queue⟩, haddr, htok⟩ := Option.map_eq_some_iff.mp hP.here
  obtain ⟨x, hx, hxa⟩ := Option.map_eq_some_iff.mp haddr
  obtain ⟨rfl, rfl⟩ := Prod.mk.inj hxa
  have hs : w.stage? i = some ⟨i, x, w.host⟩ := stage?_eq_some.mpr ⟨rfl, hx, rfl⟩
  obtain ⟨h, hwir⟩ := (hP.sound.attached hs).of_token (v := x.wiring) (htok.trans ht)
  have hget := (hwir ▸ hP.sound.attached hs).of_up.2
  have hsome : (w.host.arena.resolve t).isSome = true := by
    rw [Host.isSome_resolve, hget]
    rfl
  obtain ⟨y, hy⟩ := Option.isSome_iff_exists.mp hsome
  have htarget := (Host.bindings_of_resolve hy).symm.trans hget
  exact ⟨y, hy, (Prod.mk.inj (Option.some.inj htarget)).1⟩

/-! ### How the session fares -/

/-- How a session fares when work is run: nothing of it, of its queue and of what waits for it
changes, or what waits for it is lost as its queue is closed, or it is told of all that waits for
it. -/
inductive Fares (i : Nat) (token : Option Nat) (q : Nat) (w w' : World) : Prop
  | still (he : w'.estate? i = w.estate? i)
    (hc : (w'.host.queue q).closed = (w.host.queue q).closed)
    (hm : w'.host.mail token q = w.host.mail token q)
  | lost (he : w'.estate? i = w.estate? i) (hc : (w'.host.queue q).closed = true)
    (hm : w'.host.mail token q = [])
  | heard (he : w'.estate? i = (w.estate? i).map (·.toldAll (w.host.mail token q)))
    (hm : w'.host.mail token q = [])

theorem map_toldAll_nil (x : Option Estate) : x.map (·.toldAll []) = x := by
  cases x <;> rfl

/-- Where nothing waits for a session, nothing happens to it. -/
theorem Fares.of_nil (h : Fares i token q w w') (hm : w.host.mail token q = []) :
    w'.estate? i = w.estate? i ∧ w'.host.mail token q = [] := by
  cases h with
  | still he _ hm' => exact ⟨he, hm'.trans hm⟩
  | lost he _ hm' => exact ⟨he, hm'⟩
  | heard he hm' =>
      rw [hm, map_toldAll_nil] at he
      exact ⟨he, hm'⟩

theorem Fares.trans (h₁ : Fares i token q w w₁) (h₂ : Fares i token q w₁ w')
    (hc : (w₁.host.queue q).closed = true → (w'.host.queue q).closed = true) :
    Fares i token q w w' := by
  cases h₁ with
  | still he hsame hm =>
      cases h₂ with
      | still he' hsame' hm' => exact .still (he'.trans he) (hsame'.trans hsame) (hm'.trans hm)
      | lost he' hc' hm' => exact .lost (he'.trans he) hc' hm'
      | heard he' hm' => exact .heard (by rw [he', he, hm]) hm'
  | lost he hc₁ hm =>
      obtain ⟨he', hm'⟩ := h₂.of_nil hm
      exact .lost (he'.trans he) (hc hc₁) hm'
  | heard he hm =>
      obtain ⟨he', hm'⟩ := h₂.of_nil hm
      exact .heard (he'.trans he) hm'

theorem mail_congr {a b : Host} (h : b.queue q = a.queue q) : b.mail token q = a.mail token q := by
  simp only [Host.mail, h]

theorem Fares.of_queue (he : w'.estate? i = w.estate? i)
    (hq : w'.host.queue q = w.host.queue q) : Fares i token q w w' :=
  .still he (congrArg EventQueue.closed hq) (mail_congr hq)

/-- A change of some queue that neither closes it nor takes events from it. -/
theorem fares_modifyQueue {f : EventQueue Job → EventQueue Job} (w : World) (p : Nat)
    (hc : ∀ x, (f x).closed = x.closed)
    (hm : ∀ x : EventQueue Job, (f x).pending.filterMap (Job.letter? token) =
      x.pending.filterMap (Job.letter? token)) :
    Fares i token q w (w.onHost (·.modifyQueue p f)) := by
  refine .still (estate?_onHost rfl) ?_ (Host.mail_modifyQueue hm)
  simp only [onHost, Host.queue_modifyQueue_eq]
  split
  · exact hc _
  · rfl

/-- Work, as the session sees it. -/
structure Hears (i : Nat) (token : Option Nat) (q : Nat) (w w' : World) : Prop where
  leads : Leads w w'
  wanes : Wanes w w'
  fares : w.Posted i token q → Fares i token q w w'

/-- A program that runs while the queue is drained lets the session hear its own mail. -/
theorem lenient_hears (i : Nat) (token : Option Nat) (q : Nat) : Lenient (Hears i token q) where
  refl w := ⟨.refl w, lenient_wanes.refl w, fun _ => .of_queue rfl rfl⟩
  trans h₁ h₂ :=
    { leads := h₁.leads.trans h₂.leads
      wanes := lenient_wanes.trans h₁.wanes h₂.wanes
      fares hP :=
        (h₁.fares hP).trans (h₂.fares (hP.work h₁.leads h₁.wanes)) (h₂.wanes.host.queue q).closed }
  record w x hx := by
    refine ⟨lenient_leads.record w hx, lenient_wanes.record w hx, fun _ => ?_⟩
    exact .of_queue (estate?_onHost rfl) rfl
  note w n hn := by
    refine ⟨lenient_leads.note w hn, lenient_wanes.note w hn, fun _ => ?_⟩
    exact .of_queue (estate?_onHost rfl) rfl
  submit w p program := by
    refine ⟨lenient_leads.submit w p program, lenient_wanes.submit w p program, fun _ => ?_⟩
    exact fares_modifyQueue w p (EventQueue.closed_submit · _) (EventQueue.letters_submit rfl)
  close w p := by
    refine ⟨lenient_leads.close w p, lenient_wanes.close w p, fun _ => ?_⟩
    have he : (w.onHost (·.modifyQueue p (·.close))).estate? i = w.estate? i := estate?_onHost rfl
    by_cases hp : p = q
    · obtain rfl := hp
      refine .lost he ?_ ?_
      · simp only [onHost, Host.queue_modifyQueue]
        rfl
      · simp only [onHost, Host.mail, Host.queue_modifyQueue]
        rfl
    · exact .of_queue he (Host.queue_modifyQueue_of_ne w.host hp _)

theorem queue_loopBack (j : Nat) (w : World) :
    (loopBack j w).host.queue q = w.host.queue q := by
  obtain ⟨e, he⟩ := host_loopBack j w
  rw [he]
  rfl

theorem queue_stopFailed (j : Nat) (w : World) :
    (stopFailed j w).host.queue q = w.host.queue q := by
  obtain ⟨e, he⟩ := host_stopFailed j w
  rw [he]
  rfl

/-- What another session does when it is told of an event. -/
theorem reacts_hears (token : Option Nat) (q : Nat) (hij : j ≠ i) :
    Reacts (Hears i token q) j where
  observers w o := by
    refine ⟨(reacts_leads j).observers w o, (reacts_wanes j).observers w o, fun _ => ?_⟩
    exact .of_queue (estate?_modifySession_of_ne w hij _) rfl
  account w e := by
    refine ⟨(reacts_leads j).account w e, (reacts_wanes j).account w e, fun _ => ?_⟩
    exact .of_queue (estate?_modifySession_of_ne w hij _) rfl
  loopBack w := by
    refine ⟨(reacts_leads j).loopBack w, (reacts_wanes j).loopBack w, fun hP => ?_⟩
    exact .of_queue (hP.sound.estate_loopBack hij) (queue_loopBack j w)
  stopFailed w := by
    refine ⟨(reacts_leads j).stopFailed w, (reacts_wanes j).stopFailed w, fun hP => ?_⟩
    exact .of_queue (hP.sound.estate_stopFailed hij) (queue_stopFailed j w)

/-! ### The session is told -/

/-- Whatever the observers do, each of them was called once more. -/
theorem callAll_fst (d : Drain) (occasion : Occasion) (l : List Observer) (w : World) :
    (Observers.callAll (callObserver d occasion) l w).1 =
      l.map fun o => { o with calls := o.calls + 1 } := by
  induction l generalizing w with
  | nil => rfl
  | cons o l ih =>
      have hfst : (callObserver d occasion o w).1 = { o with calls := o.calls + 1 } := by
        simp only [callObserver]
        split <;> rfl
      simp only [Observers.callAll, List.map_cons, ih, hfst]

theorem observersOf_eq {e : Estate} (he : w.estate? i = some e) :
    observersOf i w = e.session.observers := by
  obtain ⟨s, hs, rfl⟩ := Option.map_eq_some_iff.mp he
  simp only [observersOf, (stage?_eq_some.mp hs).2.1, Option.map_some, Option.getD_some]
  rfl

/-- The session was told of some events in order, and nothing waits for it. -/
structure Told (i : Nat) (token : Option Nat) (q : Nat) (f : Estate → Estate) (w w' : World) :
    Prop where
  leads : Leads w w'
  wanes : Wanes w w'
  estate : w'.estate? i = (w.estate? i).map f
  mail : w'.host.mail token q = []

theorem Told.trans {f g : Estate → Estate} (h₁ : Told i token q f w w₁)
    (h₂ : Told i token q g w₁ w') : Told i token q (g ∘ f) w w' where
  leads := h₁.leads.trans h₂.leads
  wanes := lenient_wanes.trans h₁.wanes h₂.wanes
  estate := by rw [h₂.estate, h₁.estate, Option.map_map]
  mail := h₂.mail

/-- Two ways of telling are one if the session is told the same. -/
theorem Told.congr {f g : Estate → Estate} (h : Told i token q f w w')
    (hfg : ∀ x, w.estate? i = some x → f x = g x) : Told i token q g w w' :=
  ⟨h.leads, h.wanes, h.estate.trans (Option.map_congr hfg), h.mail⟩

/-- Work while nothing waits for the session. -/
theorem Hears.told (h : Hears i token q w w') (hP : w.Posted i token q)
    (hm : w.host.mail token q = []) : Told i token q id w w' where
  leads := h.leads
  wanes := h.wanes
  estate := ((h.fares hP).of_nil hm).1.trans (congrFun Option.map_id (w.estate? i)).symm
  mail := ((h.fares hP).of_nil hm).2

/-- A session that was told something is still posted. -/
theorem Posted.told {f : Estate → Estate} (hP : w.Posted i token q) (h : Told i token q f w w') :
    w'.Posted i token q := hP.work h.leads h.wanes

section
variable (hm : w.host.mail token q = [])
include hm

/-- A change of the session that only it knows of. -/
theorem told_modifySession {f : Session → Session} (hl : Leads w (w.modifySession i f))
    (hw : Wanes w (w.modifySession i f)) (hf : ∀ x, (f x).pipeline = x.pipeline) :
    Told i token q (fun x => { x with session := f x.session }) w (w.modifySession i f) :=
  ⟨hl, hw, estate?_modifySession w i hf, hm⟩

/-- The account is kept before anyone is told. -/
theorem told_account (e : Event) : Told i token q (·.accounted e) w
    (w.modifySession i fun s => { s with health := s.health.record e }) :=
  told_modifySession hm ((reacts_leads i).account w e) ((reacts_wanes i).account w e)
    fun _ => rfl

theorem told_observers (o : Observers Observer) :
    Told i token q (fun x => { x with session := { x.session with observers := o } }) w
      (setObservers i o w) :=
  told_modifySession hm ((reacts_leads i).observers w o) ((reacts_wanes i).observers w o)
    fun _ => rfl

/-- What a session asks of the engine leaves the queues as they are. -/
theorem told_loopBack : Told i token q Estate.rewound w (loopBack i w) where
  leads := (reacts_leads i).loopBack w
  wanes := (reacts_wanes i).loopBack w
  estate := estate_loopBack_own w i
  mail := (mail_congr (queue_loopBack i w)).trans hm

/-- An error halts the session. -/
theorem told_stopFailed : Told i token q Estate.halted w (stopFailed i w) where
  leads := (reacts_leads i).stopFailed w
  wanes := (reacts_wanes i).stopFailed w
  estate := estate_stopFailed_own w i
  mail := (mail_congr (queue_stopFailed i w)).trans hm

variable (hd : ∀ w q', Hears i token q w (d w q').1) (hP : w.Posted i token q)
include hd hP

/-- The observers of the session are called; whatever they do, it stays as it is otherwise. -/
theorem told_notify (event : Event) :
    Told i token q (·.notified (Occasion.event event).topic) w (notify d i (.event event) w) := by
  generalize htopic : (Occasion.event event).topic = topic
  have htake : Told i token q _ w (setObservers i ((observersOf i w).set topic []) w) :=
    told_observers hm _
  have hrecord : ∀ w label n, Hears i token q w (w.record (.observed label n (.event event))) :=
    fun w _ _ => (lenient_hears i token q).record w rfl
  have hcalls := ((lenient_hears i token q).callAll hd hrecord ((observersOf i w).of topic)
    (setObservers i ((observersOf i w).set topic []) w)).told (hP.told htake) htake.mail
  have hback := fun o => (htake.trans hcalls).trans (told_observers hcalls.mail o)
  simp only [notify, Observers.notify, htopic, callAll_fst]
  refine (hback _).congr fun x hx => ?_
  -- while its observers were called, the session had none of this topic
  have hx₁ := (htake.trans hcalls).estate
  rw [hx, Option.map_some] at hx₁
  rw [observersOf_eq hx₁, observersOf_eq hx]
  simp only [Function.comp_apply, id, Observers.of_set, Observers.set_set, List.append_nil]
  rfl

/-- To react to an event is to be told of it. -/
theorem told_react (e : Event) : Told i token q (·.told e) w (react d i e w) := by
  have hacc : Told i token q (·.accounted e) w _ := told_account hm e
  have hP₁ := hP.told hacc
  cases e with
  | finished =>
      have hnotify := told_notify hacc.mail hd hP₁ .finished
      exact (hacc.trans hnotify).trans (told_loopBack hnotify.mail)
  | failed message =>
      have hnote := fun name => ((lenient_hears i token q).note _
        (n := .pipelineFailed name message) rfl).told hP₁ hacc.mail
      have hstop := fun name => told_stopFailed (i := i) (hnote name).mail
      have hnotify := fun name => told_notify (hstop name).mail hd
        ((hP₁.told (hnote name)).told (hstop name)) (.failed message)
      exact ((hacc.trans (hnote _)).trans (hstop _)).trans (hnotify _)
  | quality report => exact hacc.trans (told_notify hacc.mail hd hP₁ (.quality report))

end

/-! ### Drains -/

theorem hears_next (w : World) (p : Nat) :
    Hears i token q w (w.onHost (·.modifyQueue p (·.next))) where
  leads := .one (.queue w p _)
  wanes := .of_host (Host.wanes_modifyQueue w.host p fun _ => ⟨Option.isSome_map, id, id⟩)
  fares _ := fares_modifyQueue w p (fun _ => rfl) fun _ => rfl

theorem estate_queue (w : World) (p : Nat) (f : EventQueue Job → EventQueue Job) :
    (w.onHost (·.modifyQueue p f)).estate? i = w.estate? i :=
  estate?_onHost rfl

section
variable (hd : ∀ w q', Hears i token q w (d w q').1)
include hd

/-- Work that is no event for the session. -/
theorem hears_runJob (p : Nat) {job : Job} (hj : job.letter? token = none) (w : World) :
    Hears i token q w (runJob d p job w).1 := by
  cases job with
  | run program => exact (lenient_hears i token q).perform hd p program w
  | deliver t e =>
      refine ⟨lenient_leads.runJob reacts_leads (fun w q' => (hd w q').leads) p _ w,
        lenient_wanes.runJob reacts_wanes (fun w q' => (hd w q').wanes) p _ w, fun hP => ?_⟩
      simp only [runJob]
      split
      · exact .of_queue rfl rfl
      · next y hy =>
          have hother : ∀ j, y.target = .session j → Reacts (Hears i token q) j := by
            intro j htarget
            refine reacts_hears token q ?_
            rintro rfl
            simp only [Job.letter?, hP.owner hy htarget, if_true] at hj
            cases hj
          exact ((lenient_hears i token q).tell hd hother e w).fares hP

/-- A piece of work, of which the session is told if it is an event for it. -/
theorem told_runJob (hP : w.Posted i token q) (hm : w.host.mail token q = []) (p : Nat)
    (job : Job) :
    Told i token q (·.toldAll (job.letter? token).toList) w (runJob d p job w).1 := by
  cases hj : job.letter? token with
  | none => exact ((hears_runJob hd p hj w).told hP hm).congr fun _ _ => rfl
  | some e =>
      cases job with
      | run program => cases hj
      | deliver t e' =>
          simp only [Job.letter?] at hj
          split at hj
          · next ht =>
              obtain rfl := Option.some.inj hj
              obtain ⟨y, hy, htarget⟩ := hP.resolve ht
              simp only [runJob, hy, tell, htarget]
              exact told_react hm hd hP e'
          · cases hj

/-- A batch tells the session of its letters, in their order. -/
theorem told_runBatch (hP : w.Posted i token q) (hm : w.host.mail token q = []) (p : Nat)
    (jobs : List Job) :
    Told i token q (·.toldAll (jobs.filterMap (Job.letter? token))) w (runBatch d p jobs w) := by
  induction jobs generalizing w with
  | nil => exact ((lenient_hears i token q).refl w).told hP hm
  | cons job rest ih =>
      have hnext : Told i token q id w _ := (hears_next w p).told hP hm
      have hjob : Told i token q (·.toldAll (job.letter? token).toList) w _ :=
        hnext.trans (told_runJob hd (hP.told hnext) hnext.mail p job)
      have hsplit : ∀ x : Estate, x.toldAll ((job :: rest).filterMap (Job.letter? token)) =
          (x.toldAll (job.letter? token).toList).toldAll (rest.filterMap (Job.letter? token)) := by
        intro x
        cases hj : job.letter? token with
        | none => rw [List.filterMap_cons_none hj]; rfl
        | some e => rw [List.filterMap_cons_some hj]; rfl
      have hrest : ∀ {w₁}, Told i token q (·.toldAll (job.letter? token).toList) w w₁ →
          Told i token q (·.toldAll ((job :: rest).filterMap (Job.letter? token))) w
            (runBatch d p rest w₁) := by
        intro w₁ h₁
        exact (h₁.trans (ih (hP.told h₁) h₁.mail)).congr fun x _ => (hsplit x).symm
      simp only [runBatch]
      split
      · next heq =>
          rw [heq] at hjob
          exact hrest hjob
      · next panic heq =>
          rw [heq] at hjob
          have hnote := ((lenient_hears i token q).note _ (n := .workPanicked panic.message)
            rfl).told (hP.told hjob) hjob.mail
          exact hrest (hjob.trans hnote)

theorem leads_drainBy (w : World) (p : Nat) : Leads w (drainBy d w p).1 :=
  lenient_leads.drainBy reacts_leads (fun w q f => .one (.queue w q f))
    (fun w q' => (hd w q').leads) w p

/-- A drain of the session's queue tells it of all that waits for it. -/
theorem told_drainBy (hP : w.Posted i token q) (hidle : (w.host.queue q).running = none) :
    Told i token q (·.toldAll (w.host.mail token q)) w (drainBy d w q).1 := by
  have hgoal : (drainBy d w q).1.estate? i = (w.estate? i).map (·.toldAll (w.host.mail token q)) ∧
      (drainBy d w q).1.host.mail token q = [] := by
    simp only [drainBy]
    split
    · next hbegin =>
        simp only [EventQueue.begin, hidle, Option.isSome_none, Bool.false_eq_true, if_false]
          at hbegin
        split at hbegin <;> cases hbegin
    · next hbegin =>
        have hnil : w.host.mail token q = [] := by
          have hempty : (w.host.queue q).pending = [] := by
            simpa [EventQueue.begin, hidle] using hbegin
          simp only [Host.mail, hempty, List.filterMap_nil]
        rw [hnil, map_toldAll_nil]
        exact ⟨rfl, rfl⟩
    · next jobs y hbegin =>
        obtain ⟨-, hjobs, hy⟩ := EventQueue.batch_begin hbegin
        have hempty : (w.onHost (·.modifyQueue q fun _ => y)).host.mail token q = [] := by
          simp only [onHost, Host.mail, Host.queue_modifyQueue, hy, List.filterMap_nil]
        have hbatch := told_runBatch hd (hP.begin hbegin) hempty q jobs
        refine ⟨?_, ?_⟩
        · rw [estate_queue, hbatch.estate, estate_queue, hjobs]
          rfl
        · rw [← hbatch.mail]
          exact Host.mail_modifyQueue fun _ => rfl
  exact ⟨leads_drainBy hd w q, wanes_drainBy (fun w q' => (hd w q').wanes) w q, hgoal.1, hgoal.2⟩

/-- A drain of any queue lets the session hear its own mail at most. -/
theorem hears_drainBy (w : World) (p : Nat) : Hears i token q w (drainBy d w p).1 := by
  refine ⟨leads_drainBy hd w p, wanes_drainBy (fun w q' => (hd w q').wanes) w p, fun hP => ?_⟩
  by_cases hown : p = q ∧ (w.host.queue q).running = none
  · obtain ⟨rfl, hidle⟩ := hown
    have htold := told_drainBy hd hP hidle
    exact .heard htold.estate htold.mail
  simp only [drainBy]
  split
  · exact ((lenient_hears i token q).note w rfl).fares hP
  · exact .of_queue rfl rfl
  · next jobs y hbegin =>
      obtain ⟨hrun, hjobs, -⟩ := EventQueue.batch_begin hbegin
      have hp : p ≠ q := by
        rintro rfl
        exact hown ⟨rfl, hrun⟩
      -- the drain of another queue begins and ends without the session
      have hother : ∀ (w₁ : World) f, Fares i token q w₁ (w₁.onHost (·.modifyQueue p f)) :=
        fun w₁ f => .of_queue (estate_queue w₁ p f) (Host.queue_modifyQueue_of_ne w₁.host hp f)
      have hnone : ∀ job ∈ jobs, job.letter? token = none := by
        rw [hjobs]
        exact List.filterMap_eq_nil_iff.mp (hP.stray p hp)
      have hbatch : Hears i token q _ (runBatch d p jobs (w.onHost (·.modifyQueue p fun _ => y))) :=
        (lenient_hears i token q).runBatch (fun w => hears_next w p)
          (fun job hjob => hears_runJob hd p (hnone job hjob)) _
      refine (((hother w _).trans (hbatch.fares (hP.begin hbegin))
        (hbatch.wanes.host.queue q).closed).trans (hother _ _)) fun hc => ?_
      simpa only [onHost, Host.queue_modifyQueue_of_ne _ hp] using hc

end

/-- By induction on how deep drains may nest. -/
theorem hears_drainTo (i : Nat) (token : Option Nat) (q depth : Nat) (w : World) (p : Nat) :
    Hears i token q w (drainTo depth w p).1 := by
  induction depth generalizing w p with
  | zero => exact (lenient_hears i token q).refl w
  | succ depth ih => exact hears_drainBy ih w p

/-- However deep a drain nests others, the session is told of nothing that waits for it, or of
all of it. -/
theorem hears_drain (i : Nat) (token : Option Nat) (q : Nat) (w : World) (p : Nat) :
    Hears i token q w (drain w p).1 := hears_drainTo i token q _ w p

/-- The session's own drain. -/
theorem told_drain (hP : w.Posted i token q) (hidle : (w.host.queue q).running = none) :
    Told i token q (·.toldAll (w.host.mail token q)) w (drain w q).1 :=
  told_drainBy (hears_drainTo i token q (w.host.queues.size + 1)) hP hidle

end World
end MediaHost
