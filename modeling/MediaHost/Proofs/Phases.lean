import MediaHost.Proofs.Neighbours
import MediaHost.Proofs.Screen

/-!
# Proofs — Phases

The phase of a session through a run.  A command moves it along the table of moves, part by part
(`Stage.edges_parts`); an event that the session is told of moves it in one way only, a failure
that stops whatever is set up (`Phase.onEvent`).  A look for a frame makes no failure wait
(`World.mail_look`), and queued work tells the session of none or of all that waits for it
(`World.Heeds`); so the phase after any action is known from the phase and the events before it
(`phases_moved`).
-/

namespace MediaHost

/-- The phase after an event: a failure stops what is set up, and nothing else moves it. -/
def Phase.onEvent (p : Phase) : Event → Phase
  | .failed _ => if p.isConfigured then .stopped else p
  | .finished | .quality _ => p

def Event.isFailure : Event → Bool
  | .failed _ => true
  | .finished | .quality _ => false

/-- One failure among the events is enough, and more do no more. -/
theorem Phase.foldl_onEvent (es : List Event) (p : Phase) :
    es.foldl Phase.onEvent p =
      if p.isConfigured && es.any Event.isFailure then .stopped else p := by
  induction es generalizing p with
  | nil => simp
  | cons e es ih =>
      cases e with
      | failed message =>
          cases hp : p.isConfigured
          · simp [Phase.onEvent, hp, ih]
          · simp [Phase.onEvent, hp, ih, Event.isFailure]
      | finished | quality => simp [Phase.onEvent, Event.isFailure, ih]

theorem Phase.foldl_append_onEvent {es : List Event} (hes : ∀ e ∈ es, e.isFailure = false)
    (l : List Event) (p : Phase) :
    (l ++ es).foldl Phase.onEvent p = l.foldl Phase.onEvent p := by
  have hany : es.any Event.isFailure = false := by
    simpa using hes
  simp only [Phase.foldl_onEvent, List.any_append, hany, Bool.or_false]

namespace Estate

theorem phase_told (x : Estate) (e : Event) :
    (x.told e).session.phase = x.session.phase.onEvent e := by
  cases e with
  | finished =>
      simp only [told, rewound]
      split <;> rfl
  | failed message =>
      simp only [told, halted, Phase.onEvent, notified]
      split
      · next hc =>
          rw [if_pos (show x.session.phase.isConfigured = true from hc)]
          rfl
      · next hc =>
          rw [if_neg (show ¬x.session.phase.isConfigured = true from hc)]
          rfl
  | quality report => rfl

theorem phase_toldAll (es : List Event) (x : Estate) :
    (x.toldAll es).session.phase = es.foldl Phase.onEvent x.session.phase := by
  induction es generalizing x with
  | nil => rfl
  | cons e es ih =>
      simp only [toldAll, List.foldl_cons]
      rw [← phase_told]
      exact ih (x.told e)

end Estate

/-! ### Transport -/

/-- What an operation asks of the engine, the latest first; play sets the volume before. -/
def Transport.requests (k : Nat) : Transport → List Request
  | .play => [.call k .play, .call k .setVolume]
  | .pause => [.call k .pause]
  | .stop => [.call k .stop]
  | .close => [.call k .close]

/-- The operation that a command is. -/
def Command.transport? : Command → Option Transport
  | .play => some .play
  | .pause => some .pause
  | .stop => some .stop
  | _ => none

namespace Stage
variable {s s' : Stage} {h : Handle} {op : Transport} {c : Command}

theorem history_transportCalls (h : Handle) (volume : Double) (op : Transport) (e : Engine) :
    (transportCalls h volume op e).history = op.requests h.id ++ e.history := by
  cases op <;> rfl

theorem live_of_isUp (hu : s.reel.isUp = true) (hd : s.session.phase.isDestroyed = false) :
    ∃ h, s.session.live = .ok h := by
  obtain ⟨h, hp⟩ := Option.isSome_iff_exists.mp hu
  exact ⟨h, live_eq_ok.mpr ⟨hd, hp⟩⟩

/-- An operation that applies to a live session reaches the engine once, and the phase is the
one it leads to. -/
theorem transport_carried (hl : s.session.live = .ok h)
    (ha : s.session.phase.after op = some op.target) :
    ∃ s', s.transport op = (s', .ok true) ∧ s'.session.phase = op.target ∧
      s'.session.live = .ok h ∧
      s'.host.engine.history = op.requests h.id ++ s.host.engine.history := by
  rcases transport_cases s op with ⟨e, he, -⟩ | ⟨g, -, hn, -⟩ | ⟨g, hg, -, hs⟩
  · cases he.symm.trans hl
  · cases hn.symm.trans ha
  · obtain rfl := Except.ok.inj (hg.symm.trans hl)
    have hlive := Session.live_of_wiring (keeps_transport s op).wiring
    refine ⟨_, hs, rfl, ?_, history_transportCalls g _ op s.host.engine⟩
    rw [hs] at hlive
    exact hlive.trans hl

/-- Active media of a live session is stopped and then closed, with one request each. -/
theorem close_carried (hl : s.session.live = .ok h) (ha : s.session.phase.isActive = true) :
    ∃ s', s.close = (s', .ok ()) ∧ s'.session.phase = .closed ∧
      s'.host.engine.history =
        .call h.id .close :: .call h.id .stop :: s.host.engine.history := by
  obtain ⟨s₁, hstop, hphase, hl₁, hclose⟩ := close_of_active hl ha
  obtain ⟨s₁', hop, -, -, hhistory⟩ := transport_carried hl (after_stop_of_isActive ha)
  obtain rfl : s₁ = s₁' := by
    have hfst : (s.transport .stop).1 = s₁ := congrArg Prod.fst hstop
    rw [← hfst, hop]
  have hafter : s₁.session.phase.after .close = some Transport.close.target := by
    rw [hphase]
    rfl
  obtain ⟨s₂, hop₂, hphase₂, -, hhistory₂⟩ := transport_carried hl₁ hafter
  refine ⟨s₂, ?_, hphase₂, ?_⟩
  · rw [hclose, close_of_idle (by rw [hphase]; rfl), hop₂]
    rfl
  · rw [hhistory₂, hhistory]
    rfl

/-- Play, pause and stop, carried out; what play does to the frames is the session's own. -/
theorem exec_of_carried (hc : c.transport? = some op) (hop : s.transport op = (s', .ok true)) :
    (c.exec s).2 = .ok () ∧ (c.exec s).1.session.phase = s'.session.phase ∧
      (c.exec s).1.host = s'.host := by
  cases c with
  | play =>
      obtain rfl := Option.some.inj hc
      simp only [Command.exec, play, hop]
      exact ⟨trivial, rfl, rfl⟩
  | pause | stop =>
      obtain rfl := Option.some.inj hc
      simp only [Command.exec, pause, stop, done, hop]
      exact ⟨rfl, trivial, trivial⟩
  | _ => cases hc

/-- Play, pause and stop that do not apply, or fail. -/
theorem exec_of_idle {r : Except Error Bool} (hc : c.transport? = some op)
    (hop : s.transport op = (s, r)) (hr : r ≠ .ok true) : (c.exec s).1 = s := by
  cases c with
  | play =>
      obtain rfl := Option.some.inj hc
      simp only [Command.exec, play, hop]
      rcases r with e | _ | _
      · rfl
      · rfl
      · exact absurd rfl hr
  | pause | stop =>
      obtain rfl := Option.some.inj hc
      simp only [Command.exec, pause, stop, done, hop]
  | _ => cases hc

end Stage

/-! ### Looks for a frame -/

theorem Pipeline.event_callback {p : Pipeline} {e : Event} {x : Callback}
    (h : p.callback e = some x) : x.event = e := by
  simp only [callback] at h
  split at h
  · obtain rfl := Option.some.inj h
    rfl
  · cases h

/-- A grab reports the end or the quality of media, and no failure. -/
theorem Pipeline.isFailure_grab {p : Pipeline} {auto : Option AutoFrames} {e : Event}
    (h : (p.grab auto).2.2 = some e) : e.isFailure = false := by
  simp only [grab] at h
  split at h
  · obtain rfl := Option.some.inj h
    rfl
  · split at h
    · obtain rfl := Option.some.inj h
      rfl
    · cases h

theorem Engine.isFailure_grab {e : Engine} {k : Nat} {x : Callback} (hx : x ∈ (e.grab k).2.2) :
    x.event.isFailure = false := by
  simp only [grab] at hx
  split at hx
  · cases hx
  · obtain ⟨event, hevent, hcall⟩ := Option.bind_eq_some_iff.mp (Option.mem_toList.mp hx)
    rw [Pipeline.event_callback hcall]
    exact Pipeline.isFailure_grab hevent

theorem Engine.isFailure_poll {a : Acquisition} {image : Image} {e : Engine} {k : Nat}
    {x : Callback} (hx : x ∈ (a.poll image e k).callbacks) : x.event.isFailure = false := by
  rw [Acquisition.callbacks_poll] at hx
  exact isFailure_grab hx

namespace Host

/-- A callback may wait for the number now, and nothing else. -/
theorem mail_signal (token : Option Nat) (q : Nat) (a : Host) (x : Callback) :
    ∃ es, (∀ e ∈ es, e = x.event) ∧ (a.signal x).mail token q = a.mail token q ++ es := by
  have hsame : ∃ es : List Event, (∀ e ∈ es, e = x.event) ∧
      a.mail token q = a.mail token q ++ es :=
    ⟨[], List.forall_mem_nil _, (List.append_nil _).symm⟩
  simp only [mail, queue_signal]
  split
  · simp only [EventQueue.submit]
    split
    · exact hsame
    · refine ⟨((Job.deliver x.userdata x.event).letter? token).toList, fun e he => ?_, ?_⟩
      · simp only [Job.letter?, Option.mem_toList] at he
        split at he
        · exact (Option.some.inj he).symm
        · cases he
      · rw [List.filterMap_append]
        cases hj : (Job.deliver x.userdata x.event).letter? token with
        | none => rw [List.filterMap_cons_none hj]; rfl
        | some e => rw [List.filterMap_cons_some hj]; rfl
  · exact hsame

theorem mail_signalAll (token : Option Nat) (q : Nat) {cs : List Callback}
    (hcs : ∀ x ∈ cs, x.event.isFailure = false) (a : Host) :
    ∃ es, (∀ e ∈ es, e.isFailure = false) ∧
      (a.signalAll cs).mail token q = a.mail token q ++ es := by
  induction cs generalizing a with
  | nil => exact ⟨[], List.forall_mem_nil _, (List.append_nil _).symm⟩
  | cons x cs ih =>
      obtain ⟨es, hes, hmail⟩ := mail_signal token q a x
      obtain ⟨es', hes', hmail'⟩ := ih (fun y hy => hcs y (List.mem_cons_of_mem x hy)) (a.signal x)
      refine ⟨es ++ es', fun e he => ?_, ?_⟩
      · rcases List.mem_append.mp he with he | he
        · rw [hes e he]
          exact hcs x List.mem_cons_self
        · exact hes' e he
      · rw [← List.append_assoc, ← hmail]
        exact hmail'

theorem mail_launch (token : Option Nat) (q : Nat) {cs : List Callback}
    (hcs : ∀ x ∈ cs, x.event.isFailure = false) (a : Host) :
    ∃ es, (∀ e ∈ es, e.isFailure = false) ∧
      (a.launch cs).mail token q = a.mail token q ++ es := by
  simp only [launch]
  split
  · exact mail_signalAll token q hcs a
  · exact ⟨[], List.forall_mem_nil _, (List.append_nil _).symm⟩

end Host

namespace Stage

/-- After a look for a frame more may wait for the number, but no failure. -/
theorem mail_pull (token : Option Nat) (q : Nat) (h : Handle) (s : Stage) :
    ∃ es, (∀ e ∈ es, e.isFailure = false) ∧
      (pull h s).1.host.mail token q = s.host.mail token q ++ es := by
  have hpoll := Host.mail_launch token q
    (fun x (hx : x ∈ (s.session.frames.poll s.session.image s.host.engine h.id).callbacks) =>
      Engine.isFailure_poll hx)
    (s.host.setEngine (s.session.frames.poll s.session.image s.host.engine h.id).engine)
  simp only [pull]
  split
  · split
    · exact hpoll
    · exact hpoll
    · split <;> exact hpoll
  · exact ⟨[], List.forall_mem_nil _, (List.append_nil _).symm⟩

end Stage

namespace World
variable {w w₁ w' w₀ : World} {i j p q : Nat} {s s' : Stage} {token : Option Nat} {a : Action}

/-- A look for a frame of any session leaves a session its phase, its number and its queue. -/
theorem stage_look (hs : w.stage? i = some s) (j : Nat) :
    ∃ s₁, (w.act j (·.withLive Stage.pull)).1.stage? i = some s₁ ∧
      s₁.session.phase = s.session.phase ∧ s₁.session.token = s.session.token ∧
      s₁.session.queue = s.session.queue := by
  cases hx : w.stage? j with
  | none =>
      have hsame : (w.act j (·.withLive Stage.pull)).1 = w := by simp only [act, hx]
      exact ⟨s, by rw [hsame, hs], rfl, rfl, rfl⟩
  | some x =>
      rcases look_cases hx with ⟨e, hlook⟩ | ⟨h, hl, hlook⟩
      · exact ⟨s, by rw [hlook, hs], rfl, rfl, rfl⟩
      · have hindex := (Stage.keeps_pull x (Stage.live_eq_ok.mp hl).2).index
        rw [hlook, stage?_put, hindex, (stage?_eq_some.mp hx).1, hs]
        split
        · next hij =>
            obtain rfl := hij
            obtain rfl := Option.some.inj (hs.symm.trans hx)
            obtain ⟨frames, image, health, hsession⟩ := Stage.session_pull h s
            exact ⟨_, rfl, by rw [hsession]; rfl, by rw [hsession], by rw [hsession]⟩
        · exact ⟨_, rfl, rfl, rfl, rfl⟩

theorem mail_look (w : World) (j : Nat) (token : Option Nat) (q : Nat) :
    ∃ es, (∀ e ∈ es, e.isFailure = false) ∧
      (w.act j (·.withLive Stage.pull)).1.host.mail token q = w.host.mail token q ++ es := by
  have hsame : ∃ es : List Event, (∀ e ∈ es, e.isFailure = false) ∧
      w.host.mail token q = w.host.mail token q ++ es :=
    ⟨[], List.forall_mem_nil _, (List.append_nil _).symm⟩
  cases hx : w.stage? j with
  | none => simpa only [act, hx] using hsame
  | some x =>
      rcases look_cases hx with ⟨e, hlook⟩ | ⟨h, hl, hlook⟩
      · rw [hlook]
        exact hsame
      · rw [hlook, ← (stage?_eq_some.mp hx).2.2]
        exact Stage.mail_pull token q h x

/-! ### Work, as the phase sees it -/

def phase? (w : World) (i : Nat) : Option Phase := (w.stage? i).map (·.session.phase)

theorem phase?_eq (hs : w.stage? i = some s) : w.phase? i = some s.session.phase := by
  simp only [phase?, hs, Option.map_some]

theorem phase_of_estate (w : World) (i : Nat) :
    (w.estate? i).map (·.session.phase) = w.phase? i := by
  simp only [estate?, phase?, Option.map_map]
  rfl

/-- What becomes of the phase when work is run: it stays, or it is moved by all that waited for
the session. -/
inductive Sways (i : Nat) (token : Option Nat) (q : Nat) (w w' : World) : Prop
  | still (hp : w'.phase? i = w.phase? i)
    (hm : w'.host.mail token q = w.host.mail token q ∨ w'.host.mail token q = [])
  | moved (hp : w'.phase? i = (w.phase? i).map ((w.host.mail token q).foldl Phase.onEvent))
    (hm : w'.host.mail token q = [])

theorem Sways.of_nil (h : Sways i token q w w') (hm : w.host.mail token q = []) :
    w'.phase? i = w.phase? i ∧ w'.host.mail token q = [] := by
  cases h with
  | still hp hm' => exact ⟨hp, hm'.elim (·.trans hm) id⟩
  | moved hp hm' =>
      refine ⟨hp.trans ?_, hm'⟩
      rw [hm]
      cases w.phase? i <;> rfl

theorem Sways.trans (h₁ : Sways i token q w w₁) (h₂ : Sways i token q w₁ w') :
    Sways i token q w w' := by
  cases h₁ with
  | still hp hm =>
      rcases hm with hm | hm
      · cases h₂ with
        | still hp' hm' => exact .still (hp'.trans hp) (hm ▸ hm')
        | moved hp' hm' => exact .moved (by rw [hp', hp, hm]) hm'
      · obtain ⟨hp', hm'⟩ := h₂.of_nil hm
        exact .still (hp'.trans hp) (.inr hm')
  | moved hp hm =>
      obtain ⟨hp', hm'⟩ := h₂.of_nil hm
      exact .moved (hp'.trans hp) hm'

theorem Fares.sways (h : Fares i token q w w') : Sways i token q w w' := by
  have hsame : w'.estate? i = w.estate? i → w'.phase? i = w.phase? i := fun he => by
    rw [← phase_of_estate, ← phase_of_estate, he]
  cases h with
  | still he _ hm => exact .still (hsame he) (.inl hm)
  | lost he _ hm => exact .still (hsame he) (.inr hm)
  | heard he hm =>
      refine .moved ?_ hm
      rw [← phase_of_estate, ← phase_of_estate, he, Option.map_map, Option.map_map]
      exact Option.map_congr fun x _ => x.phase_toldAll _

/-- Work, as the phase of the session sees it. -/
structure Heeds (i : Nat) (token : Option Nat) (q : Nat) (w w' : World) : Prop where
  leads : Leads w w'
  wanes : Wanes w w'
  sways : w.Posted i token q → Sways i token q w w'

theorem Hears.heeds (h : Hears i token q w w') : Heeds i token q w w' :=
  ⟨h.leads, h.wanes, fun hP => (h.fares hP).sways⟩

theorem lenient_heeds (i : Nat) (token : Option Nat) (q : Nat) : Lenient (Heeds i token q) where
  refl w := ((lenient_hears i token q).refl w).heeds
  trans h₁ h₂ :=
    { leads := h₁.leads.trans h₂.leads
      wanes := lenient_wanes.trans h₁.wanes h₂.wanes
      sways hP := (h₁.sways hP).trans (h₂.sways (hP.work h₁.leads h₁.wanes)) }
  record w _ hx := ((lenient_hears i token q).record w hx).heeds
  note w _ hn := ((lenient_hears i token q).note w hn).heeds
  submit w p program := ((lenient_hears i token q).submit w p program).heeds
  close w p := ((lenient_hears i token q).close w p).heeds

/-- A session that sets its observers aside, be it this one or another. -/
theorem heeds_observers (w : World) (j : Nat) (o : Observers Observer) :
    Heeds i token q w (setObservers j o w) := by
  refine ⟨(reacts_leads j).observers w o, (reacts_wanes j).observers w o, fun _ => ?_⟩
  refine .still ?_ (.inl rfl)
  simp only [phase?, stage?, setObservers, get?_modifySession]
  split
  · rw [Option.map_map, Option.map_map, Option.map_map]
    rfl
  · rfl

/-- What a tick does after its look for a frame. -/
theorem heeds_advance (w : World) (j : Nat) :
    Heeds i token q (w.act j (·.withLive Stage.pull)).1 (w.advance j).1 :=
  (lenient_heeds i token q).advance (fun w p => (hears_drain i token q w p).heeds)
    (fun w o => heeds_observers w j o) (fun w label n => (hears_started token q w label n).heeds) w

theorem Heeds.phase (h : Heeds i s.session.token s.session.queue w w') (hw : w.Tidy)
    (hs : w.stage? i = some s) (hs' : w'.stage? i = some s') :
    s'.session.phase = s.session.phase ∨
      s'.session.phase = s.mail.foldl Phase.onEvent s.session.phase := by
  have hphase := phase?_eq hs
  have hphase' := phase?_eq hs'
  cases h.sways (hw.posted hs) with
  | still hp _ =>
      rw [hphase, hphase'] at hp
      exact .inl (Option.some.inj hp)
  | moved hp _ =>
      rw [hphase, hphase', Option.map_some, mail_of_stage hs] at hp
      exact .inr (Option.some.inj hp)

/-- Whatever happens to a session that is not asked anything: its phase stays, or is moved by all
that waited for it. -/
theorem Tidy.phase_apply (hw : w.Tidy) (hs : w.stage? i = some s) (hc : ∀ c, a ≠ .command i c)
    (hs' : (w.apply a).stage? i = some s') :
    s'.session.phase = s.session.phase ∨
      s'.session.phase = s.mail.foldl Phase.onEvent s.session.phase := by
  by_cases hreach : a.reaches i = true
  swap
  · have hreel := reel?_of_other hw.sound hs (by simpa using hreach)
    rw [reel?_eq hs, reel?_eq hs'] at hreel
    exact .inl (congrArg Reel.phase (Option.some.inj hreel))
  cases a with
  | command j c => exact absurd (congrArg (Action.command · c) (of_decide_eq_true hreach)) (hc c)
  | drop j =>
      obtain rfl : j = i := of_decide_eq_true hreach
      rw [World.apply, stage_drop] at hs'
      cases hs'
  | drain p => exact (hears_drain i _ _ w p).heeds.phase hw hs hs'
  | tick j =>
      obtain ⟨s₁, hs₁, hphase, htoken, hqueue⟩ := stage_look hs j
      obtain ⟨es, hes, hmail⟩ := mail_look w j s.session.token s.session.queue
      have hmail₁ : s₁.mail = s.mail ++ es := by
        rw [← mail_of_stage hs₁, htoken, hqueue, hmail, mail_of_stage hs]
      have hmoves := (heeds_advance w j).phase (hw.look j) hs₁ hs'
      rwa [hmail₁, Phase.foldl_append_onEvent hes, hphase] at hmoves
  | _ => cases hreach

/-! ### The phase of a session -/

/-- In every run, for every session.  A command comes to what its parts come to, and with every
part the phase stays or moves as the table of moves has it.  Whatever else happens, the phase
stays, or is moved by the events that waited for the session, of which only a failure moves it,
from anything set up to stopped; and a drain of the session's queue moves it by all of them.  Play,
pause and stop reach the engine, each with its own request, exactly if the table has a phase after
them, which is the phase then; otherwise nothing changes.  A close of active media stops it before
it closes it. -/
theorem phases_moved (h₀ : Fresh w₀) (hnew : w₀.host.queues = {}) (as : List Action)
    (hs : (w₀.run as).stage? i = some s) :
    (∀ c : Command, (c.exec s).1 = ((Stage.through (c.parts s) s).getLast?).getD s ∧
      (s :: Stage.through (c.parts s) s).IsChain
        fun x y => x.session.phase.Edge y.session.phase) ∧
    (∀ a s', (∀ c, a ≠ .command i c) → ((w₀.run as).apply a).stage? i = some s' →
      s'.session.phase = s.session.phase ∨
        s'.session.phase = s.mail.foldl Phase.onEvent s.session.phase) ∧
    (∃ s', ((w₀.run as).apply (.drain s.session.queue)).stage? i = some s' ∧
      s'.session.phase = s.mail.foldl Phase.onEvent s.session.phase) ∧
    (∀ (c : Command) op, c.transport? = some op →
      (s.session.phase.after op = none → (c.exec s).1 = s) ∧
      ∀ next, s.session.phase.after op = some next →
        ∃ h, s.session.live = .ok h ∧ (c.exec s).2 = .ok () ∧ (c.exec s).1.session.phase = next ∧
          (c.exec s).1.host.engine.history = op.requests h.id ++ s.host.engine.history) ∧
    (s.session.phase.isActive = true →
      ∃ h s', s.session.live = .ok h ∧ s.close = (s', .ok ()) ∧ s'.session.phase = .closed ∧
        s'.host.engine.history =
          .call h.id .close :: .call h.id .stop :: s.host.engine.history) := by
  have hw : (w₀.run as).Tidy := (h₀.tidy hnew).run as
  obtain ⟨l, hreel⟩ := Reachable.shows ⟨w₀, as, h₀, rfl⟩ hs
  have hlive : s.session.phase.isConfigured = true → ∃ h, s.session.live = .ok h := fun hc =>
    Stage.live_of_isUp (hreel.isUp hc) (Phase.isDestroyed_of_isConfigured hc)
  refine ⟨fun c => ⟨s.exec_parts c, ?_⟩, fun a s' hc hs' => hw.phase_apply hs hc hs', ?_,
    fun c op hc => ⟨fun hn => ?_, fun next ha => ?_⟩, fun ha => ?_⟩
  · exact Stage.edges_parts (hw.sound.attached hs) (hw.sound.coupled hs) hreel.down c
  · obtain ⟨z, hz, hze, -⟩ := hw.drained hs
    exact ⟨z, hz, (congrArg (·.session.phase) hze).trans (Estate.phase_toldAll s.mail s.estate)⟩
  · rcases s.transport_cases op with ⟨e, -, hop⟩ | ⟨h, -, -, hop⟩ | ⟨h, -, ha, -⟩
    · exact Stage.exec_of_idle hc hop nofun
    · exact Stage.exec_of_idle hc hop nofun
    · cases hn.symm.trans ha
  · obtain rfl := Coupled.after_eq_target ha
    obtain ⟨h, hl⟩ := hlive (Coupled.isConfigured_of_after ha)
    obtain ⟨s', hop, hphase, -, hhistory⟩ := Stage.transport_carried hl ha
    obtain ⟨hok, hph, hhost⟩ := Stage.exec_of_carried hc hop
    exact ⟨h, hl, hok, hph.trans hphase, hhost ▸ hhistory⟩
  · obtain ⟨h, hl⟩ := hlive (Phase.isConfigured_of_isActive ha)
    obtain ⟨s', hclose, hphase, hhistory⟩ := Stage.close_carried hl ha
    exact ⟨h, s', hl, hclose, hphase, hhistory⟩

/-- An encoder that plays, and of which the engine has told that it failed. -/
def failingEncoder : List Action :=
  encoderSetUp ++ [.command 0 .play, .callback ⟨1, .failed "disk full"⟩]

/-- The failure stops it when its queue is drained; closed before that, it is stopped and then
closed. -/
theorem failing_encoder_stops :
    ∃ s s' k x, (slow.run failingEncoder).stage? 0 = some s ∧ s.session.phase = .playing ∧
      ((slow.run failingEncoder).apply (.drain 1)).stage? 0 = some s' ∧
      s'.session.phase = .stopped ∧ s.close = (x, .ok ()) ∧ x.session.phase = .closed ∧
      x.host.engine.history = .call k .close :: .call k .stop :: s.host.engine.history := by
  obtain ⟨s, hs⟩ := Option.isSome_iff_exists.mp (by decide :
    ((slow.run failingEncoder).stage? 0).isSome = true)
  have hknown : ((slow.run failingEncoder).stage? 0).map (fun s =>
      (s.session.phase, s.mail, s.session.queue)) =
        some (.playing, [.failed "disk full"], 1) := by decide
  rw [hs] at hknown
  obtain ⟨hphase, hrest⟩ := Prod.mk.inj (Option.some.inj hknown)
  obtain ⟨hmail, hqueue⟩ := Prod.mk.inj hrest
  obtain ⟨-, -, ⟨s', hs', hstopped⟩, -, hclose⟩ :=
    phases_moved fresh_slow rfl failingEncoder hs
  obtain ⟨h, x, -, hx, hclosed, hhistory⟩ := hclose (by rw [hphase]; rfl)
  rw [hmail, hphase] at hstopped
  exact ⟨s, s', h.id, x, hs, hphase, hqueue ▸ hs', hstopped, hx, hclosed, hhistory⟩

end World
end MediaHost
