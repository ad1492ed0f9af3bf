import MediaHost.Proofs.Orders
import MediaHost.Proofs.Tally
import Mathlib.Data.List.Perm.Basic

/-!
# Proofs — Tick

A tick, as the session that asked for it sees it: a look for a frame, and then all that waits for
it.  The look grabs (`Stage.alters_pull`), and what the grab reports waits then, or is in flight
(`Stage.coming_pull`).  If the session's queue is still open after the tick, the session was told
of all that waited when the look was done, and of nothing else (`World.Tidy.ticked_own`).
-/

namespace MediaHost

/-! ### The look -/

/-- A pipeline of which only the copies and the limit may have changed. -/
def Pipeline.Retouched (p q : Pipeline) : Prop :=
  ∃ blits limit, q = { p with blits := blits, bitrateLimit := limit }

theorem Pipeline.retouched_blit (p : Pipeline) (surface : Surface) :
    p.Retouched (p.blit surface) := by
  simp only [blit]
  split
  · exact ⟨p.blits, p.bitrateLimit, rfl⟩
  · exact ⟨_, p.bitrateLimit, rfl⟩

/-- When the engine's threads run, and whether it makes frames. -/
def Engine.manner (e : Engine) : Option AutoFrames × Bool := (e.autoFrames, e.prompt)

theorem Acquisition.manner_poll (a : Acquisition) (image : Image) (e : Engine) (k : Nat) :
    (a.poll image e k).engine.manner = e.manner := by
  have hgrab : (e.grab k).1.manner = e.manner := by
    simp only [Engine.grab]
    split <;> rfl
  have hr := a.outcome_poll image e k
  generalize a.poll image e k = r at hr
  cases hr with
  | idle | overflow => exact hgrab
  | frame image' size resized copied =>
      rcases copied with rfl | ⟨surface, rfl⟩ <;> exact hgrab

namespace Host
variable {a : Host} {t q : Nat} {y : Binding Target}

/-- What is on its way to a number: what waits on the queue, and behind it what is in flight. -/
def coming (t q : Nat) (a : Host) : List Event := a.mail (some t) q ++ reportsTo t a.inFlight

/-- A callback waits on the queue of its number, if that is open. -/
theorem mail_signal_own (hb : a.arena.resolve t = some y) (hy : y.queue = q)
    (hopen : (a.queue q).closed = false) (e : Event) :
    (a.signal ⟨t, e⟩).mail (some t) q = a.mail (some t) q ++ [e] := by
  have hany : (a.arena.resolve t).any (·.queue = q) = true := by
    rw [hb]
    exact decide_eq_true hy
  simp only [mail, queue_signal, hany, if_true, EventQueue.submit, hopen, Bool.false_eq_true,
    if_false, List.filterMap_append]
  simp only [List.filterMap_cons, Job.letter?, if_true, List.filterMap_nil]

/-- The mail of a number is none of the other numbers'. -/
theorem mail_signal_of_ne {x : Callback} (hx : x.userdata ≠ t) :
    (a.signal x).mail (some t) q = a.mail (some t) q := by
  simp only [mail, queue_signal]
  split
  · simp only [EventQueue.submit]
    split
    · rfl
    · simp [List.filterMap_append, Job.letter?, hx.symm]
  · rfl

/-- What the engine reports to a number comes behind all else that is on its way to it. -/
theorem coming_launch (hb : a.arena.resolve t = some y) (hy : y.queue = q)
    (hopen : (a.queue q).closed = false) (e : Option Event) :
    ((a.launch (callbacks t e.toList)).coming t q).Perm (a.coming t q ++ e.toList) ∧
      (a.engine.prompt = true →
        (a.launch (callbacks t e.toList)).inFlight = a.inFlight) := by
  cases e with
  | none =>
      have hnone : a.launch (callbacks t none.toList) = a := by
        simp [launch, callbacks, signalAll]
      rw [hnone, Option.toList_none, List.append_nil]
      exact ⟨.refl _, fun _ => rfl⟩
  | some e =>
      simp only [launch, callbacks, Option.toList_some, List.map_cons, List.map_nil]
      split
      · refine ⟨?_, fun _ => inFlight_signal _⟩
        simp only [coming, signalAll, List.foldl_cons, List.foldl_nil, inFlight_signal,
          mail_signal_own hb hy hopen, List.append_assoc]
        exact List.perm_append_comm.append_left _
      · next hn =>
          refine ⟨?_, fun hp => absurd hp hn⟩
          simp [coming, mail, queue, reportsTo]

/-- What arrives goes from the air to the queue. -/
theorem coming_arrive (hb : a.arena.resolve t = some y) (hy : y.queue = q)
    (hopen : (a.queue q).closed = false) (n : Nat) :
    ((a.arrive n).coming t q).Perm (a.coming t q) := by
  simp only [arrive]
  split
  · exact .refl _
  next c hc =>
  have hsplit : (reportsTo t a.inFlight).Perm (reportsTo t [c] ++
      reportsTo t (a.inFlight.eraseIdx n)) := by
    obtain ⟨hn, rfl⟩ := List.getElem?_eq_some_iff.mp hc
    have hfilter := ((List.getElem_cons_eraseIdx_perm hn).symm.filter
      (·.userdata = t)).map (·.event)
    rwa [← List.singleton_append, List.filter_append, List.map_append] at hfilter
  have hcoming := (hsplit.append_left (a.mail (some t) q)).symm
  simp only [coming, inFlight_signal]
  by_cases hct : c.userdata = t
  · obtain ⟨u, e⟩ := c
    obtain rfl : u = t := hct
    have hone : reportsTo u [⟨u, e⟩] = [e] := by simp [reportsTo]
    rw [hone] at hcoming
    rw [mail_signal_own (a := { a with inFlight := a.inFlight.eraseIdx n }) hb hy hopen,
      List.append_assoc]
    exact hcoming
  · have hnone : reportsTo t [c] = [] := by simp [reportsTo, hct]
    rw [hnone] at hcoming
    rw [mail_signal_of_ne hct]
    exact hcoming

end Host

namespace Stage
variable {s : Stage} {h : Handle} {p : Pipeline} {t : Nat} {y : Binding Target}

/-- What is on its way to the session. -/
def coming (s : Stage) : List Event :=
  (s.session.token.map fun t => s.host.coming t s.session.queue).getD []

theorem coming_eq (ht : s.session.token = some t) : s.coming = s.host.coming t s.session.queue := by
  rw [coming, ht, Option.map_some, Option.getD_some]

/-- Media that is being decoded is what a look takes frames of. -/
def decodes (s : Stage) : Bool :=
  s.session.status.direction = some .decoding && s.session.phase.isConfigured

/-- The host after the grab of a look. -/
def polled (h : Handle) (s : Stage) : Host :=
  (s.host.setEngine (s.session.frames.poll s.session.image s.host.engine h.id).engine).launch
    (s.session.frames.poll s.session.image s.host.engine h.id).callbacks

theorem pull_of_idle (h : Handle) (hd : s.decodes = false) : pull h s = (s, .idle) := by
  simp only [decodes] at hd
  simp only [pull, hd]
  rfl

/-- A look grabs, and may bring the limit with the first frame. -/
theorem host_pull (h : Handle) (hd : s.decodes = true) :
    (pull h s).1.host = polled h s ∨ (pull h s).1.host =
      (polled h s).tell (h.setBitrateLimit · s.session.config.playback.bitrateLimit) := by
  simp only [decodes] at hd
  simp only [pull, hd, if_true]
  split
  · exact .inl rfl
  · exact .inl rfl
  · split
    · exact .inr rfl
    · exact .inl rfl

/-- A look retouches what it grabbed. -/
theorem alters_pull (h : Handle) (hd : s.decodes = true) :
    ∃ f, Host.Alters h.id f s.host (pull h s).1.host ∧
      ∀ p : Pipeline, (p.grab s.host.engine.autoFrames).1.Retouched (f p) := by
  obtain ⟨copy, hcopy, ha⟩ := alters_poll s.session.frames s.session.image s.host.engine h.id
  have hretouched : ∀ p : Pipeline, p.Retouched (copy p) := by
    rcases hcopy with rfl | ⟨surface, rfl⟩
    · exact fun p => ⟨p.blits, p.bitrateLimit, rfl⟩
    · exact fun p => p.retouched_blit surface
  have hgrab : Host.Alters h.id _ s.host (polled h s) :=
    (Host.alters_setEngine ha).thenSame (Host.same_launch _)
  rcases host_pull h hd with hhost | hhost
  · exact ⟨_, hhost ▸ hgrab, fun p => hretouched _⟩
  · refine ⟨_, hhost ▸ hgrab.trans (Host.alters_tell (Engine.alters_setBitrateLimit _)),
      fun p => ?_⟩
    obtain ⟨blits, limit, hcopied⟩ := hretouched (p.grab s.host.engine.autoFrames).1
    refine ⟨blits, Single.toUnit s.session.config.playback.bitrateLimit Single.one, ?_⟩
    simp only [Function.comp_apply, hcopied]

theorem manner_pull (h : Handle) (s : Stage) :
    (pull h s).1.host.engine.manner = s.host.engine.manner := by
  have hpolled : (polled h s).engine.manner = s.host.engine.manner :=
    (congrArg Engine.manner (Host.engine_launch _)).trans (Acquisition.manner_poll _ _ _ _)
  cases hd : s.decodes with
  | false => rw [pull_of_idle h hd]
  | true => rcases host_pull h hd with hhost | hhost <;> rw [hhost] <;> exact hpolled

/-- What the grab reports of media of which all is to be told. -/
theorem callbacks_grab {e : Engine} {k : Nat} (hp : e.pipelines.get? k = some p)
    (hwire : p.wire = (t, .all)) :
    (e.grab k).2.2 = callbacks t (p.grab e.autoFrames).2.2.toList := by
  have hcalls := Order.calls_carry k e .grab
  rw [hp] at hcalls
  refine hcalls.trans ?_
  obtain ⟨rfl, hall⟩ := Prod.mk.inj hwire
  simp only [Option.bind_some, Order.event, callbacks]
  cases (p.grab e.autoFrames).2.2 with
  | none => rfl
  | some ev =>
      have haccepts : p.callbacks.accepts ev = true := by
        rw [hall]
        cases ev <;> rfl
      simp only [Option.bind_some, Pipeline.callback, haccepts, if_true, Option.toList_some,
        List.map_cons, List.map_nil]

/-- After the look of a session that listens, what its grab reports waits behind all else, or is in
flight. -/
theorem coming_pull (hd : s.decodes = true) (hopen : s.isDeaf = false)
    (hb : s.host.arena.resolve t = some y) (hy : y.queue = s.session.queue)
    (hp : s.host.engine.pipelines.get? h.id = some p) (hwire : p.wire = (t, .all)) :
    ((pull h s).1.host.coming t s.session.queue).Perm
        (s.host.coming t s.session.queue ++ (p.grab s.host.engine.autoFrames).2.2.toList) ∧
      (s.host.engine.prompt = true → (pull h s).1.host.inFlight = s.host.inFlight) := by
  have hcalls := (Acquisition.callbacks_poll s.session.frames s.session.image s.host.engine
    h.id).trans (callbacks_grab hp hwire)
  have hmanner := Acquisition.manner_poll s.session.frames s.session.image s.host.engine h.id
  have hlaunch := Host.coming_launch (a := s.host.setEngine
    (s.session.frames.poll s.session.image s.host.engine h.id).engine) hb hy hopen
    (p.grab s.host.engine.autoFrames).2.2
  rw [← hcalls] at hlaunch
  obtain ⟨hcoming, hflight⟩ := hlaunch
  have hprompt := congrArg Prod.snd hmanner
  rcases host_pull h hd with hhost | hhost <;> rw [hhost]
  · exact ⟨hcoming, fun hp => hflight (hprompt.trans hp)⟩
  · exact ⟨hcoming, fun hp => hflight (hprompt.trans hp)⟩

end Stage

/-! ### What is delivered -/

namespace Estate

/-- A session without its observers, and its pipeline. -/
def bare (x : Estate) : Estate := { x with session := { x.session with observers := {} } }

theorem bare_notified (topic : Topic) (x : Estate) :
    (x.notified topic).bare = x.bare.notified topic := by
  cases topic <;> rfl

theorem bare_rewound (x : Estate) : x.rewound.bare = x.bare.rewound := by
  by_cases hc : (x.session.status.looping && !x.session.phase.isDestroyed) = true
  · have hbare : (x.bare.session.status.looping && !x.bare.session.phase.isDestroyed) = true := hc
    simp only [rewound, if_pos hc, if_pos hbare]
    rfl
  · have hbare : ¬(x.bare.session.status.looping && !x.bare.session.phase.isDestroyed) = true := hc
    simp only [rewound, if_neg hc, if_neg hbare]

theorem bare_halted (x : Estate) : x.halted.bare = x.bare.halted := by
  by_cases hc : x.session.phase.isConfigured = true
  · have hbare : x.bare.session.phase.isConfigured = true := hc
    simp only [halted, if_pos hc, if_pos hbare]
    rfl
  · have hbare : ¬x.bare.session.phase.isConfigured = true := hc
    simp only [halted, if_neg hc, if_neg hbare]

/-- What an event changes of a session does not depend on who observes it. -/
theorem bare_told (x : Estate) (e : Event) : (x.told e).bare = x.bare.told e := by
  cases e with
  | finished => exact (bare_rewound _).trans (congrArg rewound (bare_notified .finish _))
  | failed message =>
      exact (bare_notified .error _).trans (congrArg (notified .error) (bare_halted _))
  | quality report => exact bare_notified .quality _

theorem bare_toldAll (es : List Event) (x : Estate) :
    (x.toldAll es).bare = x.bare.toldAll es := by
  induction es generalizing x with
  | nil => rfl
  | cons e es ih =>
      rw [toldAll, List.foldl_cons, toldAll, List.foldl_cons, ← bare_told]
      exact ih (x.told e)

end Estate

/-- Where nothing is left and nothing was lost, everything was delivered. -/
theorem Taken.eq_of_open {m es : List Event} (h : Taken m [] false es) : es = m := by
  cases h with
  | left h => exact h
  | lost hd _ => cases hd
  | all _ => rfl

namespace World
variable {w w₁ w' : World} {i j q : Nat} {token : Option Nat} {s s' s₁ : Stage} {h : Handle}
  {es fs : List Event}

/-- The session, and its pipeline, whoever observes it. -/
def bare? (w : World) (i : Nat) : Option Estate := (w.estate? i).map Estate.bare

/-- Work by which `es` of what waits are delivered to the session `i`. -/
structure Deals (i : Nat) (token : Option Nat) (q : Nat) (es : List Event) (w w' : World) :
    Prop where
  bare : w'.bare? i = (w.bare? i).map (·.toldAll es)
  taken : Taken (w.host.mail token q) (w'.host.mail token q) (w'.host.queue q).closed es

/-- Work, as the session sees it, whoever observes it. -/
structure Handles (i : Nat) (token : Option Nat) (q : Nat) (w w' : World) : Prop where
  leads : Leads w w'
  wanes : Wanes w w'
  deals : w.Posted i token q → ∃ es, Deals i token q es w w'

theorem Deals.trans (h₁ : Deals i token q es w w₁) (h₂ : Deals i token q fs w₁ w')
    (hc : (w₁.host.queue q).closed = true → (w'.host.queue q).closed = true) :
    Deals i token q (es ++ fs) w w' where
  bare := by
    rw [h₂.bare, h₁.bare, Option.map_map]
    exact Option.map_congr fun x _ => List.foldl_append.symm
  taken := h₁.taken.trans h₂.taken hc

theorem Deals.of_estate (he : w'.estate? i = w.estate? i)
    (hm : Taken (w.host.mail token q) (w'.host.mail token q) (w'.host.queue q).closed []) :
    Deals i token q [] w w' :=
  ⟨by rw [map_toldAll_nil, bare?, he, bare?], hm⟩

theorem Hears.handles (h : Hears i token q w w') : Handles i token q w w' := by
  refine ⟨h.leads, h.wanes, fun hP => ?_⟩
  cases h.fares hP with
  | still he _ hm => exact ⟨[], .of_estate he (.left hm)⟩
  | lost he hc hm => exact ⟨[], .of_estate he (.lost hc hm)⟩
  | heard he hm =>
      refine ⟨_, ?_, .all hm⟩
      rw [bare?, he, bare?, Option.map_map, Option.map_map]
      exact Option.map_congr fun x _ => x.bare_toldAll _

theorem lenient_handles (i : Nat) (token : Option Nat) (q : Nat) :
    Lenient (Handles i token q) where
  refl w := ((lenient_hears i token q).refl w).handles
  trans h₁ h₂ := by
    refine ⟨h₁.leads.trans h₂.leads, lenient_wanes.trans h₁.wanes h₂.wanes, fun hP => ?_⟩
    obtain ⟨es, hes⟩ := h₁.deals hP
    obtain ⟨fs, hfs⟩ := h₂.deals (hP.work h₁.leads h₁.wanes)
    exact ⟨es ++ fs, hes.trans hfs (h₂.wanes.host.queue q).closed⟩
  record w _ hx := ((lenient_hears i token q).record w hx).handles
  note w _ hn := ((lenient_hears i token q).note w hn).handles
  submit w p program := ((lenient_hears i token q).submit w p program).handles
  close w p := ((lenient_hears i token q).close w p).handles

/-- Whoever observes this session or another one. -/
theorem handles_observers (w : World) (j : Nat) (o : Observers Observer) :
    Handles i token q w (setObservers j o w) := by
  refine ⟨(reacts_leads j).observers w o, (reacts_wanes j).observers w o,
    fun _ => ⟨[], ?_, .left rfl⟩⟩
  rw [map_toldAll_nil]
  by_cases hij : j = i
  · obtain rfl := hij
    have hown := estate?_modifySession w j (f := fun x => { x with observers := o }) fun _ => rfl
    rw [bare?, setObservers, hown, bare?, Option.map_map]
    rfl
  · rw [bare?, setObservers, estate?_modifySession_of_ne w hij, bare?]

/-- The session's own drain deals it all that waits. -/
theorem deals_drain (hP : w.Posted i token q) (hidle : (w.host.queue q).running = none) :
    Deals i token q (w.host.mail token q) w (drain w q).1 ∧
      (drain w q).1.host.mail token q = [] := by
  have htold := told_drain hP hidle
  refine ⟨⟨?_, .all htold.mail⟩, htold.mail⟩
  rw [bare?, htold.estate, bare?, Option.map_map, Option.map_map]
  exact Option.map_congr fun x _ => x.bare_toldAll _

theorem bare?_eq (hs : w.stage? i = some s) : w.bare? i = some s.estate.bare := by
  rw [bare?, estate?_eq hs, Option.map_some]

/-- The queue that a tick runs at last is that of the session that asked for it. -/
theorem Wanes.queue_of (hl : Wanes w w') (hs : w.stage? i = some s) :
    ((w'.sessions.get? i).map (·.queue)).getD 0 = s.session.queue := by
  have haddr := hl.address i
  simp only [World.address, (stage?_eq_some.mp hs).2.1, Option.map_some] at haddr
  obtain ⟨x, hx, hxa⟩ := Option.map_eq_some_iff.mp haddr
  rw [hx, Option.map_some, Option.getD_some]
  exact (Prod.mk.inj hxa).2

/-- After a tick that does not panic nothing waits for the session that asked for it, and if its
queue is still open it was told of all that waited when the look was done. -/
theorem Tidy.ticked_own (hw : w.Tidy) (hs : w.stage? i = some s) (hl : s.session.live = .ok h)
    (hfits : (Stage.pull h s).2 ≠ .overflow) :
    ∃ s', (w.apply (.tick i)).stage? i = some s' ∧ s'.mail = [] ∧
      Leads (w.put (Stage.pull h s).1) (w.apply (.tick i)) ∧
      Wanes (w.put (Stage.pull h s).1) (w.apply (.tick i)) ∧
      (s'.isDeaf = false → s'.estate.bare =
        (Stage.pull h s).1.estate.bare.toldAll (Stage.pull h s).1.mail) := by
  have hlook : w.act i (·.withLive Stage.pull) =
      (w.put (Stage.pull h s).1, some (.ok (Stage.pull h s).2)) := by
    rw [act_eq hs, Stage.withLive_of_live hl]
  have hindex : (Stage.pull h s).1.index = i :=
    (Stage.keeps_pull s (Stage.live_eq_ok.mp hl).2).index.trans (stage?_eq_some.mp hs).1
  have hlooked : (w.act i (·.withLive Stage.pull)).1 = w.put (Stage.pull h s).1 := by rw [hlook]
  have hw₁ : (w.put (Stage.pull h s).1).Tidy := hlooked ▸ hw.look i
  generalize Stage.pull h s = pulled at *
  have hs₁ : (w.put pulled.1).stage? i = some pulled.1 := by
    rw [stage?_put, if_pos hindex]
  have hP := hw₁.posted hs₁
  rcases (lenient_handles i pulled.1.session.token pulled.1.session.queue).advance_cases
    (fun w p => (hears_drain i _ _ w p).handles) (fun w o => handles_observers w i o)
    (fun w label n => (hears_started _ _ w label n).handles) w with
    ⟨-, hfailed⟩ | ⟨w₂, hhandles, hdrain⟩
  · have hok : ∃ tick, (w.advance i).2 = some (.ok tick) := by
      simp only [World.advance, hlook]
      cases hframe : pulled.2 with
      | overflow => exact absurd hframe hfits
      | idle | frame => exact ⟨_, rfl⟩
    obtain ⟨tick, hok⟩ := hok
    exact absurd hok (hfailed tick)
  rw [hlooked] at hhandles
  rw [hhandles.wanes.queue_of hs₁] at hdrain
  have hidle : (w₂.host.queue pulled.1.session.queue).running = none := by
    have hrun := (hhandles.wanes.host.queue pulled.1.session.queue).running
    rw [hw₁.host.idle] at hrun
    exact Option.not_isSome_iff_eq_none.mp (by rw [hrun]; exact Bool.false_ne_true)
  obtain ⟨es, hes⟩ := hhandles.deals hP
  obtain ⟨hdeals, hempty⟩ := deals_drain (hP.work hhandles.leads hhandles.wanes) hidle
  have hlast := hears_drain i pulled.1.session.token pulled.1.session.queue w₂
    pulled.1.session.queue
  have hall := hes.trans hdeals (hlast.wanes.host.queue pulled.1.session.queue).closed
  have hwanes := lenient_wanes.trans hhandles.wanes hlast.wanes
  have happly : w.apply (.tick i) = (drain w₂ pulled.1.session.queue).1 := hdrain
  rw [happly]
  obtain ⟨s', hs'⟩ : ∃ s', (drain w₂ pulled.1.session.queue).1.stage? i = some s' := by
    have hbare := hall.bare
    rw [bare?_eq hs₁, Option.map_some] at hbare
    obtain ⟨x, hx, -⟩ := Option.map_eq_some_iff.mp hbare
    obtain ⟨s', hs', -⟩ := stage_of_estate hx
    exact ⟨s', hs'⟩
  refine ⟨s', hs', (hwanes.mail hs₁ hs').trans hempty, hhandles.leads.trans hlast.leads, hwanes,
    fun hopen => ?_⟩
  have htaken := hall.taken
  rw [hempty, ← hwanes.isDeaf hs₁ hs', hopen] at htaken
  have hbare := hall.bare
  rw [bare?_eq hs₁, bare?_eq hs', Option.map_some, htaken.eq_of_open, mail_of_stage hs₁] at hbare
  exact Option.some.inj hbare

end World
end MediaHost
