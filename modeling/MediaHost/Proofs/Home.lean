import MediaHost.Proofs.Aside
import MediaHost.Proofs.Calls
import MediaHost.Proofs.Course
import MediaHost.Proofs.Mail

/-!
# Proofs — Home

A session that is up has one number, whose binding keeps to the session's own queue for good
(`Stage.Home`), whatever is asked of it and whatever work is run.  So between actions all that
waits to be told to a session waits on its own queue (`World.Tidy`).
-/

namespace MediaHost

/-! ### The queue of a session -/

namespace Stage
variable {s s' : Stage} {h : Handle} {r : Reach}

/-- Media to decode comes with no queue of its own. -/
theorem queue_setupWith (s : Stage) (d : Decoding) :
    (s.setupWith d).1.session.queue = s.session.queue := by
  cases hl : s.session.live with
  | error e =>
      have hsame : (s.setupWith d).1 = s := by simp only [setupWith, changeLive, withLive, hl]
      rw [hsame]
  | ok h => rw [session_setupWith hl]

/-- Nor does media to encode. -/
theorem queue_setupEncoding (s : Stage) (enc : Encoding) :
    (s.setupEncoding enc).1.session.queue = s.session.queue := by
  by_cases he : enc.size.isEmpty = true
  · simp only [setupEncoding, he, if_true]
  rw [setupEncoding_eq s (by simpa using he)]
  refine Aside.withLive (f := fun h s => (encode h enc s, ())) fun h => ?_
  simp only [encode, session_resetStream, modify, onHost, session_closeMedia]

/-- A picture of another size sets up, plays and hands over on the same queue. -/
theorem queue_consumeSized (s : Stage) (size : Size) (data : Array UInt8) :
    (s.consumeSized size data).1.session.queue = s.session.queue := by
  simp only [consumeSized]
  split
  · rfl
  split
  · exact Aside.consume s data
  · next enc _ =>
      split
      · exact Aside.consume s data
      have hs := queue_setupEncoding s { enc with size := size }
      split
      · next heq => rwa [heq] at hs
      · next s₁ heq =>
          rw [heq] at hs
          have hp := aside_queue.play s₁
          split
          · next heq' =>
              rw [heq'] at hp
              exact hp.trans hs
          · next s₂ heq' =>
              rw [heq'] at hp
              exact (Aside.consume s₂ data).trans (hp.trans hs)

/-- A start brings up, sets up and plays on the same queue. -/
theorem queue_start (s : Stage) : s.start.1.session.queue = s.bringUp.1.session.queue := by
  rcases start_cases s with ⟨-, hs⟩ | ⟨uri, video, audio, -, hs⟩
  · rw [hs]
  · rw [hs]
    exact (aside_queue.play _).trans (queue_setupWith _ _)

/-- A session stays on its queue, unless it is told to share another one. -/
theorem queue_exec (s : Stage) {c : Command} (hc : ∀ q, c ≠ .share q) :
    (c.exec s).1.session.queue = s.session.queue := by
  cases c with
  | share q => exact absurd rfl (hc q)
  | setup uri video audio => exact queue_setupWith s _
  | setupWith d => exact queue_setupWith s d
  | setupEncoding enc => exact queue_setupEncoding s enc
  | start => exact (queue_start s).trans (aside_queue.bringUp s)
  | consumeSized size data => exact queue_consumeSized s size data
  | observe topic label program => rfl
  | destroy => exact (retains_destroy s).queue
  | _ => exact aside_queue.exec rfl rfl s

/-- The binding of a session that is up keeps to the session's queue. -/
def Home (s : Stage) : Prop :=
  ∀ t, s.session.token = some t → t < s.host.arena.next ∧
    ∀ y, s.host.arena.resolve t = some y → y.queue = s.session.queue

/-- Whatever is done to the host, no binding changes its queue. -/
theorem Home.deeds (hh : s.Home) (hd : Host.Deeds r s.host s'.host)
    (ht : ∀ {t}, s'.session.token = some t → s.session.token = some t)
    (hq : s'.session.queue = s.session.queue) : s'.Home := by
  intro t htok
  obtain ⟨hlt, hhome⟩ := hh t (ht htok)
  refine ⟨Nat.lt_of_lt_of_le hlt hd.next_le, fun y' hy' => ?_⟩
  obtain ⟨y, hy, hyq⟩ := hd.queue_of hlt hy'
  exact hyq.symm.trans ((hhome y hy).trans hq.symm)

/-- A session that comes up registers its own queue. -/
theorem home_bringUp (ha : Books.Attached s.host.ledger s.index s.session.wiring)
    (hh : s.Home) : s.bringUp.1.Home := by
  by_cases hd : s.session.phase.isDestroyed = true
  · have hsame : s.bringUp.1 = s := by simp [bringUp, hd]
    rwa [hsame]
  rw [Bool.not_eq_true] at hd
  by_cases hl : s.session.lease.isSome = true
  · have hsame : s.bringUp.1 = s := by simp [bringUp, hd, hl]
    rwa [hsame]
  rw [Bool.not_eq_true] at hl
  -- a session that did not come up has no number
  have hdown : ∀ x : Stage, x.session = s.session → x.Home := by
    intro x hx t ht
    have hnone : s.session.token = none := congrArg Wiring.token (wiring_of_lease ha hl)
    rw [hx, hnone] at ht
    cases ht
  by_cases hact : s.host.addRef.context.isActive = true
  · rcases hc : s.bound.engine.create s.session.name .all s.host.addRef.arena.next with
      ⟨e, _ | id⟩
    · rw [bringUp_refused hd hl hact hc]
      exact hdown _ rfl
    · rw [bringUp_made hd hl hact hc]
      intro t ht
      obtain rfl := Option.some.inj ht
      refine ⟨Nat.lt_succ_self _, fun y hy => ?_⟩
      have hr := Arena.resolve_register (a := s.host.addRef.arena) (t := s.host.addRef.arena.next)
        s.session.queue (.session s.index)
      rw [if_pos rfl] at hr
      obtain rfl := Option.some.inj (hr.symm.trans hy)
      rfl
  · rw [bringUp_inactive hd hl (by simpa using hact)]
    exact hdown _ rfl

/-- Every command of a session. -/
theorem home_exec (ha : Books.Attached s.host.ledger s.index s.session.wiring) (hc : s.Coupled)
    (hlate : ∀ x ∈ s.host.late, s.host.arena.resolve x.userdata = none) (hh : s.Home)
    (c : Command) : (c.exec s).1.Home := by
  have hw := within_reach ha
  have hkeeps : Keeps s (c.exec s).1 → (∀ q, c ≠ .share q) → (c.exec s).1.Home := by
    intro hk hne
    refine hh.deeds (deeds_exec ha hw hlate c) (fun ht => ?_) (queue_exec s hne)
    exact (congrArg Wiring.token hk.wiring).symm.trans ht
  cases c with
  | share q =>
      simp only [Command.exec, share]
      split
      · exact hh
      · next hnone =>
          -- only a session without a number may change its queue
          intro t ht
          exact absurd (Option.isSome_of_eq_some ht) hnone
  | bringUp => exact home_bringUp ha hh
  | start =>
      refine (home_bringUp ha hh).deeds (deeds_started ha hw) (fun ht => ?_) (queue_start s)
      exact (congrArg Wiring.token (start_spec s).1.wiring).symm.trans ht
  | destroy =>
      intro t ht
      have hnone : s.destroy.session.token = none :=
        congrArg Wiring.token (destroys_destroy ha hc).wiring
      cases hnone.symm.trans ht
  | _ => exact hkeeps (keeps_exec s _ (by simp) (by simp) (by simp)) (by simp)

end Stage

/-! ### Between actions -/

namespace World
variable {w w₁ w' : World} {i j : Nat} {s : Stage}

/-- What a session is known by to those who write to it. -/
def address (w : World) (i : Nat) : Option (Option Nat × Nat) :=
  (w.sessions.get? i).map fun x => (x.token, x.queue)

/-- Nothing was queued to be told to anybody, and everybody kept his number and his queue. -/
structure Wanes (w w' : World) : Prop where
  host : Host.Wanes w.host w'.host
  address : ∀ i, w'.address i = w.address i

/-- A change of the host leaves everybody his number and his queue. -/
theorem Wanes.of_host {h : Host} (hh : Host.Wanes w.host h) : Wanes w { w with host := h } :=
  ⟨hh, fun _ => rfl⟩

/-- A change of sessions that is about neither numbers nor queues. -/
theorem address_modifySession (w : World) (j : Nat) {f : Session → Session}
    (ht : ∀ x, (f x).token = x.token) (hq : ∀ x, (f x).queue = x.queue) (i : Nat) :
    (w.modifySession j f).address i = w.address i := by
  simp only [address, get?_modifySession]
  split
  · rw [Option.map_map]
    exact Option.map_congr fun x _ => Prod.ext (ht x) (hq x)
  · rfl

/-- What programs do apart from observing. -/
theorem lenient_wanes : Lenient Wanes where
  refl _ := ⟨.refl _, fun _ => rfl⟩
  trans h₁ h₂ := ⟨h₁.host.trans h₂.host, fun i => (h₂.address i).trans (h₁.address i)⟩
  record _ _ _ := .of_host ⟨rfl, fun _ => .refl _⟩
  note _ _ _ := .of_host ⟨rfl, fun _ => .refl _⟩
  submit w q p := .of_host (Host.wanes_submit w.host q p)
  close w q := .of_host (Host.wanes_close w.host q)

/-- Observers may come and go. -/
theorem wanes_observers (w : World) (i : Nat) (o : Observers Observer) :
    Wanes w (setObservers i o w) :=
  ⟨.refl _, address_modifySession w i (fun _ => rfl) fun _ => rfl⟩

/-- A session that goes back to the start of its media only speaks to the engine. -/
theorem host_loopBack (i : Nat) (w : World) : ∃ e, (loopBack i w).host = w.host.setEngine e := by
  have hsame : ∃ e, w.host = w.host.setEngine e := ⟨w.host.engine, rfl⟩
  simp only [loopBack]
  split
  · exact hsame
  · split
    · split
      · exact ⟨_, rfl⟩
      · exact hsame
    · exact hsame

/-- A session that stops over an error only speaks to the engine. -/
theorem host_stopFailed (i : Nat) (w : World) :
    ∃ e, (stopFailed i w).host = w.host.setEngine e := by
  have hsame : ∃ e, w.host = w.host.setEngine e := ⟨w.host.engine, rfl⟩
  simp only [stopFailed]
  split
  · exact hsame
  · split
    · simp only [modifySession]
      split
      · exact ⟨_, rfl⟩
      · exact hsame
    · exact hsame

/-- What a session does that is told of an event. -/
theorem reacts_wanes (i : Nat) : Reacts Wanes i where
  observers w o := wanes_observers w i o
  account w e := ⟨.refl _, address_modifySession w i (fun _ => rfl) fun _ => rfl⟩
  loopBack w := by
    obtain ⟨e, he⟩ := host_loopBack i w
    refine ⟨?_, fun j => by simp only [address, sessions_loopBack]⟩
    rw [he]
    exact ⟨rfl, fun _ => .refl _⟩
  stopFailed w := by
    obtain ⟨e, he⟩ := host_stopFailed i w
    refine ⟨?_, fun j => ?_⟩
    · rw [he]
      exact ⟨rfl, fun _ => .refl _⟩
    · simp only [World.stopFailed]
      split
      · rfl
      · split
        · rw [address_modifySession _ i (fun _ => ?_) fun _ => ?_]
          · split <;> rfl
          · rfl
          · rfl
        · rfl

/-- A drain takes the batch first, and runs it. -/
theorem wanes_drainBy {d : Drain} (hd : ∀ w q, Wanes w (d w q).1) (w : World) (q : Nat) :
    Wanes w (drainBy d w q).1 := by
  simp only [drainBy]
  split
  · exact lenient_wanes.note w rfl
  · exact lenient_wanes.refl w
  · next jobs y hbegin =>
      obtain ⟨hrun, -, rfl⟩ := EventQueue.batch_begin hbegin
      have hnext : ∀ w, Wanes w (w.onHost (·.modifyQueue q (·.next))) := fun w =>
        .of_host (Host.wanes_modifyQueue w.host q fun x => ⟨Option.isSome_map, id, id⟩)
      have hbatch : ∀ w, Wanes w (runBatch d q jobs w) :=
        lenient_wanes.runBatch hnext fun job _ => lenient_wanes.runJob reacts_wanes hd q job
      have hwork := hbatch (w.onHost (·.modifyQueue q fun _ =>
        { w.host.queue q with pending := [], running := some jobs }))
      refine ⟨⟨hwork.host.arena, fun p => ?_⟩, hwork.address⟩
      have hp := hwork.host.queue p
      simp only [onHost, Host.queue_modifyQueue_eq] at hp ⊢
      split
      · next h =>
          rw [if_pos h] at hp
          -- the queue is idle before and after
          refine ⟨?_, hp.closed ∘ (h ▸ ·), fun hm => ?_⟩
          · rw [← h, hrun]
            rfl
          · cases hp.letters hm
      · next h => rwa [if_neg h] at hp

/-- Drains may nest to any depth. -/
theorem wanes_drainTo (depth : Nat) (w : World) (q : Nat) : Wanes w (drainTo depth w q).1 := by
  induction depth generalizing w q with
  | zero => exact lenient_wanes.refl w
  | succ depth ih => exact wanes_drainBy ih w q

theorem wanes_drain (w : World) (q : Nat) : Wanes w (drain w q).1 := wanes_drainTo _ w q

/-- Books are kept, no queue is being drained, and whoever is registered has one queue for what
waits for him. -/
structure Tidy (w : World) : Prop where
  sound : w.Sound
  claimed : w.books.Claimed
  host : w.host.Tidy
  home : ∀ {i s}, w.stage? i = some s → s.Home

/-- Books move, queues are tidy and sessions at home. -/
theorem Tidy.of_steps {leased : Bool} (hw : w.Tidy) (hs : Steps leased w w') (hh : w'.host.Tidy)
    (hm : ∀ i s, w'.stage? i = some s → s.Home) : w'.Tidy :=
  ⟨hs.sound, hs.moves.preserves (fun _ _ => Move.claimed) hw.claimed, hh, fun {i s} => hm i s⟩

/-- Deeds of others leave a session at home. -/
theorem Tidy.home_of_deeds {r : Reach} (hw : w.Tidy) {h : Host} (hd : Host.Deeds r w.host h)
    (hs : w.stage? i = some s) : Stage.Home { s with host := h } := by
  have hd' : Host.Deeds r s.host h := by
    rw [(stage?_eq_some.mp hs).2.2]
    exact hd
  exact (hw.home hs).deeds hd' id rfl

/-- Work leaves all sessions at home. -/
theorem Tidy.home_of_wanes (hw : w.Tidy) (hl : Wanes w w') (hs : w'.stage? i = some s) :
    s.Home := by
  obtain ⟨-, hget, hh⟩ := stage?_eq_some.mp hs
  have haddr := hl.address i
  simp only [address, hget, Option.map_some] at haddr
  obtain ⟨x, hx, hxa⟩ := Option.map_eq_some_iff.mp haddr.symm
  obtain ⟨htok, hqueue⟩ := Prod.mk.inj hxa
  intro t ht
  have hhome := hw.home (stage?_eq_some.mpr ⟨rfl, hx, rfl⟩ : w.stage? i = some ⟨i, x, w.host⟩) t
    (htok.trans ht)
  rw [hh, hl.host.arena, ← hqueue]
  exact hhome

/-- A session moves, and the others stay at home. -/
theorem Tidy.put (hw : w.Tidy) (hs : w.stage? i = some s) {s' : Stage} (ht : Stage.Turns s s')
    {r : Reach} (hd : Host.Deeds r s.host s'.host) (hh : s'.Home) : (w.put s').Tidy := by
  obtain ⟨hi, -, hhost⟩ := stage?_eq_some.mp hs
  rw [hhost] at hd
  obtain ⟨hm, hsound⟩ := hw.sound.put hs ht
  refine hw.of_steps ⟨hm, hsound⟩ (hd.tidy hw.host) fun j x hx => ?_
  rw [stage?_put] at hx
  split at hx
  · obtain rfl := Option.some.inj hx
    exact hh
  · obtain ⟨y, hy, rfl⟩ := Option.map_eq_some_iff.mp hx
    exact hw.home_of_deeds hd hy

/-- Every command of a session, and of those the others see deeds. -/
theorem Tidy.exec (hw : w.Tidy) (hs : w.stage? i = some s) (c : Command) :
    (w.put (c.exec s).1).Tidy := by
  have ha := hw.sound.attached hs
  have hc := hw.sound.coupled hs
  have hlate := hw.sound.late hs
  exact hw.put hs (Stage.turns_exec ha hc c)
    (Stage.deeds_exec ha (Stage.within_reach ha) hlate c)
    (Stage.home_exec ha hc hlate (hw.home hs) c)

/-- A look for a frame. -/
theorem Tidy.look (hw : w.Tidy) (i : Nat) : (w.act i (·.withLive Stage.pull)).1.Tidy := by
  cases hs : w.stage? i with
  | none =>
      have hsame : (w.act i (·.withLive Stage.pull)).1 = w := by simp only [act, hs]
      rwa [hsame]
  | some s =>
      rcases look_cases hs with ⟨e, hlook⟩ | ⟨h, hl, hlook⟩
      · rwa [hlook]
      · rw [hlook]
        have hp := (Stage.live_eq_ok.mp hl).2
        have hk := Stage.keeps_pull s hp
        have hd := Stage.deeds_pull (Stage.within_reach (hw.sound.attached hs)) hp
        refine hw.put hs hk.turns hd ((hw.home hs).deeds hd (fun ht => ?_) ?_)
        · exact (congrArg Wiring.token hk.wiring).symm.trans ht
        · obtain ⟨_, _, _, hsession⟩ := Stage.session_pull h s
          rw [hsession]

/-- Deeds that concern the host alone. -/
theorem Tidy.of_deeds {r : Reach} {leased : Bool} {h : Host} (hw : w.Tidy)
    (hs : Steps leased w { w with host := h }) (hd : Host.Deeds r w.host h) :
    Tidy { w with host := h } := by
  refine hw.of_steps hs (hd.tidy hw.host) fun i s hi => ?_
  obtain ⟨hj, hget, hh⟩ := stage?_eq_some.mp hi
  have hold := hw.home_of_deeds hd (stage?_eq_some.mpr ⟨hj, hget, rfl⟩ :
    w.stage? i = some { s with host := w.host })
  intro t ht
  rw [hh]
  exact hold t ht

/-- Work that is run. -/
theorem Tidy.of_wanes {leased : Bool} (hw : w.Tidy) (hs : Steps leased w w') (hl : Wanes w w') :
    w'.Tidy :=
  hw.of_steps hs (hl.host.tidy hw.host) fun _ _ => hw.home_of_wanes hl

/-- A session that is made has no number, and a queue that is new. -/
theorem Tidy.newSession (hw : w.Tidy) (q : Nat) (config : Config) (image : Image) :
    (w.apply (.newSession i q config image)).Tidy := by
  have hs := hw.sound.apply (.newSession i q config image)
  simp only [World.apply] at hs ⊢
  split at hs
  · next hc =>
      rw [if_pos hc]
      have hq : Host.Wanes w.host (w.host.modifyQueue q id) :=
        Host.wanes_modifyQueue w.host q .refl
      refine hw.of_steps hs (hq.tidy hw.host) fun j s hj => ?_
      obtain ⟨hi, hget, hh⟩ := stage?_eq_some.mp hj
      simp only [addSession, onHost, Table.get?_set] at hget
      split at hget
      · -- a new session has no number
        intro t ht
        rw [← Option.some.inj hget] at ht
        cases ht
      · refine hw.home_of_wanes (.of_host hq) (stage?_eq_some.mpr ⟨hi, hget, hh⟩)
  · next hc => rwa [if_neg hc]

/-- A tick looks for a frame, and runs work. -/
theorem Tidy.advance (hw : w.Tidy) (i : Nat) : (w.advance i).1.Tidy := by
  have hl : Wanes (w.act i (·.withLive Stage.pull)).1 (w.advance i).1 :=
    lenient_wanes.advance wanes_drain (fun w o => wanes_observers w i o)
      (fun w _ _ => .of_host ⟨rfl, fun _ => .refl _⟩) w
  have hlook := hw.look i
  have hsteps : Steps true (w.act i (·.withLive Stage.pull)).1 (w.advance i).1 :=
    steps_of_eq ((leads_advance w i).sound hlook.sound)
  exact hlook.of_wanes hsteps hl

/-- A session that is gone was destroyed first. -/
theorem Tidy.drop (hw : w.Tidy) (i : Nat) : (w.drop i).1.Tidy := by
  have hs := hw.sound.apply (.drop i)
  simp only [World.apply, World.drop] at hs ⊢
  cases hx : w.stage? i with
  | none => exact hw
  | some x =>
      simp only [hx] at hs
      have hput := hw.exec hx .destroy
      refine hw.of_steps hs hput.host fun j s hj => ?_
      obtain ⟨hi, hget, hh⟩ := stage?_eq_some.mp hj
      rw [Table.get?_erase] at hget
      split at hget
      · cases hget
      · exact hput.home (stage?_eq_some.mpr ⟨hi, hget, hh⟩)

/-- Every action leaves the world tidy. -/
theorem Tidy.apply (hw : w.Tidy) (a : Action) : (w.apply a).Tidy := by
  have hs := hw.sound.apply a
  cases a with
  | newSession i q config image => exact hw.newSession q config image
  | command i c =>
      simp only [World.apply]
      cases hx : w.stage? i with
      | none =>
          have hsame : (w.act i c.exec).1 = w := by simp only [act, hx]
          rwa [hsame]
      | some x =>
          rw [act_eq hx]
          exact hw.exec hx c
  | tick i => exact hw.advance i
  | drop i => exact hw.drop i
  | drain q => exact hw.of_wanes hs (wanes_drain w q)
  | submit q p => exact hw.of_wanes hs (.of_host (Host.wanes_submit w.host q p))
  | closeQueue q => exact hw.of_wanes hs (.of_host (Host.wanes_close w.host q))
  | push k frame => exact hw.of_deeds hs (Host.deeds_setEngine (r := .all) w.host _)
  | callback c => exact hw.of_deeds hs (.one (.signal (r := .all) w.host c (.inl trivial)))
  | arrive n => exact hw.of_deeds hs (Host.deeds_arrive (r := .all) w.host fun _ _ => trivial)
  | settle => exact hw.of_deeds hs (Host.deeds_settle w.host)
  | pace prompt => exact hw.of_deeds hs (Host.deeds_setEngine (r := .all) w.host _)
  | refuseCreate => exact hw.of_deeds hs (Host.deeds_setEngine (r := .all) w.host _)
  | failStarts count => exact hw.of_deeds hs (Host.deeds_setEngine (r := .all) w.host _)
  | addRef => exact hw.of_deeds hs (Host.deeds_addRef (r := .all) w.host)
  | releaseRef => exact hw.of_deeds hs (Host.deeds_releaseRef (r := .all) w.host)

/-- Every run leaves the world tidy. -/
theorem Tidy.run (hw : w.Tidy) (as : List Action) : (w.run as).Tidy :=
  run_preserves (fun _ a h => h.apply a) as hw

/-- A world is tidy to begin with if nobody wrote to its queues before. -/
theorem Fresh.tidy (hw : w.Fresh) (hq : w.host.queues = {}) : w.Tidy := by
  have hqueue : ∀ q, w.host.queue q = {} := by
    intro q
    simp only [Host.queue, hq]
    rfl
  refine ⟨hw.sound, ?_, ⟨fun q => ?_, fun {t} _ => ?_, fun {q t e} hm => ?_⟩, fun {i s} hs => ?_⟩
  · rw [hw.books]
    intro t target ht
    cases ht
  · rw [hqueue]
  · rw [hw.arena]
    rfl
  · rw [hqueue] at hm
    cases hm
  · have hget := (stage?_eq_some.mp hs).2.1
    rw [hw.sessions] at hget
    cases hget

end World
end MediaHost
