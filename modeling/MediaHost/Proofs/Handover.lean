import MediaHost.Proofs.Exchange

/-!
# Proofs — Handover

From a callback to its owner.  A drain, whatever the work it runs does, is a sequence of steps of
the exchange (`follows_drain`); so the exchange speaks for worlds too.  The numbers, the marks of
the bindings, what the queues run and who is told are put together in `callbacks_handed_over`.
-/

namespace MediaHost

/-- What a recorder left behind. -/
def Happening.recording : Happening → Option (String × Event)
  | .recorded name e => some (name, e)
  | _ => none

/-- What a recorder was told by a piece of work. -/
def Outcome.recording (o : Outcome) : Option (String × Event) :=
  match o.told, o.job with
  | some (.recorder name _), .deliver _ e => some (name, e)
  | _, _ => none

namespace Exchange
variable {x : Exchange} {w w₁ w' : World} {q : Nat}

/-- The world has the bindings and the queues of the exchange, and its recorders left behind
what they were told. -/
structure Mirrors (x : Exchange) (w : World) : Prop where
  arena : x.host.arena = w.host.arena
  queue : ∀ q, x.host.queue q = w.host.queue q
  recordings : x.ran.filterMap Outcome.recording =
    w.host.happenings.toList.filterMap Happening.recording

/-- The same done to a queue on both sides. -/
theorem Mirrors.modifyQueue (hm : Mirrors x w) (q : Nat) (f : EventQueue Job → EventQueue Job) :
    Mirrors (x.onHost (·.modifyQueue q f)) (w.onHost (·.modifyQueue q f)) := by
  refine ⟨hm.arena, fun p => ?_, hm.recordings⟩
  by_cases hp : q = p
  · subst hp
    exact (Host.queue_modifyQueue ..).trans
      ((congrArg f (hm.queue q)).trans (Host.queue_modifyQueue ..).symm)
  · exact (Host.queue_modifyQueue_of_ne _ hp f).trans
      ((hm.queue p).trans (Host.queue_modifyQueue_of_ne _ hp f).symm)

/-- What leads from `w` to `w'` is some steps of a consumer and of the work it runs, and leaves
every batch as it is. -/
def Follows (w w' : World) : Prop :=
  ∀ x, Mirrors x w → ∃ as, (∀ a ∈ as, a.isWork = true) ∧ Mirrors (x.acts as) w' ∧
    ∀ q, (w'.host.queue q).running = (w.host.queue q).running

/-- Steps of work after steps of work. -/
theorem isWork_append {as bs : List Act} (has : ∀ a ∈ as, a.isWork = true)
    (hbs : ∀ a ∈ bs, a.isWork = true) : ∀ a ∈ as ++ bs, a.isWork = true :=
  fun a ha => (List.mem_append.mp ha).elim (has a) (hbs a)

/-- Steps that lead on. -/
theorem Follows.trans (h₁ : Follows w w₁) (h₂ : Follows w₁ w') : Follows w w' := by
  intro x hm
  obtain ⟨as, has, hm₁, hr₁⟩ := h₁ x hm
  obtain ⟨bs, hbs, hm', hr'⟩ := h₂ _ hm₁
  exact ⟨as ++ bs, isWork_append has hbs, acts_append x as bs ▸ hm',
    fun q => (hr' q).trans (hr₁ q)⟩

/-- What touches neither bindings nor queues, and records nothing. -/
theorem Follows.of_host (ha : w'.host.arena = w.host.arena) (hq : w'.host.queues = w.host.queues)
    (hh : w'.host.happenings.toList.filterMap Happening.recording =
      w.host.happenings.toList.filterMap Happening.recording) : Follows w w' := by
  have hqueue : ∀ q, w'.host.queue q = w.host.queue q := fun q => by
    simp only [Host.queue, hq]
  intro x hm
  refine ⟨[], by simp, ⟨hm.arena.trans ha.symm, fun q => ?_, hm.recordings.trans hh.symm⟩,
    fun q => congrArg _ (hqueue q)⟩
  exact (hm.queue q).trans (hqueue q).symm

theorem Follows.refl (w : World) : Follows w w := .of_host rfl rfl rfl

/-- What is not said by a recorder is no step of the exchange. -/
theorem follows_record {y : Happening} (hy : y.recording = none) (w : World) :
    Follows w (w.record y) := by
  refine .of_host rfl rfl ?_
  simp [World.record, World.onHost, Host.record, List.filterMap_append, hy]

theorem follows_note (n : Notice) (w : World) : Follows w (w.note n) := .of_host rfl rfl rfl

theorem follows_modifySession (i : Nat) (f : Session → Session) (w : World) :
    Follows w (w.modifySession i f) := .of_host rfl rfl rfl

/-- What is done to a queue outside its batch is one step. -/
theorem follows_modifyQueue {f : EventQueue Job → EventQueue Job} {a : Act} (ha : a.isWork = true)
    (hact : ∀ x : Exchange, x.act a = x.onHost (·.modifyQueue q f))
    (hf : ∀ b, (f b).running = b.running) (w : World) :
    Follows w (w.onHost (·.modifyQueue q f)) := by
  intro x hm
  refine ⟨[a], by simpa using ha, ?_, fun p => ?_⟩
  · change Mirrors (x.act a) _
    rw [hact]
    exact hm.modifyQueue q f
  · by_cases hp : q = p
    · subst hp
      exact (congrArg _ (Host.queue_modifyQueue ..)).trans (hf _)
    · exact congrArg _ (Host.queue_modifyQueue_of_ne _ hp f)

/-- More work waits for the next batch. -/
theorem follows_submit (q : Nat) (p : Program) (w : World) :
    Follows w (w.onHost (·.submit q (.run p))) := by
  refine follows_modifyQueue (a := .submit q p) rfl (fun _ => rfl) (fun b => ?_) w
  simp only [EventQueue.submit]
  split <;> rfl

theorem follows_close (q : Nat) (w : World) : Follows w (w.onHost (·.modifyQueue q (·.close))) :=
  follows_modifyQueue (a := .close q) rfl (fun _ => rfl) (fun _ => rfl) w

/-- Media that starts over is between a session and the engine. -/
theorem follows_loopBack (i : Nat) (w : World) : Follows w (World.loopBack i w) := by
  simp only [World.loopBack]
  split
  · exact .refl w
  · split
    · split
      · exact .of_host rfl rfl rfl
      · exact .refl w
    · exact .refl w

/-- So is media that is stopped for its error. -/
theorem follows_stopFailed (i : Nat) (w : World) : Follows w (World.stopFailed i w) := by
  simp only [World.stopFailed]
  split
  · exact .refl w
  · split
    · split <;> exact .of_host rfl rfl rfl
    · exact .refl w

section
variable {d : Drain} (hd : ∀ w q, Follows w (d w q).1)
include hd

/-- A program's steps, down to the drains in it. -/
theorem follows_perform (q : Nat) (p : Program) (w : World) : Follows w (w.perform d q p).1 := by
  induction p generalizing w with
  | nil => exact .refl w
  | cons step rest ih =>
      cases step with
      | log text => exact (follows_record rfl w).trans (ih _)
      | submit body => exact (follows_submit q body w).trans (ih _)
      | drain => exact (hd w q).trans ((follows_record rfl _).trans (ih _))
      | close => exact (follows_close q w).trans (ih _)
      | length => exact (follows_record rfl w).trans (ih _)
      | panic p => exact .refl w

/-- An observer is a program, and a panic of it is noted. -/
theorem follows_callObserver (occasion : Occasion) (o : Observer) (w : World) :
    Follows w (World.callObserver d occasion o w).2 := by
  have h₁ := (follows_record (y := .observed o.label (o.calls + 1) occasion) rfl w).trans
    (follows_perform hd o.queue o.program _)
  simp only [World.callObserver]
  split
  · next heq => rwa [heq] at h₁
  · next heq =>
      rw [heq] at h₁
      exact h₁.trans (follows_note _ _)

theorem follows_callAll (occasion : Occasion) (l : List Observer) (w : World) :
    Follows w (Observers.callAll (World.callObserver d occasion) l w).2 := by
  induction l generalizing w with
  | nil => exact .refl w
  | cons o l ih => exact (follows_callObserver hd occasion o w).trans (ih _)

theorem follows_notify (i : Nat) (occasion : Occasion) (w : World) :
    Follows w (World.notify d i occasion w) :=
  (follows_modifySession i _ w).trans
    ((follows_callAll hd occasion _ _).trans (follows_modifySession i _ _))

/-- A session counts the event, and tells its observers. -/
theorem follows_react (i : Nat) (e : Event) (w : World) : Follows w (World.react d i e w) := by
  cases e with
  | finished =>
      exact (follows_modifySession i _ w).trans
        ((follows_notify hd i _ _).trans (follows_loopBack i _))
  | failed message =>
      exact (follows_modifySession i _ w).trans ((follows_note _ _).trans
        ((follows_stopFailed i _).trans (follows_notify hd i _ _)))
  | quality report => exact (follows_modifySession i _ w).trans (follows_notify hd i _ _)

/-- The next piece of a batch is taken out and run: one step of the exchange, and whatever the
work or its target does. -/
theorem mirrored_runJob {job : Job} {rest : List Job} (hm : Mirrors x w)
    (hr : (w.host.queue q).running = some (job :: rest)) :
    ∃ w₁, Mirrors (x.act (.run q)) w₁ ∧
      w₁.host.queues = (w.onHost (·.modifyQueue q (·.next))).host.queues ∧
      Follows w₁ (World.runJob d q job (w.onHost (·.modifyQueue q (·.next)))).1 := by
  have hact : x.act (.run q) = { x.onHost (·.modifyQueue q (·.next)) with
      ran := x.ran ++ [⟨q, job, w.host.listener job⟩] } := by
    have hlisten : x.host.listener job = w.host.listener job := by
      cases job <;> simp only [Host.listener, hm.arena]
    simp only [act, runNext, hm.queue, hr, hlisten]
    rfl
  have hnext := hm.modifyQueue q (·.next)
  -- unless a recorder is told, nothing is recorded
  have hquiet : (⟨q, job, w.host.listener job⟩ : Outcome).recording = none →
      Mirrors (x.act (.run q)) (w.onHost (·.modifyQueue q (·.next))) := by
    intro hnone
    rw [hact]
    refine ⟨hnext.arena, hnext.queue, ?_⟩
    simp only [List.filterMap_append, List.filterMap_cons, hnone, List.filterMap_nil,
      List.append_nil]
    exact hnext.recordings
  cases job with
  | run p => exact ⟨_, hquiet rfl, rfl, follows_perform hd q p _⟩
  | deliver t e =>
      simp only [World.runJob]
      split
      · next hn =>
          have hl : w.host.listener (.deliver t e) = none := congrArg (Option.map _) hn
          exact ⟨_, hquiet (by rw [hl]; rfl), rfl, .refl _⟩
      · next b hb =>
          have hl : w.host.listener (.deliver t e) = some b.target := congrArg (Option.map _) hb
          cases htarget : b.target with
          | session i =>
              have hnone := hquiet (by rw [hl, htarget]; rfl)
              exact ⟨_, hnone, rfl, follows_react hd i e _⟩
          | recorder name panics =>
              refine ⟨(World.tell d (.recorder name panics) e _).1, ?_, ?_, .refl _⟩
              · rw [hact, hl, htarget]
                refine ⟨hnext.arena, hnext.queue, ?_⟩
                have hrec : x.ran.filterMap Outcome.recording = _ := hnext.recordings
                simp only [World.tell, World.record, World.onHost, Host.record,
                  Array.toList_push, List.filterMap_append, hrec]
                rfl
              · rfl

/-- A batch is run piece by piece. -/
theorem mirrored_runBatch {jobs : List Job} (hm : Mirrors x w)
    (hr : (w.host.queue q).running = some jobs) :
    ∃ as, (∀ a ∈ as, a.isWork = true) ∧ Mirrors (x.acts as) (World.runBatch d q jobs w) ∧
      ((World.runBatch d q jobs w).host.queue q).running = some [] ∧
      ∀ p, q ≠ p →
        ((World.runBatch d q jobs w).host.queue p).running = (w.host.queue p).running := by
  induction jobs generalizing x w with
  | nil => exact ⟨[], by simp, hm, hr, fun _ _ => rfl⟩
  | cons job jobs ih =>
      obtain ⟨w₁, hm₁, hq₁, hfollows⟩ := mirrored_runJob hd hm hr
      have hqueue : ∀ p, w₁.host.queue p = (w.host.modifyQueue q (·.next)).queue p := fun p => by
        simp only [Host.queue, hq₁]
        rfl
      have hown : (w₁.host.queue q).running = some jobs := by
        rw [hqueue, Host.queue_modifyQueue]
        simp [EventQueue.next, hr]
      have hother : ∀ p, q ≠ p → (w₁.host.queue p).running = (w.host.queue p).running :=
        fun p hp => by rw [hqueue, Host.queue_modifyQueue_of_ne _ hp]
      -- the rest of the batch, after whatever the piece did
      have hrest : ∀ w', Follows w₁ w' → ∃ as, (∀ a ∈ as, a.isWork = true) ∧
          Mirrors (x.acts as) (World.runBatch d q jobs w') ∧
          ((World.runBatch d q jobs w').host.queue q).running = some [] ∧
          ∀ p, q ≠ p →
            ((World.runBatch d q jobs w').host.queue p).running = (w.host.queue p).running := by
        intro w' hf
        obtain ⟨as, has, hm', hr'⟩ := hf _ hm₁
        obtain ⟨bs, hbs, hmb, hqb, hpb⟩ := ih hm' ((hr' q).trans hown)
        refine ⟨[.run q] ++ (as ++ bs), ?_, ?_, hqb, fun p hp => ?_⟩
        · exact isWork_append (by simp [Act.isWork]) (isWork_append has hbs)
        · rw [acts_append, acts_append]
          exact hmb
        · exact (hpb p hp).trans ((hr' p).trans (hother p hp))
      simp only [World.runBatch]
      split
      · next heq =>
          rw [heq] at hfollows
          exact hrest _ hfollows
      · next heq =>
          rw [heq] at hfollows
          exact hrest _ (hfollows.trans (follows_note _ _))

/-- A drain takes the batch, runs it and ends it. -/
theorem follows_drainBy (w : World) (q : Nat) : Follows w (World.drainBy d w q).1 := by
  simp only [World.drainBy]
  split
  · exact follows_note _ w
  · exact .refl w
  · next jobs b hb =>
      obtain ⟨hidle, hrunning⟩ : (w.host.queue q).running = none ∧ b.running = some jobs := by
        simp only [EventQueue.begin] at hb
        split at hb
        · cases hb
        · next hn =>
            split at hb
            · cases hb
            · cases hb
              exact ⟨by simpa using hn, rfl⟩
      generalize hw₁ : w.onHost (·.modifyQueue q fun _ => b) = w₁
      have hown : (w₁.host.queue q).running = some jobs := by
        rw [← hw₁]
        exact (congrArg _ (Host.queue_modifyQueue ..)).trans hrunning
      have hother : ∀ p, q ≠ p → w₁.host.queue p = w.host.queue p := fun p hp => by
        rw [← hw₁]
        exact Host.queue_modifyQueue_of_ne _ hp _
      -- the batch is taken, run, and ended
      intro x hm
      have htake : Mirrors (x.act (.take q)) w₁ := by
        have hact : x.act (.take q) = x.onHost (·.modifyQueue q fun _ => b) := by
          simp only [act, take, hm.queue, hb]
        rw [hact, ← hw₁]
        exact hm.modifyQueue q _
      obtain ⟨as, has, hm', hq, hp⟩ := mirrored_runBatch hd htake hown
      generalize World.runBatch d q jobs w₁ = w₂ at hm' hq hp
      refine ⟨[.take q] ++ (as ++ [.run q]), ?_, ?_, fun p => ?_⟩
      · exact isWork_append (by simp [Act.isWork]) (isWork_append has (by simp [Act.isWork]))
      · rw [acts_append, acts_append]
        change Mirrors (((x.act (.take q)).acts as).act (.run q)) _
        generalize (x.act (.take q)).acts as = y at hm'
        have hact : y.act (.run q) = y.onHost (·.modifyQueue q (·.finish)) := by
          simp only [act, runNext, hm'.queue, hq]
        exact hact ▸ hm'.modifyQueue q _
      · by_cases hpq : q = p
        · subst hpq
          exact (congrArg _ (Host.queue_modifyQueue ..)).trans hidle.symm
        · refine (congrArg _ (Host.queue_modifyQueue_of_ne _ hpq _)).trans ?_
          exact (hp p hpq).trans (congrArg _ (hother p hpq))

end

/-- A drain, whatever the work it runs does, is some steps of a consumer and of that work. -/
theorem follows_drainTo (depth : Nat) (w : World) (q : Nat) :
    Follows w (World.drainTo depth w q).1 := by
  induction depth generalizing w q with
  | zero => exact .refl w
  | succ depth ih => exact follows_drainBy ih w q

theorem follows_drain (w : World) (q : Nat) : Follows w (World.drain w q).1 :=
  follows_drainTo _ w q

/-- Bindings and queues used in any order.

The numbers given out are 1, 2, 3 and so on.  A number resolves exactly from its registration to
its release, to the queue and the target it was given to, and its binding remembers an end or an
error exactly if one arrived since the registration and the last rearming.  What a queue runs is,
in order, what it accepted: callbacks with their events as they arrived, if their number was
registered for this queue and the queue was open.  When a delivery is run, the target is told that
its number is registered for at this point, and nobody if it is not registered any more.  A
callback with any other number changes nothing.  And a drain is such steps. -/
theorem callbacks_handed_over (as : List Act) :
    ({} : Exchange).given as = List.range' 1 (issued as) ∧
    (∀ t q target, ((after as).host.arena.resolve t).map Binding.owner = some (q, target) ↔
      Live t q target as) ∧
    (∀ t b, (after as).host.arena.resolve t = some b →
      (b.endSeen = true ↔ Reported t (· = .finished) as) ∧
      (b.errorSeen = true ↔ Reported t (∃ message, · = .failed message) as)) ∧
    (∀ q, (after as).ranOn q ++ ((after as).host.queue q).batch ++
          ((after as).host.queue q).pending <+: accepted q as ∧
        (.close q ∉ as → (after as).ranOn q ++ ((after as).host.queue q).batch ++
          ((after as).host.queue q).pending = accepted q as)) ∧
    (∀ i o, (after as).ran[i]? = some o → ∃ before later,
      as = before ++ .run o.queue :: later ∧ (after before).ran.length = i ∧
        ∀ target, o.told = some target ↔
          ∃ t e, o.job = .deliver t e ∧ Live t o.queue target before) ∧
    (∀ c, (∀ q target, ¬Live c.userdata q target as) → after (as ++ [.callback c]) = after as) ∧
    (∀ w q, Mirrors (after as) w → ∃ bs, (∀ b ∈ bs, b.isWork = true) ∧
      Mirrors (after (as ++ bs)) (World.drain w q).1) := by
  refine ⟨given_after [] as, fun t q target => owner_iff_live as, fun t b hb => ⟨?_, ?_⟩,
    fun q => accepted_begins q as, fun i o => outcome_spec, fun c hc => ?_, fun w q hm => ?_⟩
  · refine marked_iff_reported (fun _ _ => rfl) (fun _ => rfl) (fun b e => ?_) as hb
    cases e <;> simp [Binding.mark, Binding.markEnd, Binding.markError]
  · refine marked_iff_reported (fun _ _ => rfl) (fun _ => rfl) (fun b e => ?_) as hb
    cases e <;> simp [Binding.mark, Binding.markEnd, Binding.markError]
  · have hn := (resolve_eq_none_iff as).mpr hc
    rw [after_concat]
    simp only [act, onHost, Host.signal, hn]
  · obtain ⟨bs, hbs, hm', -⟩ := follows_drain w q _ hm
    refine ⟨bs, hbs, ?_⟩
    rw [after, acts_append]
    exact hm'

end Exchange
end MediaHost
