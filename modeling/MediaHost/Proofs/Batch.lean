import MediaHost.Proofs.Exchange

/-!
# Proofs — Batch

One drain of a queue of programs that act on the very queue they are run from.  The steps that
are run are those of the batch, each program's up to its end or its panic; what they leave
behind, what they submit and what the host is told of them can be read off that list
(`drain_runs_batch`).
-/

namespace MediaHost

/-- The steps that are run: all of them, or those up to the first panic. -/
def Program.done : Program → List Step
  | [] => []
  | .panic p :: _ => [.panic p]
  | step :: rest => step :: Program.done rest

namespace Step

/-- What a step submits. -/
def body? : Step → Option Job
  | .submit body => some (.run body)
  | _ => none

def isClose : Step → Bool
  | .close => true
  | _ => false

/-- What a step leaves behind while so much is pending.  A drain in a program runs nothing. -/
def shown (pending : Nat) : Step → List Happening
  | .log text => [.text text]
  | .drain => [.drained 0]
  | .length => [.length pending]
  | .submit _ | .close | .panic _ => []

/-- What the host is told of a step. -/
def notices : Step → List Notice
  | .drain => [.reentrantDrain]
  | .panic p => [.workPanicked p.message]
  | .log _ | .length | .submit _ | .close => []

end Step

namespace EventQueue

/-- What steps make of their queue: a close discards whatever is submitted before or after it. -/
def after (q : EventQueue Job) (steps : List Step) : EventQueue Job where
  pending :=
    if steps.any Step.isClose then [] else
      q.pending ++ if q.closed then [] else steps.filterMap Step.body?
  running := q.running
  closed := q.closed || steps.any Step.isClose

/-- What steps leave behind, each with what is pending when it is run. -/
def shown (q : EventQueue Job) : List Step → List Happening
  | [] => []
  | step :: rest => step.shown q.length ++ (q.after [step]).shown rest

@[simp] theorem after_nil (q : EventQueue Job) : q.after [] = q := by
  cases q
  simp [after]

theorem after_append (q : EventQueue Job) (steps rest : List Step) :
    q.after (steps ++ rest) = (q.after steps).after rest := by
  cases hs : steps.any Step.isClose <;> cases hr : rest.any Step.isClose <;> cases hc : q.closed <;>
    simp [after, hs, hr, hc]

theorem shown_append (q : EventQueue Job) (steps rest : List Step) :
    q.shown (steps ++ rest) = q.shown steps ++ (q.after steps).shown rest := by
  induction steps generalizing q with
  | nil => simp [shown]
  | cons step steps ih =>
      rw [List.cons_append, shown, ih, ← after_append, shown, List.append_assoc]
      rfl

end EventQueue

namespace World
variable {w w₁ w' : World} {q : Nat}

/-- What running steps on a queue makes of the world.  The batch that is being run is left
aside. -/
structure Ran (q : Nat) (steps : List Step) (w w' : World) : Prop where
  queue : (w'.host.queue q).finish = (w.host.queue q).finish.after steps
  busy : (w'.host.queue q).running.isSome = (w.host.queue q).running.isSome
  others : ∀ p, p ≠ q → w'.host.queue p = w.host.queue p
  happenings : w'.host.happenings.toList =
    w.host.happenings.toList ++ (w.host.queue q).finish.shown steps
  notices : w'.host.notices.toList = w.host.notices.toList ++ steps.flatMap Step.notices
  /-- Nothing else of the world is touched. -/
  rest : ∃ queues happenings notices,
    w' = { w with host := { w.host with
      queues := queues, happenings := happenings, notices := notices } }

namespace Ran

theorem trans {steps rest : List Step} (h₁ : Ran q steps w w₁) (h₂ : Ran q rest w₁ w') :
    Ran q (steps ++ rest) w w' := by
  obtain ⟨_, _, _, rfl⟩ := h₁.rest
  refine ⟨?_, h₂.busy.trans h₁.busy, fun p hp => (h₂.others p hp).trans (h₁.others p hp),
    ?_, ?_, h₂.rest⟩
  · rw [h₂.queue, h₁.queue, EventQueue.after_append]
  · rw [h₂.happenings, h₁.happenings, h₁.queue, EventQueue.shown_append, List.append_assoc]
  · rw [h₂.notices, h₁.notices, List.flatMap_append, List.append_assoc]

/-- A step that does not touch the queue. -/
theorem of_host {step : Step} (hb : step.body? = none) (hc : step.isClose = false)
    (hw : w' = { w with host := { w.host with
      happenings := w'.host.happenings, notices := w'.host.notices } })
    (hh : w'.host.happenings.toList =
      w.host.happenings.toList ++ step.shown (w.host.queue q).length)
    (hn : w'.host.notices.toList = w.host.notices.toList ++ step.notices) :
    Ran q [step] w w' := by
  have hqueue : ∀ p, w'.host.queue p = w.host.queue p := by
    rw [hw]
    exact fun _ => rfl
  refine ⟨?_, by rw [hqueue], fun p _ => hqueue p, ?_, hn.trans (by simp), _, _, _, hw⟩
  · simp [hqueue, EventQueue.after, hb, hc, EventQueue.finish]
  · rw [hh]
    simp [EventQueue.shown, EventQueue.length, EventQueue.finish]

/-- A step that does nothing but change what is pending. -/
theorem of_modifyQueue {steps : List Step} {f : EventQueue Job → EventQueue Job}
    (hf : (f (w.host.queue q)).finish = (w.host.queue q).finish.after steps)
    (hb : (f (w.host.queue q)).running.isSome = (w.host.queue q).running.isSome)
    (hs : (w.host.queue q).finish.shown steps = []) (hn : steps.flatMap Step.notices = []) :
    Ran q steps w (w.onHost (·.modifyQueue q f)) where
  queue := (congrArg EventQueue.finish (Host.queue_modifyQueue w.host q f)).trans hf
  busy := (congrArg (·.running.isSome) (Host.queue_modifyQueue w.host q f)).trans hb
  others _ hp := Host.queue_modifyQueue_of_ne w.host hp.symm f
  happenings := by
    rw [hs, List.append_nil]
    rfl
  notices := by
    rw [hn, List.append_nil]
    rfl
  rest := ⟨_, _, _, rfl⟩

end Ran

/-- What a panic leaves is reported to the host. -/
def report : World × Option Panic → World
  | (w, none) => w
  | (w, some p) => w.note (.workPanicked p.message)

/-- A program is run up to its end or its panic.  A drain in it is refused, as its queue is
being drained. -/
theorem ran_perform (p : Program) (w : World) (depth : Nat)
    (hr : (w.host.queue q).running.isSome) :
    Ran q p.done w (report (w.perform (drainTo (depth + 1)) q p)) := by
  induction p generalizing w with
  | nil =>
      exact ⟨(EventQueue.after_nil _).symm, rfl, fun _ _ => rfl, (List.append_nil _).symm,
        (List.append_nil _).symm, _, _, _, rfl⟩
  | cons step rest ih =>
      have hnext : ∀ {w₁}, Ran q [step] w w₁ →
          Ran q (step :: Program.done rest) w (report (w₁.perform (drainTo (depth + 1)) q rest)) :=
        fun {w₁} h₁ => h₁.trans (ih w₁ (h₁.busy.trans hr))
      cases step with
      | log text => exact hnext (.of_host rfl rfl rfl Array.toList_push (List.append_nil _).symm)
      | submit body =>
          refine hnext (.of_modifyQueue ?_ ?_ rfl rfl)
          · cases hc : (w.host.queue q).closed <;>
              simp [EventQueue.submit, EventQueue.after, EventQueue.finish, hc, Step.isClose,
                Step.body?]
          · simp [EventQueue.running_submit]
      | drain =>
          have hbusy : drainTo (depth + 1) w q = (w.note .reentrantDrain, 0) := by
            simp [drainTo, drainBy, EventQueue.begin, hr]
          simp only [perform, hbusy]
          exact hnext (.of_host rfl rfl rfl Array.toList_push Array.toList_push)
      | close =>
          refine hnext (.of_modifyQueue ?_ rfl rfl rfl)
          simp [EventQueue.close, EventQueue.after, EventQueue.finish, Step.isClose]
      | length => exact hnext (.of_host rfl rfl rfl Array.toList_push (List.append_nil _).symm)
      | panic p => exact .of_host rfl rfl rfl (List.append_nil _).symm Array.toList_push

/-- Every program of a batch is run, whatever becomes of those before it. -/
theorem ran_runBatch (ps : List Program) (w : World) (depth : Nat)
    (hr : (w.host.queue q).running.isSome) :
    Ran q (ps.flatMap Program.done) w
      (runBatch (drainTo (depth + 1)) q (ps.map .run) w) := by
  induction ps generalizing w with
  | nil =>
      exact ⟨(EventQueue.after_nil _).symm, rfl, fun _ _ => rfl, (List.append_nil _).symm,
        (List.append_nil _).symm, _, _, _, rfl⟩
  | cons p ps ih =>
      have hnext : Ran q [] w (w.onHost (·.modifyQueue q (·.next))) := by
        refine .of_modifyQueue ?_ ?_ rfl rfl
        · rw [EventQueue.after_nil]
          rfl
        · simp [EventQueue.next]
      have hp := hnext.trans (ran_perform p _ depth (hnext.busy.trans hr))
      have hstep : runBatch (drainTo (depth + 1)) q ((p :: ps).map .run) w =
          runBatch (drainTo (depth + 1)) q (ps.map .run)
            (report ((w.onHost (·.modifyQueue q (·.next))).perform (drainTo (depth + 1)) q p)) := by
        simp only [List.map_cons, runBatch, runJob]
        split <;> next heq => rw [heq]; rfl
      rw [hstep]
      exact hp.trans (ih _ (hp.busy.trans hr))

/-- One drain runs what was pending when it began and nothing else: every program of the batch,
in order, once, up to its own end or its panic.  Neither a panic nor a close holds up the rest of
the batch.  A drain in one of the programs runs nothing.  What is pending in the end is what the
batch submitted, in order, or nothing if the queue is closed by then. -/
theorem drain_runs_batch {ps : List Program} {closed : Bool}
    (hq : w.host.queue q = { pending := ps.map .run, closed := closed }) :
    (drain w q).2 = ps.length ∧
      (drain w q).1.host.queue q =
        { pending :=
            if closed || (ps.flatMap Program.done).any Step.isClose then []
            else (ps.flatMap Program.done).filterMap Step.body?
          closed := closed || (ps.flatMap Program.done).any Step.isClose } ∧
      (drain w q).1.host.happenings.toList = w.host.happenings.toList ++
        ({ closed := closed } : EventQueue Job).shown (ps.flatMap Program.done) ∧
      (drain w q).1.host.notices.toList = w.host.notices.toList ++
        (ps.flatMap Program.done).flatMap Step.notices ∧
      (∀ p, p ≠ q → (drain w q).1.host.queue p = w.host.queue p) ∧
      ∃ queues happenings notices,
        (drain w q).1 = { w with host := { w.host with
          queues := queues, happenings := happenings, notices := notices } } := by
  have hdrain : drain w q = drainBy (drainTo (w.host.queues.size + 1)) w q := rfl
  rw [hdrain]
  cases ps with
  | nil =>
      have hidle : drainBy (drainTo (w.host.queues.size + 1)) w q = (w, 0) := by
        simp [drainBy, hq, EventQueue.begin]
      rw [hidle]
      refine ⟨rfl, ?_, (List.append_nil _).symm, (List.append_nil _).symm, fun _ _ => rfl,
        _, _, _, rfl⟩
      simp [hq]
  | cons p ps =>
      generalize hjobs : (p :: ps).map Job.run = jobs at hq
      have hbatch : (w.host.queue q).begin =
          .batch jobs { running := some jobs, closed := closed } := by
        rw [hq, ← hjobs]
        rfl
      generalize hw₀ :
        w.onHost (·.modifyQueue q fun _ => { running := some jobs, closed := closed }) = w₀
      have hq₀ : w₀.host.queue q = { running := some jobs, closed := closed } := by
        rw [← hw₀]
        exact Host.queue_modifyQueue _ _ _
      have hran := ran_runBatch (q := q) (p :: ps) w₀ w.host.queues.size (by simp [hq₀])
      rw [hjobs] at hran
      simp only [drainBy, hbatch, hw₀]
      generalize runBatch (drainTo (w.host.queues.size + 1)) q jobs w₀ = w₁ at hran
      have hfinish : (w₀.host.queue q).finish = { closed := closed } := by rw [hq₀]; rfl
      obtain ⟨hqueue, -, hothers, hhappenings, hnotices, _, _, _, hrest⟩ := hran
      rw [hfinish] at hqueue hhappenings
      refine ⟨by rw [← hjobs, List.length_map], ?_, ?_, ?_, fun r hr => ?_, ?_⟩
      · refine (Host.queue_modifyQueue _ _ _).trans (hqueue.trans ?_)
        cases closed <;> simp [EventQueue.after]
      · rw [← hw₀] at hhappenings
        exact hhappenings
      · rw [← hw₀] at hnotices
        exact hnotices
      · refine (Host.queue_modifyQueue_of_ne w₁.host hr.symm _).trans ((hothers r hr).trans ?_)
        rw [← hw₀]
        exact Host.queue_modifyQueue_of_ne w.host hr.symm _
      · rw [hrest, ← hw₀]
        exact ⟨_, _, _, rfl⟩

/-- A queue with two programs, of which the first breaks off. -/
def twoPrograms : List Program :=
  [[.submit [.log "later"], .drain, .panic (.text "broken"), .log "never"],
    [.length, .submit [.submit [.drain], .close], .length]]

/-- The second program is run all the same, and finds pending what the first submitted. -/
theorem panic_leaves_batch_running :
    let w := ({} : World).onHost (·.modifyQueue 0 fun _ => { pending := twoPrograms.map .run })
    (drain w 0).2 = 2 ∧
      (drain w 0).1.host.queue 0 =
        { pending := [.run [.log "later"], .run [.submit [.drain], .close]] } ∧
      (drain w 0).1.host.happenings.toList = [.drained 0, .length 1, .length 2] ∧
      (drain w 0).1.host.notices.toList = [.reentrantDrain, .workPanicked "broken"] := by
  intro w
  obtain ⟨hcount, hqueue, hhappenings, hnotices, -⟩ :=
    @drain_runs_batch w 0 twoPrograms false rfl
  exact ⟨hcount, hqueue, hhappenings, hnotices⟩

end World
end MediaHost
