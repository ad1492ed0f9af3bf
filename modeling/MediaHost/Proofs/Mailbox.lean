import MediaHost.Queue.Schedule
import MediaHost.World.Basic

/-!
# Proofs — Mailbox

One queue used by many threads.  Whatever the order of their steps, the work that was accepted
is, in the order of its acceptance, what was run, what is left of the batch, what is pending,
and what a close discarded (`accepted_accounted`).  The pieces of work are programs that may use
the queue themselves; a consumer left to itself does with them what a drain does
(`drain_eq_turns`).
-/

namespace MediaHost

namespace Host

theorem queue_modifyQueue (h : Host) (q : Nat) (f : EventQueue Job → EventQueue Job) :
    (h.modifyQueue q f).queue q = f (h.queue q) := by
  simp [modifyQueue, queue]

end Host

namespace EventQueue
variable {α : Type}

/-- What is left of the batch being run. -/
def batch (q : EventQueue α) : List α := q.running.getD []

/-- What is submitted before the first close, in order. -/
def accepted : List (Move α) → List α
  | [] => []
  | .submit a :: ms => a :: accepted ms
  | .close :: _ => []
  | .take :: ms => accepted ms
  | .run :: ms => accepted ms

theorem accepted_append_of_open {ms : List (Move α)} (h : .close ∉ ms) (ns : List (Move α)) :
    accepted (ms ++ ns) = accepted ms ++ accepted ns := by
  induction ms with
  | nil => rfl
  | cons m ms ih =>
      obtain ⟨hm, hms⟩ := not_or.mp (mt List.mem_cons.mpr h)
      cases m with
      | close => exact absurd rfl hm
      | _ => simp [accepted, ih hms]

theorem accepted_append_of_close {ms : List (Move α)} (h : .close ∈ ms) (ns : List (Move α)) :
    accepted (ms ++ ns) = accepted ms := by
  induction ms with
  | nil => cases h
  | cons m ms ih =>
      rcases List.mem_cons.mp h with rfl | hms
      · rfl
      · cases m <;> simp [accepted, ih hms]

namespace Run
variable {r : Run α}

/-- What the closes of a schedule find pending. -/
def discarded (r : Run α) : List (Move α) → List α
  | [] => []
  | .close :: ms => r.queue.pending ++ (r.move .close).discarded ms
  | m :: ms => (r.move m).discarded ms

/-- Everything that was run, or is still to be run. -/
def line (r : Run α) : List α := r.executed.toList ++ r.queue.batch ++ r.queue.pending

@[simp] theorem moves_nil (r : Run α) : r.moves [] = r := rfl

@[simp] theorem moves_cons (r : Run α) (m : Move α) (ms : List (Move α)) :
    r.moves (m :: ms) = (r.move m).moves ms := rfl

theorem moves_append (r : Run α) (ms ns : List (Move α)) :
    r.moves (ms ++ ns) = (r.moves ms).moves ns :=
  List.foldl_append

/-! ### One move -/

theorem closed_move (r : Run α) (m : Move α) (hm : m ≠ .close) :
    (r.move m).queue.closed = r.queue.closed := by
  cases m with
  | submit a =>
      simp only [move, submit]
      split <;> rfl
  | take =>
      simp only [move, begin]
      split
      · next heq =>
          split at heq
          · cases heq
          · split at heq <;> cases heq
            rfl
      · rfl
  | run =>
      simp only [move, step]
      split <;> rfl
  | close => exact absurd rfl hm

/-- A piece goes from the batch to what was run. -/
theorem line_step (r : Run α) : r.step.line = r.line := by
  simp only [step]
  split
  · rfl
  · next h => simp [line, batch, finish, h]
  · next h => simp [line, batch, next, h]

/-- The batch of a drain is what was pending. -/
theorem line_take (r : Run α) : (r.move .take).line = r.line := by
  simp only [move, begin]
  by_cases hr : r.queue.running.isSome = true
  · simp [hr]
  · by_cases hp : r.queue.pending.isEmpty = true
    · simp [hr, hp]
    · have hn : r.queue.running = none := by simpa using hr
      simp [hp, hn, line, batch]

theorem line_submit (ho : r.queue.closed = false) (a : α) :
    (r.move (.submit a)).line = r.line ++ [a] := by
  simp [move, submit, ho, line, batch]

/-- Nothing is pending on a closed queue, whatever is done. -/
theorem pending_move (hc : r.queue.closed = true) (hp : r.queue.pending = []) (m : Move α) :
    (r.move m).queue.closed = true ∧ (r.move m).queue.pending = [] ∧
      (r.move m).line = r.line := by
  cases m with
  | submit a => simp [move, submit, hc, hp]
  | take =>
      refine ⟨(closed_move r .take (by simp)).trans hc, ?_, line_take r⟩
      simp only [move, begin, hp, List.isEmpty_nil, if_true]
      split
      · next heq => split at heq <;> cases heq
      · exact hp
  | run =>
      refine ⟨(closed_move r .run (by simp)).trans hc, ?_, line_step r⟩
      simp only [move, step]
      split <;> simp [finish, next, hp]
  | close => simp [move, close, line, batch, hp]

/-! ### Any schedule -/

theorem moves_of_closed (hc : r.queue.closed = true) (hp : r.queue.pending = [])
    (ms : List (Move α)) :
    (r.moves ms).queue.closed = true ∧ (r.moves ms).queue.pending = [] ∧
      (r.moves ms).line = r.line ∧ r.discarded ms = [] := by
  induction ms generalizing r with
  | nil => exact ⟨hc, hp, rfl, rfl⟩
  | cons m ms ih =>
      obtain ⟨hc', hp', hl⟩ := pending_move hc hp m
      obtain ⟨h₁, h₂, h₃, h₄⟩ := ih hc' hp'
      refine ⟨h₁, h₂, h₃.trans hl, ?_⟩
      cases m <;> simp_all [discarded]

/-- What is accepted goes to the end of the line; what a close discards was at its end. -/
theorem line_moves (ho : r.queue.closed = false) (ms : List (Move α)) :
    r.line ++ accepted ms = (r.moves ms).line ++ r.discarded ms := by
  induction ms generalizing r with
  | nil => simp [accepted, discarded]
  | cons m ms ih =>
      cases m with
      | submit a =>
          have h := ih (r := r.move (.submit a)) (by rw [closed_move r _ (by simp), ho])
          rw [line_submit ho] at h
          simpa [accepted, discarded] using h
      | take =>
          have h := ih (r := r.move .take) (by rw [closed_move r _ (by simp), ho])
          rwa [line_take] at h
      | run =>
          have h := ih (r := r.move .run) (by rw [closed_move r _ (by simp), ho])
          rwa [show (r.move .run).line = r.line from line_step r] at h
      | close =>
          -- from here on nothing is accepted, and nothing is left to discard
          obtain ⟨-, -, hl, hd⟩ := moves_of_closed (r := r.move .close) rfl rfl ms
          rw [moves_cons, hl, discarded, hd]
          simp [accepted, line, move, close, batch]

theorem closed_moves (ho : r.queue.closed = false) {ms : List (Move α)} (h : .close ∉ ms) :
    (r.moves ms).queue.closed = false ∧ r.discarded ms = [] := by
  induction ms generalizing r with
  | nil => exact ⟨ho, rfl⟩
  | cons m ms ih =>
      have hm : m ≠ .close := fun hm => h (hm ▸ List.mem_cons_self)
      obtain ⟨h₁, h₂⟩ := ih ((closed_move r m hm).trans ho)
        fun hms => h (List.mem_cons_of_mem m hms)
      refine ⟨h₁, ?_⟩
      cases m <;> first | exact h₂ | exact absurd rfl hm

/-- A queue that was closed stays closed, and nothing is pending on it. -/
theorem moves_of_close (hs : r.queue.closed = true → r.queue.pending = [])
    {ms : List (Move α)} (h : .close ∈ ms) :
    (r.moves ms).queue.closed = true ∧ (r.moves ms).queue.pending = [] := by
  induction ms generalizing r with
  | nil => cases h
  | cons m ms ih =>
      by_cases hc : (r.move m).queue.closed = true
      · have hp : (r.move m).queue.pending = [] := by
          by_cases hm : m = .close
          · rw [hm]
            rfl
          · have hc' := (closed_move r m hm).symm.trans hc
            exact (pending_move hc' (hs hc') m).2.1
        obtain ⟨h₁, h₂, -⟩ := moves_of_closed hc hp ms
        exact ⟨h₁, h₂⟩
      · rcases List.mem_cons.mp h with rfl | h
        · exact absurd rfl hc
        · exact ih (fun h' => absurd h' hc) h

end Run

/-! ### Programs at work -/

/-- A queue of programs, and the program that the consumer is in the middle of. -/
structure Workshop where
  run : Run Program := {}
  /-- What is left of it; nothing between two programs. -/
  current : Program := []

/-- One step of a thread. -/
inductive Turn
  /-- A producer submits a program. -/
  | submit (p : Program)
  /-- Any thread closes the queue. -/
  | close
  /-- The consumer begins a drain. -/
  | drain
  /-- The consumer goes on: with the next step of its program, with the next program of its
  batch, or with whatever comes after the batch. -/
  | work

namespace Workshop

/-- What a turn does to the queue, if it does anything. -/
def moveOf (s : Workshop) : Turn → Option (Move Program)
  | .submit p => some (.submit p)
  | .close => some .close
  | .drain => some .take
  | .work =>
    match s.current with
    | [] => some .run
    | .submit p :: _ => some (.submit p)
    | .drain :: _ => some .take
    | .close :: _ => some .close
    | .log _ :: _ | .length :: _ | .panic _ :: _ => none

/-- What is left of the consumer's program after a turn.  A panic ends it. -/
def restOf (s : Workshop) : Turn → Program
  | .work =>
    match s.current with
    | [] => s.run.queue.batch.head?.getD []
    | .panic _ :: _ => []
    | _ :: rest => rest
  | _ => s.current

def turn (s : Workshop) (t : Turn) : Workshop where
  run := s.run.moves (s.moveOf t).toList
  current := s.restOf t

def turns (s : Workshop) (ts : List Turn) : Workshop := ts.foldl turn s

/-- What the turns do to the queue. -/
def moves (s : Workshop) : List Turn → List (Move Program)
  | [] => []
  | t :: ts => (s.moveOf t).toList ++ (s.turn t).moves ts

theorem turns_append (s : Workshop) (ts us : List Turn) :
    s.turns (ts ++ us) = (s.turns ts).turns us :=
  List.foldl_append

theorem run_turns (s : Workshop) (ts : List Turn) :
    (s.turns ts).run = s.run.moves (s.moves ts) := by
  induction ts generalizing s with
  | nil => rfl
  | cons t ts ih =>
      rw [moves, Run.moves_append]
      exact ih (s.turn t)

theorem moves_append (s : Workshop) (ts us : List Turn) :
    s.moves (ts ++ us) = s.moves ts ++ (s.turns ts).moves us := by
  induction ts generalizing s with
  | nil => rfl
  | cons t ts ih => simp only [List.cons_append, moves, ih, List.append_assoc]; rfl

/-- Any number of producers and one consumer, in any order of their steps; the programs may
submit, close, drain and panic.  What was accepted is, in order, what was run, what is left of
the batch, what is pending and what a close discarded.  So work is run at most once and in the
order of its acceptance; without a close none is lost; and once the queue was closed, by whomever,
nothing is accepted any more and nothing is ever pending again. -/
theorem accepted_accounted (ts : List Turn) :
    accepted (({} : Workshop).moves ts) =
        (({} : Workshop).turns ts).run.executed.toList ++
          (({} : Workshop).turns ts).run.queue.batch ++
          (({} : Workshop).turns ts).run.queue.pending ++
          ({} : Run Program).discarded (({} : Workshop).moves ts) ∧
      (({} : Workshop).turns ts).run.executed.toList <+: accepted (({} : Workshop).moves ts) ∧
      (.close ∉ ({} : Workshop).moves ts →
        accepted (({} : Workshop).moves ts) =
          (({} : Workshop).turns ts).run.executed.toList ++
            (({} : Workshop).turns ts).run.queue.batch ++
            (({} : Workshop).turns ts).run.queue.pending) ∧
      (.close ∈ ({} : Workshop).moves ts → ∀ us,
        accepted (({} : Workshop).moves (ts ++ us)) = accepted (({} : Workshop).moves ts) ∧
          (({} : Workshop).turns (ts ++ us)).run.queue.pending = []) := by
  generalize hms : ({} : Workshop).moves ts = ms
  have hrun : (({} : Workshop).turns ts).run = ({} : Run Program).moves ms := hms ▸ run_turns _ ts
  have hline := Run.line_moves (r := ({} : Run Program)) rfl ms
  change accepted ms = _ at hline
  rw [hrun]
  refine ⟨hline, ?_, fun h => ?_, fun h us => ?_⟩
  · rw [hline, Run.line, List.append_assoc, List.append_assoc]
    exact List.prefix_append _ _
  · rw [hline, (Run.closed_moves rfl h).2, List.append_nil]
    rfl
  · have happ : ({} : Workshop).moves (ts ++ us) = ms ++ (({} : Workshop).turns ts).moves us := by
      rw [moves_append, hms]
    refine ⟨by rw [happ, accepted_append_of_close h], ?_⟩
    rw [run_turns, happ]
    exact (Run.moves_of_close (fun _ => rfl) (List.mem_append_left _ h)).2

end Workshop

/-! ### A drain -/

/-- The queue of the images. -/
def map {β : Type} (f : α → β) (q : EventQueue α) : EventQueue β where
  pending := q.pending.map f
  running := q.running.map (·.map f)
  closed := q.closed

theorem map_submit {β : Type} (f : α → β) (q : EventQueue α) (a : α) :
    (q.submit a).map f = (q.map f).submit (f a) := by
  cases hc : q.closed <;> simp [submit, map, hc]

theorem map_next {β : Type} (f : α → β) (q : EventQueue α) :
    q.next.map f = (q.map f).next := by
  cases hr : q.running <;> simp [next, map, hr]

theorem running_submit (q : EventQueue α) (a : α) : (q.submit a).running = q.running := by
  simp only [submit]
  split <;> rfl

namespace Workshop
variable {s s₁ s' : Workshop} {w w' : World} {q : Nat}

/-- The consumer is left to itself for some turns. -/
def Goes (s s' : Workshop) : Prop := ∃ n, s' = s.turns (List.replicate n .work)

theorem Goes.refl (s : Workshop) : Goes s s := ⟨0, rfl⟩

theorem Goes.one (s : Workshop) : Goes s (s.turn .work) := ⟨1, rfl⟩

theorem Goes.trans (h₁ : Goes s s₁) (h₂ : Goes s₁ s') : Goes s s' := by
  obtain ⟨m, rfl⟩ := h₁
  obtain ⟨n, rfl⟩ := h₂
  refine ⟨m + n, ?_⟩
  rw [← List.replicate_append_replicate, turns_append]

/-- The workshop's queue is the queue `q` of the world. -/
def Stands (s : Workshop) (w : World) (q : Nat) : Prop := w.host.queue q = s.run.queue.map .run

theorem Stands.modifyQueue (hs : s.Stands w q) (f : EventQueue Job → EventQueue Job) :
    (w.onHost (·.modifyQueue q f)).host.queue q = f (s.run.queue.map .run) :=
  (Host.queue_modifyQueue w.host q f).trans (congrArg f hs)

/-- A queue that is being drained refuses a second drain. -/
theorem Stands.drainTo (hs : s.Stands w q) (hr : s.run.queue.running.isSome) (depth : Nat) :
    World.drainTo (depth + 1) w q = (w.note .reentrantDrain, 0) := by
  have hb : (w.host.queue q).begin = .busy := by
    rw [hs]
    simp [EventQueue.begin, EventQueue.map, hr]
  simp only [World.drainTo, World.drainBy, hb]

/-- The consumer left the batch and what was run before alone, and the world came to `w'`. -/
structure Performs (s : Workshop) (w' : World) (q : Nat) (s' : Workshop) : Prop where
  goes : Goes s s'
  stands : s'.Stands w' q
  executed : s'.run.executed = s.run.executed
  running : s'.run.queue.running = s.run.queue.running

theorem Performs.trans (h₁ : s.Performs w q s₁) (h₂ : s₁.Performs w' q s') :
    s.Performs w' q s' :=
  ⟨h₁.goes.trans h₂.goes, h₂.stands, h₂.executed.trans h₁.executed,
    h₂.running.trans h₁.running⟩

/-- One turn within a program. -/
theorem performs_turn {r : Run Program} (hrun : (s.turn .work).run = r)
    (hq : w'.host.queue q = r.queue.map .run) (he : r.executed = s.run.executed)
    (hr : r.queue.running = s.run.queue.running) : s.Performs w' q (s.turn .work) := by
  subst hrun
  exact ⟨.one s, hq, he, hr⟩

/-- A program is run step by step, until it ends or panics. -/
theorem Stands.perform (hs : s.Stands w q) (hr : s.run.queue.running.isSome) (depth : Nat) :
    ∃ s', s.Performs (w.perform (World.drainTo (depth + 1)) q s.current).1 q s' ∧
      s'.current = [] := by
  generalize hp : s.current = p
  induction p generalizing w s with
  | nil => exact ⟨s, ⟨.refl s, hs, rfl, rfl⟩, hp⟩
  | cons step rest ih =>
      have hrun : (s.turn .work).run = s.run.moves (s.moveOf .work).toList := rfl
      have hrest : (s.turn .work).current = s.restOf .work := rfl
      -- after one turn the rest of the program is left
      have hnext : ∀ w₁, s.Performs w₁ q (s.turn .work) → (s.turn .work).current = rest →
          ∃ s', s.Performs (w₁.perform (World.drainTo (depth + 1)) q rest).1 q s' ∧
            s'.current = [] := by
        intro w₁ h₁ hc
        obtain ⟨s', h₂, hd⟩ := ih h₁.stands (by rwa [h₁.running]) hc
        exact ⟨s', h₁.trans h₂, hd⟩
      simp only [moveOf, restOf, hp] at hrun hrest
      cases step with
      | log text => exact hnext _ (performs_turn hrun hs rfl rfl) hrest
      | submit body =>
          have hrun : (s.turn .work).run = s.run.move (.submit body) := hrun
          have hq := hs.modifyQueue (·.submit (.run body))
          rw [← map_submit] at hq
          exact hnext _ (performs_turn hrun hq rfl (running_submit _ _)) hrest
      | drain =>
          have hrun : (s.turn .work).run = s.run.move .take := hrun
          have hbusy : s.run.move .take = s.run := by
            simp [Run.move, EventQueue.begin, hr]
          simp only [World.perform, hs.drainTo hr]
          exact hnext _ (performs_turn (hrun.trans hbusy) hs rfl rfl) hrest
      | close =>
          have hrun : (s.turn .work).run = s.run.move .close := hrun
          exact hnext _ (performs_turn hrun (hs.modifyQueue _) rfl rfl) hrest
      | length => exact hnext _ (performs_turn hrun hs rfl rfl) hrest
      | panic m => exact ⟨_, performs_turn hrun hs rfl rfl, hrest⟩

/-- A batch of programs is run in order, each to its own end or panic. -/
theorem Stands.runBatch (hs : s.Stands w q) (hc : s.current = []) {ps : List Program}
    (hr : s.run.queue.running = some ps) (depth : Nat) :
    ∃ s', Goes s s' ∧
      s'.Stands (World.runBatch (World.drainTo (depth + 1)) q (ps.map .run) w) q ∧
      s'.current = [] ∧ s'.run.executed.toList = s.run.executed.toList ++ ps ∧
      s'.run.queue.running = some [] := by
  induction ps generalizing w s with
  | nil => exact ⟨s, .refl s, hs, hc, by simp, hr⟩
  | cons p ps ih =>
      -- one turn takes the program out of the batch
      have hrun : (s.turn .work).run =
          { queue := s.run.queue.next, executed := s.run.executed.push p } := by
        have hstep : (s.turn .work).run = s.run.step := by
          simp only [turn, moveOf, hc]
          rfl
        rw [hstep, Run.step, hr]
      have hcur : (s.turn .work).current = p := by
        simp [turn, restOf, hc, batch, hr]
      have hrunning : (s.turn .work).run.queue.running = some ps := by
        rw [hrun]
        simp [next, hr]
      have hstands : (s.turn .work).Stands (w.onHost (·.modifyQueue q (·.next))) q := by
        have hq := hs.modifyQueue (·.next)
        rw [← map_next] at hq
        rw [Stands, hrun]
        exact hq
      -- some more turns run it
      obtain ⟨s₁, hp, hend⟩ := hstands.perform (by simp [hrunning]) depth
      rw [hcur] at hp
      have hrunning₁ := hp.running.trans hrunning
      have hexec : s₁.run.executed.toList = s.run.executed.toList ++ [p] := by
        rw [hp.executed, hrun]
        simp
      have hnext : ∀ w', s₁.Stands w' q → ∃ s', Goes s s' ∧
          s'.Stands (World.runBatch (World.drainTo (depth + 1)) q (ps.map .run) w') q ∧
          s'.current = [] ∧ s'.run.executed.toList = s.run.executed.toList ++ p :: ps ∧
          s'.run.queue.running = some [] := by
        intro w' h'
        obtain ⟨s', hg, hs', hc', he', hr'⟩ := ih h' hend hrunning₁
        refine ⟨s', (Goes.one s).trans (hp.goes.trans hg), hs', hc', ?_, hr'⟩
        rw [he', hexec, List.append_assoc]
        rfl
      simp only [List.map_cons, World.runBatch, World.runJob]
      have hw := hp.stands
      split
      · next heq =>
          rw [heq] at hw
          exact hnext _ hw
      · next heq =>
          rw [heq] at hw
          exact hnext _ hw

/-- What a drain does to a queue of programs is what the turns of a consumer left alone do: each
program of the batch runs to its own end or panic, in order, and a second drain from inside one
of them does nothing. -/
theorem drain_eq_turns {ps : List Program} {closed : Bool}
    (hq : w.host.queue q = { pending := ps.map .run, closed := closed }) :
    ∃ n s, s = turns { run := { queue := { pending := ps, closed := closed } } }
        (.drain :: List.replicate n .work) ∧
      s.Stands (World.drain w q).1 q ∧ s.run.executed.toList = ps ∧ s.current = [] ∧
      s.run.queue.running = none ∧ (World.drain w q).2 = ps.length := by
  have hdrain : World.drain w q = World.drainBy (World.drainTo (w.host.queues.size + 1)) w q := rfl
  rw [hdrain]
  cases ps with
  | nil =>
      have hidle : (w.host.queue q).begin = .idle := by simp [hq, EventQueue.begin]
      refine ⟨0, _, rfl, ?_⟩
      simp only [World.drainBy, hidle]
      exact ⟨hq, rfl, rfl, rfl, rfl⟩
  | cons p ps =>
      generalize hjobs : (p :: ps).map Job.run = jobs at hq
      have hbatch : (w.host.queue q).begin =
          .batch jobs { running := some jobs, closed := closed } := by
        rw [hq, ← hjobs]
        rfl
      -- the turn that begins the drain
      generalize hs₀ :
        turn { run := { queue := { pending := p :: ps, closed := closed } } } .drain = s₀
      have hrunning : s₀.run.queue.running = some (p :: ps) := by
        rw [← hs₀]
        rfl
      have hstands : s₀.Stands
          (w.onHost (·.modifyQueue q fun _ => { running := some jobs, closed := closed })) q := by
        rw [Stands, ← hs₀, ← hjobs]
        exact Host.queue_modifyQueue _ _ _
      obtain ⟨s₁, ⟨n, hn⟩, hs₁, hend, hexec, hrun₁⟩ :=
        hstands.runBatch (by rw [← hs₀]; rfl) hrunning (w.host.queues.size)
      rw [hjobs] at hs₁
      -- the turn that ends it
      have hlast : (s₁.turn .work).run = { s₁.run with queue := s₁.run.queue.finish } := by
        have hstep : (s₁.turn .work).run = s₁.run.step := by
          simp only [turn, moveOf, hend]
          rfl
        rw [hstep, Run.step, hrun₁]
      refine ⟨n + 1, s₁.turn .work, ?_, ?_, ?_, ?_, ?_, ?_⟩
      · rw [List.replicate_succ', hn, ← hs₀]
        exact (turns_append _ (.drain :: List.replicate n .work) [.work]).symm
      · simp only [World.drainBy, hbatch]
        rw [Stands, hlast]
        exact hs₁.modifyQueue (·.finish)
      · rw [hlast, hexec, ← hs₀]
        rfl
      · simp [turn, restOf, hend, batch, hrun₁]
      · rw [hlast]
        rfl
      · simp only [World.drainBy, hbatch, ← hjobs, List.length_map]

end Workshop
end EventQueue
end MediaHost
