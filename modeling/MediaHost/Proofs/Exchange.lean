import MediaHost.Proofs.Ledger
import MediaHost.Proofs.Mailbox
import Mathlib.Data.List.Induction

/-!
# Proofs — Exchange

Bindings and queues used by many threads.  Numbers are given out and taken back, callbacks
arrive with whatever number, batches are taken and run piece by piece, and queues are closed, in
any order (`Exchange.Act`).  The steps themselves say which numbers are registered (`Live`), what
a binding was told (`Reported`) and what a queue accepts (`accepted`); here the exchange is shown
to do what they say, step by step from nothing.
-/

namespace MediaHost

namespace Binding
variable {Target : Type}

/-- Where the callbacks go, and who is told. -/
def owner (b : Binding Target) : Nat × Target := (b.queue, b.target)

theorem owner_mark (b : Binding Target) (e : Event) : (b.mark e).owner = b.owner := by
  cases e <;> rfl

end Binding

namespace Host

theorem queue_modifyQueue_of_ne (h : Host) {p q : Nat} (hq : p ≠ q)
    (f : EventQueue Job → EventQueue Job) : (h.modifyQueue p f).queue q = h.queue q := by
  simp [modifyQueue, queue, hq]

/-- Forgets what the binding of `t` was told, if `t` is registered. -/
def rearm (h : Host) (t : Nat) : Host :=
  if (h.arena.resolve t).isSome then { h with arena := h.arena.modify t (·.rearm) } else h

/-- Who is told by a piece of work that is run now. -/
def listener (h : Host) : Job → Option Target
  | .run _ => none
  | .deliver t _ => (h.arena.resolve t).map (·.target)

end Host

/-- A piece of work that was run. -/
structure Outcome where
  queue : Nat
  job : Job
  /-- Who was told. -/
  told : Option Target

/-- Bindings and queues in use, and what was run so far, in order. -/
structure Exchange where
  host : Host := {}
  ran : List Outcome := []

namespace Exchange

/-- One step, of whichever thread. -/
inductive Act
  | register (queue : Nat) (target : Target)
  | release (token : Nat)
  | rearm (token : Nat)
  /-- The engine calls back, with whatever number. -/
  | callback (c : Callback)
  /-- Work that is not a delivery. -/
  | submit (queue : Nat) (program : Program)
  /-- A drain begins: everything pending becomes the batch. -/
  | take (queue : Nat)
  /-- The next piece of the batch is run, or the batch ends. -/
  | run (queue : Nat)
  | close (queue : Nat)

/-- The step of a consumer, or of the work it runs. -/
def Act.isWork : Act → Bool
  | .submit .. | .take _ | .run _ | .close _ => true
  | _ => false

def onHost (x : Exchange) (f : Host → Host) : Exchange := { x with host := f x.host }

def take (x : Exchange) (q : Nat) : Exchange :=
  match (x.host.queue q).begin with
  | .batch _ queue => x.onHost (·.modifyQueue q fun _ => queue)
  | _ => x

def runNext (x : Exchange) (q : Nat) : Exchange :=
  match (x.host.queue q).running with
  | none => x
  | some [] => x.onHost (·.modifyQueue q (·.finish))
  | some (job :: _) =>
    { host := x.host.modifyQueue q (·.next)
      ran := x.ran ++ [⟨q, job, x.host.listener job⟩] }

def act (x : Exchange) : Act → Exchange
  | .register q target => x.onHost (·.register q target)
  | .release t => x.onHost (·.unregister t)
  | .rearm t => x.onHost (·.rearm t)
  | .callback c => x.onHost (·.signal c)
  | .submit q p => x.onHost (·.submit q (.run p))
  | .take q => x.take q
  | .run q => x.runNext q
  | .close q => x.onHost (·.modifyQueue q (·.close))

def acts (x : Exchange) (as : List Act) : Exchange := as.foldl act x

/-- The exchange after some steps, from nothing. -/
def after (as : List Act) : Exchange := ({} : Exchange).acts as

theorem acts_append (x : Exchange) (as bs : List Act) : x.acts (as ++ bs) = (x.acts as).acts bs :=
  List.foldl_append

theorem after_concat (as : List Act) (a : Act) : after (as ++ [a]) = (after as).act a :=
  acts_append {} as [a]

/-! ### What the steps say -/

/-- How many numbers were given out. -/
def issued (as : List Act) : Nat := as.countP fun a => a matches .register ..

/-- The number `t` was given to `target` on `q`, and not taken back since. -/
def Live (t q : Nat) (target : Target) (as : List Act) : Prop :=
  ∃ before later, as = before ++ .register q target :: later ∧ t = issued before + 1 ∧
    .release t ∉ later

/-- While `t` was registered, such an event arrived for it, and `t` was not rearmed since. -/
def Reported (t : Nat) (p : Event → Prop) (as : List Act) : Prop :=
  ∃ before e later, as = before ++ .callback ⟨t, e⟩ :: later ∧ p e ∧
    (∃ q target, Live t q target before) ∧ .rearm t ∉ later

open Classical in
/-- The work that the queue `q` accepts by one step: of a callback if its number is registered
for this queue, and nothing once the queue was closed. -/
noncomputable def accepts (q : Nat) (before : List Act) : Act → Option Job
  | .callback c =>
    if (∃ target, Live c.userdata q target before) ∧ .close q ∉ before then
      some (.deliver c.userdata c.event)
    else none
  | .submit p program => if p = q ∧ .close q ∉ before then some (.run program) else none
  | _ => none

/-- The work that the queue `q` accepts, in the order of the steps. -/
noncomputable def acceptedAfter (q : Nat) (before : List Act) : List Act → List Job
  | [] => []
  | a :: as => (accepts q before a).toList ++ acceptedAfter q (before ++ [a]) as

noncomputable def accepted (q : Nat) (as : List Act) : List Job := acceptedAfter q [] as

/-- The numbers given out, in order. -/
def given (x : Exchange) : List Act → List Nat
  | [] => []
  | .register q target :: as =>
    (x.host.arena.register q target).2 :: (x.act (.register q target)).given as
  | a :: as => (x.act a).given as

/-- Every registration takes one more number. -/
theorem issued_concat (as : List Act) (a : Act) :
    issued (as ++ [a]) = issued as + (if a matches .register .. then 1 else 0) := by
  simp [issued, List.countP_append, List.countP_singleton]

/-- A step among some steps and one more is the last one or among the others. -/
theorem cut_concat {as before later : List Act} {a b : Act}
    (h : as ++ [a] = before ++ b :: later) :
    (before = as ∧ b = a ∧ later = []) ∨
      ∃ rest, as = before ++ b :: rest ∧ later = rest ++ [a] := by
  rcases List.eq_nil_or_concat later with rfl | ⟨rest, c, rfl⟩
  · obtain ⟨rfl, ha⟩ := List.append_inj' h rfl
    exact .inl ⟨rfl, (List.singleton_inj.mp ha).symm, rfl⟩
  · rw [List.concat_eq_append, ← List.cons_append, ← List.append_assoc] at h
    obtain ⟨rfl, ha⟩ := List.append_inj' h rfl
    exact .inr ⟨rest, rfl, by rw [List.concat_eq_append, List.singleton_inj.mp ha]⟩

/-- A number is live from its registration to its release. -/
theorem live_concat {t q : Nat} {target : Target} {as : List Act} {a : Act} :
    Live t q target (as ++ [a]) ↔
      (a = .register q target ∧ t = issued as + 1) ∨
        (Live t q target as ∧ a ≠ .release t) := by
  constructor
  · rintro ⟨before, later, heq, ht, hl⟩
    rcases cut_concat heq with ⟨rfl, rfl, rfl⟩ | ⟨rest, rfl, rfl⟩
    · exact .inl ⟨rfl, ht⟩
    · simp only [List.mem_append, List.mem_singleton, not_or] at hl
      exact .inr ⟨⟨before, rest, rfl, ht, hl.1⟩, fun h => hl.2 h.symm⟩
  · rintro (⟨rfl, ht⟩ | ⟨⟨before, later, rfl, ht, hl⟩, ha⟩)
    · exact ⟨as, [], rfl, ht, by simp⟩
    · refine ⟨before, later ++ [a], by simp, ht, ?_⟩
      simp only [List.mem_append, List.mem_singleton, not_or]
      exact ⟨hl, fun h => ha h.symm⟩

/-- A report counts for a live number until it is armed again. -/
theorem reported_concat {t : Nat} {p : Event → Prop} {as : List Act} {a : Act} :
    Reported t p (as ++ [a]) ↔
      ((∃ e, a = .callback ⟨t, e⟩ ∧ p e) ∧ ∃ q target, Live t q target as) ∨
        (Reported t p as ∧ a ≠ .rearm t) := by
  constructor
  · rintro ⟨before, e, later, heq, he, hlive, hl⟩
    rcases cut_concat heq with ⟨rfl, rfl, rfl⟩ | ⟨rest, rfl, rfl⟩
    · exact .inl ⟨⟨e, rfl, he⟩, hlive⟩
    · simp only [List.mem_append, List.mem_singleton, not_or] at hl
      exact .inr ⟨⟨before, e, rest, rfl, he, hlive, hl.1⟩, fun h => hl.2 h.symm⟩
  · rintro (⟨⟨e, rfl, he⟩, hlive⟩ | ⟨⟨before, e, later, rfl, he, hlive, hl⟩, ha⟩)
    · exact ⟨as, e, [], rfl, he, hlive, by simp⟩
    · refine ⟨before, e, later ++ [a], by simp, he, hlive, ?_⟩
      simp only [List.mem_append, List.mem_singleton, not_or]
      exact ⟨hl, fun h => ha h.symm⟩

/-- What is accepted depends on what came before only. -/
theorem acceptedAfter_append (q : Nat) (before as bs : List Act) :
    acceptedAfter q before (as ++ bs) =
      acceptedAfter q before as ++ acceptedAfter q (before ++ as) bs := by
  induction as generalizing before with
  | nil => simp [acceptedAfter]
  | cons a as ih => simp [acceptedAfter, ih]

theorem accepted_concat (q : Nat) (as : List Act) (a : Act) :
    accepted q (as ++ [a]) = accepted q as ++ (accepts q as a).toList := by
  simp [accepted, acceptedAfter_append, acceptedAfter]

/-- Only numbers that were issued are live. -/
theorem Live.le_issued {t q : Nat} {target : Target} {as : List Act} (h : Live t q target as) :
    0 < t ∧ t ≤ issued as := by
  obtain ⟨before, later, rfl, rfl, -⟩ := h
  simp [issued, List.countP_append]

/-- Reports count for issued numbers only. -/
theorem Reported.le_issued {t : Nat} {p : Event → Prop} {as : List Act} (h : Reported t p as) :
    t ≤ issued as := by
  obtain ⟨before, e, later, rfl, -, ⟨q, target, hl⟩, -⟩ := h
  have := hl.le_issued.2
  simp only [issued, List.countP_append] at this ⊢
  omega

/-! ### One step -/

variable {x : Exchange} {as : List Act}

theorem arena_take (x : Exchange) (q : Nat) : (x.take q).host.arena = x.host.arena := by
  simp only [take]
  split <;> rfl

theorem arena_runNext (x : Exchange) (q : Nat) : (x.runNext q).host.arena = x.host.arena := by
  simp only [runNext]
  split <;> rfl

/-- Every act but a registration leaves the next number as it is. -/
theorem next_act (x : Exchange) (a : Act) :
    (x.act a).host.arena.next = x.host.arena.next + (if a matches .register .. then 1 else 0) := by
  cases a with
  | register q target => rfl
  | release t => rfl
  | rearm t =>
      simp only [act, onHost, Host.rearm]
      split <;> rfl
  | callback c =>
      simp only [act, onHost, Host.signal]
      split <;> rfl
  | submit q p => rfl
  | take q => exact congrArg Arena.next (arena_take x q)
  | run q => exact congrArg Arena.next (arena_runNext x q)
  | close q => rfl

/-- What one step makes of the binding of `t`, where `next` is the next number. -/
def rebind (next t : Nat) (b : Option (Binding Target)) : Act → Option (Binding Target)
  | .register q target => if next = t then some { queue := q, target := target } else b
  | .release u => if u = t then none else b
  | .rearm u => if u = t then b.map (·.rearm) else b
  | .callback c => if c.userdata = t then b.map (·.mark c.event) else b
  | _ => b

/-- What an act does to what is registered under a number. -/
theorem resolve_act (x : Exchange) (a : Act) (t : Nat) :
    (x.act a).host.arena.resolve t = rebind x.host.arena.next t (x.host.arena.resolve t) a := by
  cases a with
  | register q target => exact Arena.resolve_register q target
  | release u => exact Arena.resolve_release u
  | rearm u =>
      simp only [act, onHost, Host.rearm, rebind]
      split
      · exact Arena.resolve_modify (f := (·.rearm)) (fun _ => rfl) u
      · next hn =>
          split
          · next hu =>
              subst hu
              rw [Option.not_isSome_iff_eq_none.mp hn]
              rfl
          · rfl
  | callback c => exact Host.resolve_signal c t
  | submit q p => rfl
  | take q => exact congrArg (·.resolve t) (arena_take x q)
  | run q => exact congrArg (·.resolve t) (arena_runNext x q)
  | close q => rfl

/-! ### Numbers -/

/-- The next number is one after all that were issued. -/
theorem next_after (as : List Act) : (after as).host.arena.next = issued as + 1 := by
  induction as using List.reverseRecOn with
  | nil => rfl
  | append_singleton as a ih =>
      rw [after_concat, next_act, ih, issued_concat]
      omega

/-- Numbers are given in their order, none twice. -/
theorem given_after (as bs : List Act) :
    (after as).given bs = List.range' (issued as + 1) (issued bs) := by
  induction bs generalizing as with
  | nil => rfl
  | cons b bs ih =>
      have hbs := ih (as ++ [b])
      rw [after_concat, issued_concat] at hbs
      cases b with
      | register q target =>
          have htoken : ((after as).host.arena.register q target).2 = issued as + 1 :=
            next_after as
          simp only [given, htoken, hbs, issued, List.countP_cons, if_true]
          rfl
      | _ => simpa [given, issued, List.countP_cons] using hbs

/-- A number resolves exactly as long as it is registered, to the queue and the target it was
given to. -/
theorem owner_iff_live {t q : Nat} {target : Target} (as : List Act) :
    ((after as).host.arena.resolve t).map Binding.owner = some (q, target) ↔
      Live t q target as := by
  induction as using List.reverseRecOn generalizing q target with
  | nil =>
      refine iff_of_false (fun h => by cases h) ?_
      rintro ⟨before, later, heq, -⟩
      simp at heq
  | append_singleton as a ih =>
      rw [after_concat, resolve_act, next_after, live_concat]
      generalize (after as).host.arena.resolve t = b at ih
      cases a with
      | register p owner =>
          simp only [rebind]
          split
          · next ht =>
              -- a number not yet given out was not registered before
              have hnew : ¬Live t q target as := fun hl => by
                have := hl.le_issued
                omega
              simp [hnew, ht, Binding.owner]
          · next ht =>
              rw [ih]
              simp [show t ≠ issued as + 1 from fun h => ht h.symm]
      | release u =>
          simp only [rebind]
          split
          · next hu => simp [hu]
          · next hu => simp [ih, hu]
      | rearm u =>
          have hb : (rebind (issued as + 1) t b (.rearm u)).map Binding.owner =
              b.map Binding.owner := by
            simp only [rebind]
            split
            · rw [Option.map_map]
              rfl
            · rfl
          simp [hb, ih]
      | callback c =>
          have hb : (rebind (issued as + 1) t b (.callback c)).map Binding.owner =
              b.map Binding.owner := by
            simp only [rebind]
            split
            · rw [Option.map_map]
              exact congrArg (b.map ·) (funext fun b => b.owner_mark c.event)
            · rfl
          simp [hb, ih]
      | _ => simp [rebind, ih]

/-- Only numbers that are registered resolve. -/
theorem resolve_eq_none_iff {t : Nat} (as : List Act) :
    (after as).host.arena.resolve t = none ↔ ∀ q target, ¬Live t q target as := by
  simp only [← owner_iff_live]
  cases (after as).host.arena.resolve t with
  | none => simp
  | some b => simp [Binding.owner]

/-! ### What a binding remembers -/

/-- A mark of a binding that is set by some events: it is set if such an event arrived since the
registration and the last rearming. -/
theorem marked_iff_reported {mark : Binding Target → Bool} {p : Event → Prop}
    (hnew : ∀ q target, mark { queue := q, target := target } = false)
    (hrearm : ∀ b : Binding Target, mark b.rearm = false)
    (hmark : ∀ b e, mark (b.mark e) = true ↔ p e ∨ mark b = true) {t : Nat}
    {b : Binding Target} (as : List Act) (hb : (after as).host.arena.resolve t = some b) :
    mark b = true ↔ Reported t p as := by
  induction as using List.reverseRecOn generalizing b with
  | nil => cases hb
  | append_singleton as a ih =>
      rw [after_concat, resolve_act, next_after] at hb
      rw [reported_concat]
      have hlive : ∀ b₀, (after as).host.arena.resolve t = some b₀ →
          ∃ q target, Live t q target as := fun b₀ h₀ =>
        ⟨b₀.queue, b₀.target, (owner_iff_live as).mp (by rw [h₀]; rfl)⟩
      cases a with
      | register q target =>
          simp only [rebind] at hb
          split at hb
          · next ht =>
              -- nothing was reported for a number not yet given out
              have hold : ¬Reported t p as := fun hr => by
                have := hr.le_issued
                omega
              simp [← Option.some.inj hb, hnew, hold]
          · simpa using ih hb
      | release u =>
          simp only [rebind] at hb
          split at hb
          · cases hb
          · simpa using ih hb
      | rearm u =>
          simp only [rebind] at hb
          split at hb
          · next hu =>
              obtain ⟨b₀, -, rfl⟩ := Option.map_eq_some_iff.mp hb
              simp [hu, hrearm]
          · next hu => simpa [hu] using ih hb
      | callback c =>
          simp only [rebind] at hb
          split at hb
          · next hu =>
              obtain ⟨b₀, h₀, rfl⟩ := Option.map_eq_some_iff.mp hb
              obtain ⟨u, e⟩ := c
              obtain rfl : u = t := hu
              simp [hmark, ih h₀, hlive b₀ h₀]
          · next hu =>
              obtain ⟨u, e⟩ := c
              simpa [hu] using ih hb
      | _ => simpa using ih hb

/-! ### Queues -/

/-- The work of the queue `q` that was run, in order. -/
def ranOn (x : Exchange) (q : Nat) : List Job := (x.ran.filter (·.queue = q)).map (·.job)

/-- One queue by itself, with what was run of it. -/
def lane (x : Exchange) (q : Nat) : EventQueue.Run Job where
  queue := x.host.queue q
  executed := (x.ranOn q).toArray

/-- What a step does to the queue `q`, if it does anything. -/
def moveOf (x : Exchange) (q : Nat) : Act → Option (EventQueue.Move Job)
  | .callback c =>
    if (x.host.arena.resolve c.userdata).any (·.queue = q) then
      some (.submit (.deliver c.userdata c.event))
    else none
  | .submit p program => if p = q then some (.submit (.run program)) else none
  | .take p => if p = q then some .take else none
  | .run p => if p = q then some .run else none
  | .close p => if p = q then some .close else none
  | _ => none

/-- A change of one queue, as a move of its lane. -/
theorem lane_modifyQueue (x : Exchange) (p q : Nat) {f : EventQueue Job → EventQueue Job}
    {m : EventQueue.Move Job}
    (hm : (x.lane p).move m = { x.lane p with queue := f (x.host.queue p) }) :
    (x.onHost (·.modifyQueue p f)).lane q =
      (x.lane q).moves (if p = q then some m else none).toList := by
  split
  · next hp =>
      subst hp
      refine Eq.trans ?_ hm.symm
      exact congrArg ({ x.lane p with queue := · }) (x.host.queue_modifyQueue p f)
  · next hp =>
      exact congrArg ({ x.lane q with queue := · }) (x.host.queue_modifyQueue_of_ne hp f)

theorem lane_take (x : Exchange) (p q : Nat) :
    (x.take p).lane q = (x.lane q).moves (if p = q then some .take else none).toList := by
  simp only [take]
  split
  · next hb => exact lane_modifyQueue x p q (by simp [lane, EventQueue.Run.move, hb])
  · next hb =>
      split
      · next hp =>
          subst hp
          simp only [Option.toList_some, EventQueue.Run.moves_cons, EventQueue.Run.moves_nil]
          simp only [EventQueue.Run.move, lane]
      · rfl

theorem lane_runNext (x : Exchange) (p q : Nat) :
    (x.runNext p).lane q = (x.lane q).moves (if p = q then some .run else none).toList := by
  simp only [runNext]
  split
  · next hr =>
      have hidle : (x.lane p).move .run = x.lane p := by
        simp only [EventQueue.Run.move, EventQueue.Run.step, lane, hr]
      split
      · next hp => exact hp ▸ hidle.symm
      · rfl
  · next hr =>
      refine lane_modifyQueue x p q ?_
      simp only [EventQueue.Run.move, EventQueue.Run.step, lane, hr]
  · next job rest hr =>
      have hnext : (x.lane p).move .run =
          { queue := (x.host.queue p).next, executed := (x.ranOn p).toArray.push job } := by
        simp only [EventQueue.Run.move, EventQueue.Run.step, lane, hr]
      split
      · next hp =>
          subst hp
          refine Eq.trans ?_ hnext.symm
          simp [lane, ranOn, Host.queue_modifyQueue]
      · next hp => simp [lane, ranOn, hp, Host.queue_modifyQueue_of_ne]

/-- An act moves one lane of the exchange at most. -/
theorem lane_act (x : Exchange) (q : Nat) (a : Act) :
    (x.act a).lane q = (x.lane q).moves (x.moveOf q a).toList := by
  cases a with
  | register p target => rfl
  | release u => rfl
  | rearm u =>
      simp only [act, onHost, Host.rearm]
      split <;> rfl
  | callback c =>
      simp only [act, onHost, Host.signal, moveOf]
      split
      · next hn => simp [hn]
      · next b hb =>
          simp only [hb, Option.any_some, decide_eq_true_eq]
          exact lane_modifyQueue
            (x.onHost fun h => { h with arena := h.arena.modify c.userdata (·.mark c.event) })
            b.queue q rfl
  | submit p program => exact lane_modifyQueue x p q rfl
  | take p => exact lane_take x p q
  | run p => exact lane_runNext x p q
  | close p => exact lane_modifyQueue x p q rfl

/-- The work in a move. -/
def submitted : EventQueue.Move Job → Option Job
  | .submit job => some job
  | _ => none

theorem accepted_singleton (m : EventQueue.Move Job) :
    EventQueue.accepted [m] = (submitted m).toList := by
  cases m <;> rfl

/-- A closed queue accepts nothing. -/
theorem accepts_of_closed {q : Nat} {as : List Act} (hc : .close q ∈ as) (a : Act) :
    accepts q as a = none := by
  cases a <;> simp [accepts, hc]

/-- What an open queue accepts by one step is what the step submits to it. -/
theorem accepts_of_open {q : Nat} {as : List Act} (hc : .close q ∉ as) (a : Act) :
    accepts q as a = ((after as).moveOf q a).bind submitted := by
  cases a with
  | callback c =>
      have hlive : (∃ target, Live c.userdata q target as) ↔
          ((after as).host.arena.resolve c.userdata).any (·.queue = q) = true := by
        simp only [← owner_iff_live]
        cases (after as).host.arena.resolve c.userdata with
        | none => simp
        | some b => simp [Binding.owner]
      simp only [accepts, moveOf, hlive, hc, not_false_eq_true, and_true]
      split <;> rfl
  | submit p program =>
      simp only [accepts, moveOf, hc, not_false_eq_true, and_true]
      split <;> rfl
  | take p | run p | close p =>
      simp only [accepts, moveOf]
      split <;> rfl
  | _ => rfl

theorem moveOf_eq_close {x : Exchange} {q : Nat} {a : Act} :
    x.moveOf q a = some .close ↔ a = .close q := by
  cases a with
  | callback c | submit p program | take p | run p | close p =>
      simp only [moveOf]
      split <;> simp_all
  | _ => simp [moveOf]

/-- A queue of the exchange is a queue by itself under some moves, and accepts what the steps
say. -/
theorem lane_after (q : Nat) (as : List Act) :
    ∃ ms, (after as).lane q = ({} : EventQueue.Run Job).moves ms ∧
      EventQueue.accepted ms = accepted q as ∧ (.close ∈ ms ↔ .close q ∈ as) := by
  induction as using List.reverseRecOn with
  | nil => exact ⟨[], rfl, rfl, by simp⟩
  | append_singleton as a ih =>
      obtain ⟨ms, hlane, hacc, hclose⟩ := ih
      refine ⟨ms ++ ((after as).moveOf q a).toList, ?_, ?_, ?_⟩
      · rw [after_concat, lane_act, hlane, EventQueue.Run.moves_append]
      · rw [accepted_concat, ← hacc]
        by_cases hc : .close q ∈ as
        · rw [EventQueue.accepted_append_of_close (hclose.mpr hc), accepts_of_closed hc]
          simp
        · rw [EventQueue.accepted_append_of_open (mt hclose.mp hc), accepts_of_open hc]
          cases (after as).moveOf q a with
          | none => rfl
          | some m => exact congrArg _ (accepted_singleton m)
      · simp [hclose, moveOf_eq_close, eq_comm]

/-- The work that was accepted begins with what was run, what is left of the batch and what is
pending, in this order; there is no more unless the queue was closed. -/
theorem accepted_begins (q : Nat) (as : List Act) :
    (after as).ranOn q ++ ((after as).host.queue q).batch ++ ((after as).host.queue q).pending <+:
        accepted q as ∧
      (.close q ∉ as → (after as).ranOn q ++ ((after as).host.queue q).batch ++
        ((after as).host.queue q).pending = accepted q as) := by
  obtain ⟨ms, hlane, hacc, hclose⟩ := lane_after q as
  have hline : (after as).ranOn q ++ ((after as).host.queue q).batch ++
      ((after as).host.queue q).pending = ((after as).lane q).line := rfl
  have hmoves := EventQueue.Run.line_moves (r := ({} : EventQueue.Run Job)) rfl ms
  rw [← hlane, hacc] at hmoves
  change accepted q as = _ at hmoves
  rw [hline, hmoves]
  refine ⟨List.prefix_append _ _, fun h => ?_⟩
  rw [(EventQueue.Run.closed_moves rfl (mt hclose.mp h)).2, List.append_nil]

/-! ### Who is told -/

/-- The number `t` was given to `target` on `q`, and perhaps taken back since. -/
def Given (t q : Nat) (target : Target) (as : List Act) : Prop :=
  ∃ before later, as = before ++ .register q target :: later ∧ t = issued before + 1

/-- A live number was given to its owner. -/
theorem Live.given {t q : Nat} {target : Target} {as : List Act} (h : Live t q target as)
    (bs : List Act) : Given t q target (as ++ bs) := by
  obtain ⟨before, later, rfl, ht, -⟩ := h
  exact ⟨before, later ++ bs, by simp, ht⟩

/-- No number is given out twice. -/
theorem Given.unique {t p q : Nat} {target target' : Target} {as : List Act}
    (h : Given t p target as) (h' : Given t q target' as) : p = q ∧ target = target' := by
  obtain ⟨before, later, heq, ht⟩ := h
  obtain ⟨before', later', heq', ht'⟩ := h'
  -- a registration before the other would have been counted
  have hcount : ∀ (l c : List Act) (u : Nat) (o : Target),
      issued l < issued (l ++ .register u o :: c) := by
    intro l c u o
    simp [issued, List.countP_append]
  rw [heq] at heq'
  rcases List.append_eq_append_iff.mp heq' with ⟨c, rfl, hc⟩ | ⟨c, rfl, hc⟩
  · cases c with
    | nil => exact (by simpa using hc : (p = q ∧ target = target') ∧ later = later').1
    | cons a c =>
        obtain ⟨rfl, -⟩ := List.cons.inj hc
        have := hcount before c p target
        omega
  · cases c with
    | nil => exact (by simpa [eq_comm] using hc : (p = q ∧ target = target') ∧ later = later').1
    | cons a c =>
        obtain ⟨rfl, -⟩ := List.cons.inj hc
        have := hcount before' c q target'
        omega

/-- What was accepted was so by one of the acts. -/
theorem mem_acceptedAfter {q : Nat} {job : Job} {before as : List Act}
    (h : job ∈ acceptedAfter q before as) :
    ∃ mid a rest, as = mid ++ a :: rest ∧ accepts q (before ++ mid) a = some job := by
  induction as generalizing before with
  | nil => cases h
  | cons a as ih =>
      rcases List.mem_append.mp h with h | h
      · exact ⟨[], a, as, rfl, by simpa using h⟩
      · obtain ⟨mid, b, rest, rfl, hb⟩ := ih h
        exact ⟨a :: mid, b, rest, rfl, by simpa using hb⟩

/-- A delivery that a queue accepted is for a number of this queue. -/
theorem given_of_mem_accepted {q t : Nat} {e : Event} {as : List Act}
    (h : .deliver t e ∈ accepted q as) : ∃ target, Given t q target as := by
  obtain ⟨mid, a, rest, rfl, ha⟩ := mem_acceptedAfter h
  cases a with
  | callback c =>
      simp only [accepts, List.nil_append] at ha
      split at ha
      · next hc =>
          cases ha
          obtain ⟨target, hl⟩ := hc.1
          exact ⟨target, hl.given _⟩
      · cases ha
  | submit p program =>
      simp only [accepts] at ha
      split at ha <;> cases ha
  | _ => cases ha

/-- By one step nothing is run, or the next piece of one batch. -/
theorem ran_act (x : Exchange) (a : Act) :
    (x.act a).ran = x.ran ∨ ∃ q job rest, a = .run q ∧
      (x.host.queue q).running = some (job :: rest) ∧
      (x.act a).ran = x.ran ++ [⟨q, job, x.host.listener job⟩] := by
  cases a with
  | take q =>
      simp only [act, take]
      split
      · exact .inl rfl
      · exact .inl rfl
  | run q =>
      simp only [act, runNext]
      split
      · exact .inl rfl
      · exact .inl rfl
      · next job rest hr => exact .inr ⟨q, job, rest, rfl, hr, rfl⟩
  | _ => exact .inl rfl

/-- Of a delivery that a queue runs, the target is told that its number is registered for. -/
theorem listener_iff {q : Nat} {job : Job} {as : List Act}
    (hj : job ∈ ((after as).host.queue q).batch) (target : Target) :
    (after as).host.listener job = some target ↔
      ∃ t e, job = .deliver t e ∧ Live t q target as := by
  cases job with
  | run program => simp [Host.listener]
  | deliver t e =>
      have hmem : .deliver t e ∈ accepted q as :=
        (accepted_begins q as).1.subset
          (List.mem_append_left _ (List.mem_append_right _ hj))
      obtain ⟨own, hgiven⟩ := given_of_mem_accepted hmem
      have hown : ∀ p, Live t p target as → p = q := fun p hl =>
        (Given.unique (by simpa using hl.given []) hgiven).1
      have hlive : (after as).host.listener (.deliver t e) = some target ↔
          ∃ p, Live t p target as := by
        simp only [Host.listener, ← owner_iff_live]
        cases (after as).host.arena.resolve t with
        | none => simp
        | some b => simp [Binding.owner]
      rw [hlive]
      constructor
      · rintro ⟨p, hl⟩
        exact ⟨t, e, rfl, hown p hl ▸ hl⟩
      · rintro ⟨u, e', hjob, hl⟩
        cases hjob
        exact ⟨q, hl⟩

/-- Each piece of work that was run was run by one step, and the target was told that its number
was registered for at this point. -/
theorem outcome_spec {as : List Act} {i : Nat} {o : Outcome} (h : (after as).ran[i]? = some o) :
    ∃ before later, as = before ++ .run o.queue :: later ∧ (after before).ran.length = i ∧
      ∀ target, o.told = some target ↔
        ∃ t e, o.job = .deliver t e ∧ Live t o.queue target before := by
  induction as using List.reverseRecOn with
  | nil => cases h
  | append_singleton as a ih =>
      have hearlier : (after as).ran[i]? = some o → ∃ before later,
          as ++ [a] = before ++ .run o.queue :: later ∧ (after before).ran.length = i ∧
            ∀ target, o.told = some target ↔
              ∃ t e, o.job = .deliver t e ∧ Live t o.queue target before := by
        intro h
        obtain ⟨before, later, heq, hspec⟩ := ih h
        exact ⟨before, later ++ [a], by rw [heq]; simp, hspec⟩
      rw [after_concat] at h
      rcases ran_act (after as) a with hr | ⟨q, job, rest, rfl, hrun, hr⟩
      · exact hearlier (hr ▸ h)
      · rw [hr] at h
        rcases Nat.lt_or_ge i (after as).ran.length with hi | hi
        · rw [List.getElem?_append_left hi] at h
          exact hearlier h
        · rw [List.getElem?_append_right hi, List.getElem?_singleton] at h
          split at h
          · next hz =>
              cases h
              refine ⟨as, [], rfl, by omega, fun target => listener_iff ?_ target⟩
              simp [EventQueue.batch, hrun]
          · cases h

end Exchange
end MediaHost
