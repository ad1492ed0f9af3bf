import MediaHost.World.Operations
import MediaHost.Proofs.Ledger

/-!
# Proofs — Drain

Everything that running queued work does to a world, however deep drains are nested, is a
sequence of seven kinds of small effects (`Effect`).  So what each effect preserves, a drain
preserves (`leads_drain`).
-/

namespace MediaHost

/-- The account after one event. -/
def Health.record (h : Health) : Event → Health
  | .finished => h.recordFinish
  | .failed _ => h.recordError
  | .quality r => h.recordReport r

/-- The call of an observer for a first frame. -/
def Happening.isStart : Happening → Bool
  | .observed _ _ .started => true
  | _ => false

namespace World

/-- One thing that running queued work does. -/
inductive Effect : World → World → Prop
  | record (w : World) (x : Happening) : Effect w (w.record x)
  | note (w : World) {n : Notice} (hn : n.leak = none) : Effect w (w.note n)
  | queue (w : World) (q : Nat) (f : EventQueue Job → EventQueue Job) :
      Effect w (w.onHost (·.modifyQueue q f))
  | observers (w : World) (i : Nat) (o : Observers Observer) : Effect w (setObservers i o w)
  | account (w : World) (i : Nat) (e : Event) :
      Effect w (w.modifySession i fun s => { s with health := s.health.record e })
  | loopBack (w : World) (i : Nat) : Effect w (loopBack i w)
  | stopFailed (w : World) (i : Nat) : Effect w (stopFailed i w)

/-- Any number of effects. -/
inductive Leads : World → World → Prop
  | refl (w : World) : Leads w w
  | more {w w₁ w' : World} (h : Effect w w₁) (t : Leads w₁ w') : Leads w w'

theorem Leads.one {w w' : World} (h : Effect w w') : Leads w w' := .more h (.refl _)

/-- Effects after effects. -/
theorem Leads.trans {w w₁ w' : World} (h₁ : Leads w w₁) (h₂ : Leads w₁ w') : Leads w w' := by
  induction h₁ with
  | refl => exact h₂
  | more h _ ih => exact .more h (ih h₂)

/-- What every effect preserves, any number of them preserves. -/
theorem Leads.preserves {P : World → Prop} (hP : ∀ w w', Effect w w' → P w → P w')
    {w w' : World} (h : Leads w w') : P w → P w' := by
  induction h with
  | refl => exact id
  | more h _ ih => exact fun hw => ih (hP _ _ h hw)

/-! ### Running work -/

/-- Whatever a program does is within `R`, the drains it asks for apart. -/
structure Lenient (R : World → World → Prop) : Prop where
  refl (w : World) : R w w
  trans {w w₁ w' : World} : R w w₁ → R w₁ w' → R w w'
  record (w : World) {x : Happening} (hx : x.isStart = false) : R w (w.record x)
  note (w : World) {n : Notice} (hn : n.leak = none) : R w (w.note n)
  submit (w : World) (q : Nat) (p : Program) : R w (w.onHost (·.submit q (.run p)))
  close (w : World) (q : Nat) : R w (w.onHost (·.modifyQueue q (·.close)))

/-- What the session `i` does when it is told of an event is within `R`, the calls of its observers
apart. -/
structure Reacts (R : World → World → Prop) (i : Nat) : Prop where
  observers (w : World) (o : Observers Observer) : R w (setObservers i o w)
  account (w : World) (e : Event) :
    R w (w.modifySession i fun s => { s with health := s.health.record e })
  loopBack (w : World) : R w (loopBack i w)
  stopFailed (w : World) : R w (stopFailed i w)

section
variable {R : World → World → Prop} {d : Drain}

/-- A program, down to the drains in it. -/
theorem Lenient.perform (hR : Lenient R) (hd : ∀ w q, R w (d w q).1) (q : Nat) (p : Program)
    (w : World) : R w (w.perform d q p).1 := by
  induction p generalizing w with
  | nil => exact hR.refl w
  | cons step rest ih =>
      cases step with
      | log text => exact hR.trans (hR.record w rfl) (ih _)
      | submit body => exact hR.trans (hR.submit w q body) (ih _)
      | drain => exact hR.trans (hd w q) (hR.trans (hR.record _ rfl) (ih _))
      | close => exact hR.trans (hR.close w q) (ih _)
      | length => exact hR.trans (hR.record w rfl) (ih _)
      | panic p => exact hR.refl w

/-- What follows the record of an observer's call. -/
theorem Lenient.called (hR : Lenient R) (hd : ∀ w q, R w (d w q).1) (occasion : Occasion)
    (o : Observer) (w : World) :
    R (w.record (.observed o.label (o.calls + 1) occasion)) (callObserver d occasion o w).2 := by
  have hp : ∀ w₁, R w₁ (w₁.perform d o.queue o.program).1 := hR.perform hd o.queue o.program
  have h₁ := hp (w.record (.observed o.label (o.calls + 1) occasion))
  simp only [callObserver]
  split
  · next heq => rwa [heq] at h₁
  · next heq =>
      rw [heq] at h₁
      exact hR.trans h₁ (hR.note _ rfl)

/-- Observers one after another, panics and all. -/
theorem Lenient.callAll (hR : Lenient R) (hd : ∀ w q, R w (d w q).1) {occasion : Occasion}
    (ho : ∀ w label n, R w (w.record (.observed label n occasion))) (l : List Observer)
    (w : World) : R w (Observers.callAll (callObserver d occasion) l w).2 := by
  induction l generalizing w with
  | nil => exact hR.refl w
  | cons o l ih =>
      exact hR.trans (hR.trans (ho w _ _) (hR.called hd occasion o w)) (ih _)

/-- Observers are taken out while they are called, and put back after. -/
theorem Lenient.notify (hR : Lenient R) (hd : ∀ w q, R w (d w q).1) {occasion : Occasion}
    (ho : ∀ w label n, R w (w.record (.observed label n occasion))) {i : Nat}
    (hi : ∀ w o, R w (setObservers i o w)) (w : World) : R w (World.notify d i occasion w) :=
  hR.trans (hi w _) (hR.trans (hR.callAll hd ho _ _) (hi _ _))

/-- What a session does with an event. -/
theorem Lenient.react (hR : Lenient R) (hd : ∀ w q, R w (d w q).1) {i : Nat} (hi : Reacts R i)
    (event : Event) (w : World) : R w (World.react d i event w) := by
  have hn : ∀ w, R w (World.notify d i (.event event) w) :=
    hR.notify hd (fun w _ _ => hR.record w rfl) hi.observers
  cases event with
  | finished => exact hR.trans (hi.account w .finished) (hR.trans (hn _) (hi.loopBack _))
  | failed message =>
      exact hR.trans (hi.account w (.failed message))
        (hR.trans (hR.note _ rfl) (hR.trans (hi.stopFailed _) (hn _)))
  | quality report => exact hR.trans (hi.account w (.quality report)) (hn _)

/-- An event reaches a session or a recorder. -/
theorem Lenient.tell (hR : Lenient R) (hd : ∀ w q, R w (d w q).1) {target : Target}
    (ht : ∀ i, target = .session i → Reacts R i) (event : Event) (w : World) :
    R w (World.tell d target event w).1 := by
  cases target with
  | session i => exact hR.react hd (ht i rfl) event w
  | recorder name panics => exact hR.record w rfl

/-- A batch, piece by piece. -/
theorem Lenient.runBatch (hR : Lenient R) {q : Nat}
    (hn : ∀ w, R w (w.onHost (·.modifyQueue q (·.next)))) {jobs : List Job}
    (hj : ∀ job ∈ jobs, ∀ w, R w (World.runJob d q job w).1) (w : World) :
    R w (World.runBatch d q jobs w) := by
  induction jobs generalizing w with
  | nil => exact hR.refl w
  | cons job rest ih =>
      have h₁ := hR.trans (hn w) (hj job List.mem_cons_self _)
      have hrest : ∀ w, R w (World.runBatch d q rest w) :=
        ih fun x hx => hj x (List.mem_cons_of_mem job hx)
      simp only [World.runBatch]
      split
      · next heq =>
          rw [heq] at h₁
          exact hR.trans h₁ (hrest _)
      · next heq =>
          rw [heq] at h₁
          exact hR.trans h₁ (hR.trans (hR.note _ rfl) (hrest _))

section
variable (hR : Lenient R) (hi : ∀ i, Reacts R i)
include hR hi

/-- A piece of work: a program, or an event for whoever is registered. -/
theorem Lenient.runJob (hd : ∀ w q, R w (d w q).1) (q : Nat) (job : Job) (w : World) :
    R w (runJob d q job w).1 := by
  cases job with
  | run program => exact hR.perform hd q program w
  | deliver token event =>
      simp only [World.runJob]
      split
      · exact hR.refl w
      · exact hR.tell hd (fun i _ => hi i) event w

variable (hq : ∀ w q f, R w (w.onHost (·.modifyQueue q f)))
include hq

/-- A drain of one batch, by the drains inside it. -/
theorem Lenient.drainBy (hd : ∀ w q, R w (d w q).1) (w : World) (q : Nat) :
    R w (drainBy d w q).1 := by
  simp only [World.drainBy]
  split
  · exact hR.note w rfl
  · exact hR.refl w
  · next jobs queue _ =>
      have hbatch : ∀ w, R w (World.runBatch d q jobs w) :=
        hR.runBatch (fun w => hq w q _) fun job _ => hR.runJob hi hd q job
      exact hR.trans (hq w q _) (hR.trans (hbatch _) (hq _ q _))

/-- By induction on how deep drains may be in one another. -/
theorem Lenient.drainTo (depth : Nat) (w : World) (q : Nat) : R w (drainTo depth w q).1 := by
  induction depth generalizing w q with
  | zero => exact hR.refl w
  | succ depth ih => exact hR.drainBy hi hq ih w q

theorem Lenient.drain (w : World) (q : Nat) : R w (drain w q).1 := hR.drainTo hi hq _ w q

end

/-- A tick is a look for a frame; if that succeeds, observers may be called, and the queue is
run. -/
theorem Lenient.advance_cases (hR : Lenient R) (hd : ∀ w q, R w (World.drain w q).1) {i : Nat}
    (hi : ∀ w o, R w (setObservers i o w))
    (ho : ∀ w label n, R w (w.record (.observed label n .started))) (w : World) :
    (w.advance i).1 = (w.act i (·.withLive Stage.pull)).1 ∧
        (∀ tick, (w.advance i).2 ≠ some (.ok tick)) ∨
      ∃ w₁, R (w.act i (·.withLive Stage.pull)).1 w₁ ∧
        (w.advance i).1 = (World.drain w₁ (((w₁.sessions.get? i).map (·.queue)).getD 0)).1 := by
  simp only [World.advance]
  split
  · next heq =>
      rw [heq]
      exact .inl ⟨rfl, nofun⟩
  · next heq =>
      rw [heq]
      exact .inl ⟨rfl, nofun⟩
  · next heq =>
      rw [heq]
      exact .inl ⟨rfl, nofun⟩
  · next w₁ frame _ heq =>
      rw [heq]
      -- a first frame is announced before the queue is run
      split
      · exact .inr ⟨_, hR.notify hd ho hi w₁, rfl⟩
      · exact .inr ⟨_, hR.refl w₁, rfl⟩

/-- A tick after its pull: the observers of a start, and the drain. -/
theorem Lenient.advance (hR : Lenient R) (hd : ∀ w q, R w (World.drain w q).1) {i : Nat}
    (hi : ∀ w o, R w (setObservers i o w))
    (ho : ∀ w label n, R w (w.record (.observed label n .started))) (w : World) :
    R (w.act i (·.withLive Stage.pull)).1 (w.advance i).1 := by
  rcases hR.advance_cases hd hi ho w with ⟨hsame, -⟩ | ⟨w₁, hw₁, hdrain⟩
  · rw [hsame]
    exact hR.refl _
  · rw [hdrain]
    exact hR.trans hw₁ (hd _ _)

end

/-! ### Sequences of effects -/

/-- To lead somewhere by effects is lenient. -/
theorem lenient_leads : Lenient Leads where
  refl := .refl
  trans := .trans
  record w _ _ := .one (.record w _)
  note w _ hn := .one (.note w hn)
  submit w q _ := .one (.queue w q _)
  close w q := .one (.queue w q _)

theorem reacts_leads (i : Nat) : Reacts Leads i where
  observers w o := .one (.observers w i o)
  account w e := .one (.account w i e)
  loopBack w := .one (.loopBack w i)
  stopFailed w := .one (.stopFailed w i)

theorem leads_notify {d : Drain} (hd : ∀ w q, Leads w (d w q).1) (i : Nat) (occasion : Occasion)
    (w : World) : Leads w (notify d i occasion w) :=
  lenient_leads.notify hd (fun w _ _ => .one (.record w _)) (reacts_leads i).observers w

theorem leads_react {d : Drain} (hd : ∀ w q, Leads w (d w q).1) (i : Nat) (event : Event)
    (w : World) : Leads w (react d i event w) :=
  lenient_leads.react hd (reacts_leads i) event w

theorem leads_drainTo (depth : Nat) (w : World) (q : Nat) : Leads w (drainTo depth w q).1 :=
  lenient_leads.drainTo reacts_leads (fun w q f => .one (.queue w q f)) depth w q

/-- A drain is a sequence of effects. -/
theorem leads_drain (w : World) (q : Nat) : Leads w (drain w q).1 := leads_drainTo _ w q

/-- A tick is a look for a frame and then a sequence of effects. -/
theorem leads_advance (w : World) (i : Nat) :
    Leads (w.act i (·.withLive Stage.pull)).1 (w.advance i).1 :=
  lenient_leads.advance leads_drain (reacts_leads i).observers (fun w _ _ => .one (.record w _)) w

end World
end MediaHost
