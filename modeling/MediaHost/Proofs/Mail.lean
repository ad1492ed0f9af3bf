import MediaHost.Proofs.Deeds
import MediaHost.Proofs.Exchange

/-!
# Proofs — Mail

What waits to be told to a number.  It waits on the queue of the number's binding and on no other,
and between actions no queue is being drained (`Host.Tidy`).  Deeds that do not reach the number
leave what waits for it alone (`Host.Deeds.mail`), and running what is queued adds nothing to it
(`Host.Wanes`).
-/

namespace MediaHost

/-- The event that a piece of work tells the number `token`. -/
def Job.letter? (token : Option Nat) : Job → Option Event
  | .run _ => none
  | .deliver t e => if token = some t then some e else none

/-- Work for others adds no letters. -/
theorem EventQueue.letters_submit {token : Option Nat} {job : Job}
    (hj : job.letter? token = none) (x : EventQueue Job) :
    (x.submit job).pending.filterMap (Job.letter? token) =
      x.pending.filterMap (Job.letter? token) := by
  simp only [submit]
  split
  · rfl
  · simp [hj]

theorem EventQueue.closed_submit {α : Type} (x : EventQueue α) (a : α) :
    (x.submit a).closed = x.closed := by
  simp only [submit]
  split <;> rfl

/-- What waits was there before, or was submitted. -/
theorem EventQueue.mem_pending_submit {α : Type} {x : EventQueue α} {a c : α}
    (h : c ∈ (x.submit a).pending) : c ∈ x.pending ∨ c = a := by
  simp only [submit] at h
  split at h
  · exact .inl h
  · simpa using h

/-- A drain that begins takes all that waits. -/
theorem EventQueue.batch_begin {α : Type} {x y : EventQueue α} {jobs : List α}
    (h : x.begin = .batch jobs y) :
    x.running = none ∧ jobs = x.pending ∧ y = { x with pending := [], running := some jobs } := by
  simp only [begin] at h
  split at h
  · cases h
  · next hr =>
      split at h
      · cases h
      · cases h
        exact ⟨Option.not_isSome_iff_eq_none.mp hr, rfl, rfl⟩

namespace Host
variable {r : Reach} {a b : Host} {token : Option Nat} {p q t : Nat}

/-- What waits on the queue `q` for the number, oldest first. -/
def mail (token : Option Nat) (q : Nat) (a : Host) : List Event :=
  (a.queue q).pending.filterMap (Job.letter? token)

theorem queue_modifyQueue_eq (a : Host) (p q : Nat) (f : EventQueue Job → EventQueue Job) :
    (a.modifyQueue p f).queue q = if p = q then f (a.queue q) else a.queue q := by
  split
  · next h => rw [h, queue_modifyQueue]
  · next h => exact queue_modifyQueue_of_ne a h f

/-- A change of a queue that leaves the letters in it. -/
theorem mail_modifyQueue {f : EventQueue Job → EventQueue Job}
    (hf : ∀ x : EventQueue Job, (f x).pending.filterMap (Job.letter? token) =
      x.pending.filterMap (Job.letter? token)) :
    (a.modifyQueue p f).mail token q = a.mail token q := by
  simp only [mail, queue_modifyQueue_eq]
  split
  · exact hf _
  · rfl

/-- A callback for a number waits on the queue of its binding. -/
theorem queue_signal (a : Host) (x : Callback) (q : Nat) :
    (a.signal x).queue q = if (a.arena.resolve x.userdata).any (·.queue = q) then
      (a.queue q).submit (.deliver x.userdata x.event) else a.queue q := by
  simp only [signal]
  cases a.arena.resolve x.userdata with
  | none => rfl
  | some y =>
      simp only [submit, queue_modifyQueue_eq, Option.any_some, decide_eq_true_eq]
      rfl

/-! ### Deeds out of reach -/

/-- Numbers are given out upwards. -/
theorem Deed.next_le (hd : Deed r a b) : a.arena.next ≤ b.arena.next := by
  cases hd with
  | signal x _ =>
      simp only [Host.signal]
      split <;> exact Nat.le_refl _
  | register q target => exact Nat.le_succ _
  | _ => exact Nat.le_refl _

/-- A number that is out of reach stays as it is. -/
theorem Deed.resolve (hd : Deed r a b) (ht : ¬r.owns t) (hn : t < a.arena.next) :
    b.arena.resolve t = a.arena.resolve t := by
  have hne : ∀ {u}, r.owns u → u ≠ t := by
    rintro u hu rfl
    exact ht hu
  cases hd with
  | signal x hx =>
      rw [resolve_signal]
      split
      · next hxt =>
          rcases hx with hx | hx
          · exact absurd hxt (hne hx)
          · rw [← hxt, hx]
            rfl
      · rfl
  | register q target =>
      refine (Arena.resolve_register q target).trans (if_neg ?_)
      exact Nat.ne_of_gt hn
  | unregister hu => exact (Arena.resolve_release _).trans (if_neg (hne hu))
  | rearm hu =>
      exact (Arena.resolve_modify (f := (·.rearm)) (fun _ => rfl) _).trans (if_neg (hne hu))
  | _ => rfl

/-- A binding keeps its queue, whoever it belongs to. -/
theorem Deed.queue_of (hd : Deed r a b) (hn : t < a.arena.next) {y' : Binding Target}
    (hy' : b.arena.resolve t = some y') :
    ∃ y, a.arena.resolve t = some y ∧ y.queue = y'.queue := by
  cases hd with
  | signal x _ =>
      rw [resolve_signal] at hy'
      split at hy'
      · obtain ⟨y, hy, rfl⟩ := Option.map_eq_some_iff.mp hy'
        exact ⟨y, hy, (Binding.queue_mark y x.event).symm⟩
      · exact ⟨y', hy', rfl⟩
  | register q target =>
      have hr := Arena.resolve_register (a := a.arena) (t := t) q target
      rw [if_neg (Nat.ne_of_gt hn)] at hr
      exact ⟨y', hr.symm.trans hy', rfl⟩
  | @unregister u hu =>
      have hr := Arena.resolve_release (a := a.arena) (t := t) u
      change (a.arena.release _).1.resolve t = _ at hy'
      rw [hr] at hy'
      split at hy'
      · cases hy'
      · exact ⟨y', hy', rfl⟩
  | @rearm u hu =>
      have hr := Arena.resolve_modify (a := a.arena) (t := t) (f := (·.rearm)) (fun _ => rfl) u
      change (a.arena.modify u _).resolve t = _ at hy'
      rw [hr] at hy'
      split at hy'
      · obtain ⟨y, hy, rfl⟩ := Option.map_eq_some_iff.mp hy'
        exact ⟨y, hy, rfl⟩
      · exact ⟨y', hy', rfl⟩
  | _ => exact ⟨y', hy', rfl⟩

/-- What waits for a number that is out of reach, on a queue that is out of reach. -/
theorem Deed.mail (hd : Deed r a b) (ht : ∀ {t}, token = some t → ¬r.owns t)
    (hq : ¬r.closes q) : b.mail token q = a.mail token q := by
  cases hd with
  | signal x hx =>
      simp only [Host.signal]
      split
      · rfl
      · next y hy =>
          rcases hx with hx | hx
          · refine mail_modifyQueue (EventQueue.letters_submit ?_)
            exact if_neg fun h => ht h hx
          · rw [hx] at hy
            cases hy
  | @close u hu =>
      have hne : u ≠ q := by
        rintro rfl
        exact hq hu
      simp only [Host.mail, queue_modifyQueue_of_ne a hne]
  | _ => rfl

/-- A queue that is out of reach is not closed. -/
theorem Deed.closed (hd : Deed r a b) (hq : ¬r.closes q) :
    (b.queue q).closed = (a.queue q).closed := by
  cases hd with
  | signal x hx =>
      rw [queue_signal]
      split
      · exact EventQueue.closed_submit _ _
      · rfl
  | @close u hu =>
      have hne : u ≠ q := by
        rintro rfl
        exact hq hu
      rw [queue_modifyQueue_of_ne a hne]
  | _ => rfl

/-! ### Queues between actions -/

/-- No queue is being drained, no number finds anybody before it is given out, and what waits for
a number that finds somebody waits on the queue of its binding. -/
structure Tidy (a : Host) : Prop where
  idle : ∀ q, (a.queue q).running = none
  young : ∀ {t}, a.arena.next ≤ t → a.arena.resolve t = none
  home : ∀ {q t e}, .deliver t e ∈ (a.queue q).pending →
    t < a.arena.next ∧ ∀ y, a.arena.resolve t = some y → y.queue = q

/-- A number that resolves was given out. -/
theorem Tidy.lt_of_resolve (ha : a.Tidy) {y : Binding Target} (hy : a.arena.resolve t = some y) :
    t < a.arena.next := by
  refine Nat.lt_of_not_le fun h => ?_
  rw [ha.young h] at hy
  cases hy

/-- A number that was not given out is not registered. -/
theorem Deed.young (hd : Deed r a b) (hn : a.arena.resolve t = none) (ht : b.arena.next ≤ t) :
    b.arena.resolve t = none := by
  cases hd with
  | signal x _ =>
      rw [resolve_signal, hn]
      split <;> rfl
  | register q target =>
      refine (Arena.resolve_register q target).trans ?_
      rw [if_neg (Nat.ne_of_lt ht)]
      exact hn
  | unregister hu =>
      refine (Arena.resolve_release _).trans ?_
      rw [hn]
      split <;> rfl
  | rearm hu =>
      refine (Arena.resolve_modify (f := (·.rearm)) (fun _ => rfl) _).trans ?_
      rw [hn]
      split <;> rfl
  | _ => exact hn

/-- What was waiting before a deed is where it belongs after it. -/
theorem Deed.home (hd : Deed r a b) (ha : a.Tidy) {e : Event}
    (hm : .deliver t e ∈ (a.queue q).pending) :
    t < b.arena.next ∧ ∀ y, b.arena.resolve t = some y → y.queue = q := by
  obtain ⟨hlt, hhome⟩ := ha.home hm
  refine ⟨Nat.lt_of_lt_of_le hlt hd.next_le, fun y' hy' => ?_⟩
  obtain ⟨y, hy, hyq⟩ := hd.queue_of hlt hy'
  exact hyq.symm.trans (hhome y hy)

theorem Deed.tidy_young (hd : Deed r a b) (ha : a.Tidy) (ht : b.arena.next ≤ t) :
    b.arena.resolve t = none :=
  hd.young (ha.young (Nat.le_trans hd.next_le ht)) ht

/-- A callback gives no number out. -/
theorem tidy_signal (ha : a.Tidy) (x : Callback) : (a.signal x).Tidy := by
  have hd : Deed .all a (a.signal x) := .signal a x (.inl trivial)
  refine ⟨fun q => ?_, hd.tidy_young ha, fun {q t e} hm => ?_⟩
  · rw [queue_signal]
    split
    · rw [EventQueue.running_submit, ha.idle]
    · exact ha.idle q
  · rw [queue_signal] at hm
    split at hm
    · next hany =>
        rcases EventQueue.mem_pending_submit hm with hm | hm
        · exact hd.home ha hm
        · -- what is queued now is queued with the binding it is for
          obtain ⟨y, hy, hyq⟩ := (Option.any_eq_true _ _).mp hany
          obtain ⟨rfl, rfl⟩ := Job.deliver.inj hm
          refine ⟨Nat.lt_of_lt_of_le (ha.lt_of_resolve hy) hd.next_le, fun y' hy' => ?_⟩
          rw [resolve_signal, if_pos rfl, hy] at hy'
          obtain rfl := Option.some.inj hy'
          exact (Binding.queue_mark y _).trans (of_decide_eq_true hyq)
    · exact hd.home ha hm

theorem tidy_close (ha : a.Tidy) (u : Nat) : (a.modifyQueue u (·.close)).Tidy := by
  refine ⟨fun q => ?_, ha.young, fun {q t e} hm => ?_⟩
  · rw [queue_modifyQueue_eq]
    split
    · exact ha.idle q
    · exact ha.idle q
  · rw [queue_modifyQueue_eq] at hm
    split at hm
    · cases hm
    · exact ha.home hm

/-- Deeds leave the queues tidy. -/
theorem Deed.tidy (hd : Deed r a b) (ha : a.Tidy) : b.Tidy := by
  have hyoung : ∀ {t}, b.arena.next ≤ t → b.arena.resolve t = none := hd.tidy_young ha
  have hhome : ∀ {q t e}, .deliver t e ∈ (a.queue q).pending →
      t < b.arena.next ∧ ∀ y, b.arena.resolve t = some y → y.queue = q := fun hm => hd.home ha hm
  cases hd with
  | signal x hx => exact tidy_signal ha x
  | close hu => exact tidy_close ha _
  | context x => exact ⟨ha.idle, hyoung, hhome⟩
  | note n => exact ⟨ha.idle, hyoung, hhome⟩
  | late l => exact ⟨ha.idle, hyoung, hhome⟩
  | fly cs hc => exact ⟨ha.idle, hyoung, hhome⟩
  | land n hn => exact ⟨ha.idle, hyoung, hhome⟩
  | register q target => exact ⟨ha.idle, hyoung, hhome⟩
  | unregister hu => exact ⟨ha.idle, hyoung, hhome⟩
  | rearm hu => exact ⟨ha.idle, hyoung, hhome⟩

/-! ### Deeds one after another -/

/-- Deeds that own neither the number nor the queue leave the mail. -/
theorem Deeds.mail (hd : Deeds r a b) (ht : ∀ {t}, token = some t → ¬r.owns t)
    (hq : ¬r.closes q) : b.mail token q = a.mail token q :=
  hd.preserves (P := fun c => c.mail token q = a.mail token q)
    (fun _ _ h hc => (h.mail ht hq).trans hc) rfl

theorem Deeds.closed (hd : Deeds r a b) (hq : ¬r.closes q) :
    (b.queue q).closed = (a.queue q).closed :=
  hd.preserves (P := fun c => (c.queue q).closed = (a.queue q).closed)
    (fun _ _ h hc => (h.closed hq).trans hc) rfl

/-- They leave the bindings of others. -/
theorem Deeds.resolve (hd : Deeds r a b) (ht : ¬r.owns t) (hn : t < a.arena.next) :
    b.arena.resolve t = a.arena.resolve t :=
  (hd.preserves (P := fun c => t < c.arena.next ∧ c.arena.resolve t = a.arena.resolve t)
    (fun _ _ h ⟨hlt, hc⟩ => ⟨Nat.lt_of_lt_of_le hlt h.next_le, (h.resolve ht hlt).trans hc⟩)
    ⟨hn, rfl⟩).2

/-- A number stays with its queue. -/
theorem Deeds.queue_of (hd : Deeds r a b) (hn : t < a.arena.next) {y' : Binding Target}
    (hy' : b.arena.resolve t = some y') : ∃ y, a.arena.resolve t = some y ∧ y.queue = y'.queue := by
  have hP := hd.preserves
    (P := fun c => t < c.arena.next ∧ ∀ z, c.arena.resolve t = some z →
      ∃ y, a.arena.resolve t = some y ∧ y.queue = z.queue)
    (fun c d h ⟨hlt, hc⟩ => ?_) ⟨hn, fun z hz => ⟨z, hz, rfl⟩⟩
  · exact hP.2 y' hy'
  · refine ⟨Nat.lt_of_lt_of_le hlt h.next_le, fun z hz => ?_⟩
    obtain ⟨z₀, hz₀, hzq⟩ := h.queue_of hlt hz
    obtain ⟨y, hy, hyq⟩ := hc z₀ hz₀
    exact ⟨y, hy, hyq.trans hzq⟩

theorem Deeds.next_le (hd : Deeds r a b) : a.arena.next ≤ b.arena.next :=
  hd.preserves (P := fun c => a.arena.next ≤ c.arena.next)
    (fun _ _ h hc => Nat.le_trans hc h.next_le) (Nat.le_refl _)

theorem Deeds.tidy (hd : Deeds r a b) : a.Tidy → b.Tidy :=
  hd.preserves fun _ _ h => h.tidy

/-! ### Work -/

/-- Nothing new waits to be told to anybody, a closed queue stays closed, and a queue is being
drained if it was. -/
structure Shrinks (x y : EventQueue Job) : Prop where
  running : y.running.isSome = x.running.isSome
  closed : x.closed = true → y.closed = true
  letters : ∀ {t e}, .deliver t e ∈ y.pending → .deliver t e ∈ x.pending

theorem Shrinks.refl (x : EventQueue Job) : Shrinks x x := ⟨rfl, id, id⟩

/-- From `a` to `b` no queue grew, programs apart, and nobody was registered or taken off. -/
structure Wanes (a b : Host) : Prop where
  arena : b.arena = a.arena
  queue : ∀ q, Shrinks (a.queue q) (b.queue q)

theorem Wanes.refl (a : Host) : Wanes a a := ⟨rfl, fun q => .refl (a.queue q)⟩

/-- Waning adds up. -/
theorem Wanes.trans {c : Host} (h₁ : Wanes a b) (h₂ : Wanes b c) : Wanes a c where
  arena := h₂.arena.trans h₁.arena
  queue q :=
    { running := (h₂.queue q).running.trans (h₁.queue q).running
      closed hc := (h₂.queue q).closed ((h₁.queue q).closed hc)
      letters hm := (h₁.queue q).letters ((h₂.queue q).letters hm) }

theorem wanes_modifyQueue (a : Host) (q : Nat) {f : EventQueue Job → EventQueue Job}
    (hf : ∀ x, Shrinks x (f x)) : Wanes a (a.modifyQueue q f) := by
  refine ⟨rfl, fun p => ?_⟩
  rw [queue_modifyQueue_eq]
  split
  · exact hf _
  · exact .refl _

/-- Work that is no delivery is no letter. -/
theorem wanes_submit (a : Host) (q : Nat) (p : Program) : Wanes a (a.submit q (.run p)) := by
  refine wanes_modifyQueue a q fun x => ⟨by rw [EventQueue.running_submit], ?_, fun hm => ?_⟩
  · rw [EventQueue.closed_submit]
    exact id
  · rcases EventQueue.mem_pending_submit hm with hm | hm
    · exact hm
    · cases hm

/-- A closed queue keeps what waits. -/
theorem wanes_close (a : Host) (q : Nat) : Wanes a (a.modifyQueue q (·.close)) :=
  wanes_modifyQueue a q fun _ => ⟨rfl, fun _ => rfl, fun hm => by cases hm⟩

theorem Wanes.tidy (h : Wanes a b) (ha : a.Tidy) : b.Tidy := by
  refine ⟨fun q => ?_, fun {t} => ?_, fun {q t e} hm => ?_⟩
  · have hr := (h.queue q).running
    rw [ha.idle] at hr
    exact Option.not_isSome_iff_eq_none.mp (by rw [hr]; exact Bool.false_ne_true)
  · rw [h.arena]
    exact ha.young
  · rw [h.arena]
    exact ha.home ((h.queue q).letters hm)

end Host

end MediaHost
