import MediaHost.StopSignal

/-!
# Proofs — Waking

What one step of a signal makes of each thread (`Signal.turn`), and what every step keeps
(`Signal.Sound`): one thread has the lock at most, the flag is up once a stop has raised it, and
from the moment a stop has woken the sleepers on, nobody sleeps or is about to (`Cleared`).  The
last holds because a thread between its test and its sleep has the lock, which the stop has to
take before it wakes anybody.
-/

namespace MediaHost.StopSignal

namespace Place
variable {p : Place} {raised late : Bool}

/-- The thread has raised the flag. -/
def hasRaised : Place → Bool
  | .locking | .notifying | .unlocking | .stopped => true
  | _ => false

/-- The thread has woken the sleepers. -/
def hasWoken : Place → Bool
  | .unlocking | .stopped => true
  | _ => false

/-- What was called. -/
def call : Place → Call
  | .raising | .locking | .notifying | .unlocking | .stopped => .stop
  | .entering | .testing | .drowsing | .asleep | .waking | .leaving => .wait
  | .answering _ | .waited _ => .wait

theorem call_next (p : Place) (raised late : Bool) : (p.next raised late).call = p.call := by
  cases p <;> cases raised <;> cases late <;> rfl

/-- The lock is only had by those who took it. -/
theorem hasLock_of_next (h : (p.next raised late).hasLock = true) :
    p.needsLock = true ∨ p.hasLock = true := by
  cases p <;> simp_all [next, hasLock, needsLock]

theorem hasRaised_of_next (h : (p.next raised late).hasRaised = true) :
    p = .raising ∨ p.hasRaised = true := by
  cases p <;> cases raised <;> cases late <;> simp_all [next, hasRaised]

theorem hasWoken_of_next (h : (p.next raised late).hasWoken = true) :
    p = .notifying ∨ p.hasWoken = true := by
  cases p <;> cases raised <;> cases late <;> simp_all [next, hasWoken]

/-- An answer is what was seen of the flag. -/
theorem answer_of_next {r : Bool}
    (h : p.next raised late = .answering r ∨ p.next raised late = .waited r) :
    p = .leaving ∧ r = raised ∨ p = .answering r ∨ p = .waited r := by
  cases p <;> cases raised <;> cases late <;> simp_all [next]

/-- With the flag up nobody comes to sleep. -/
theorem awake_next (hasleep : p ≠ .asleep) (hdrowsing : p ≠ .drowsing) :
    p.next true late ≠ .asleep ∧ p.next true late ≠ .drowsing := by
  cases p <;> simp_all [next]

end Place

namespace Thread
variable {t : Thread}

/-- The thread waits, and its wait has come to no end but by its time. -/
structure Calm (t : Thread) : Prop where
  wait : t.place.call = .wait
  leaving : t.place = .leaving → t.late = true
  answer : ∀ r : Bool, t.place = .answering r ∨ t.place = .waited r → r = false ∧ t.late = true

/-- With the flag down a wait goes on calmly. -/
theorem Calm.next (h : t.Calm) : Calm { t with place := t.place.next false t.late } where
  wait := (Place.call_next ..).trans h.wait
  leaving hl := by
    have hleaving := h.leaving
    cases hp : t.place <;> cases ht : t.late <;> simp_all [Place.next]
  answer r hr := by
    rcases Place.answer_of_next hr with ⟨hl, rfl⟩ | hbefore
    · exact ⟨rfl, h.leaving hl⟩
    · exact h.answer r hbefore

end Thread

namespace Signal
variable {s : Signal} {a : Step} {i j : Nat} {t u : Thread}

/-- Where the thread `i` is. -/
def placeOf (s : Signal) (i : Nat) : Option Place := s.threads[i]?.map (·.place)

/-- What a step makes of the thread `j`. -/
def turn (s : Signal) (a : Step) (j : Nat) (t : Thread) : Thread :=
  match a with
  | .enter _ => t
  | .go i =>
    if i = j then
      if t.isReady s.holder then { t with place := t.place.next s.raised t.late } else t
    else if s.placeOf i = some .notifying then t.wake else t
  | .expire i => if i = j then t.expire else t
  | .wake i => if i = j then t.wake else t

/-- A thread that wakes the sleepers can always go on. -/
theorem isReady_of_notifying (h : t.place = .notifying) (holder : Option Nat) :
    t.isReady holder = true := by
  simp [Thread.isReady, h, Place.isOver, Place.needsLock]

theorem step_go (h : s.threads[i]? = some t) :
    s.step (.go i) = if t.isReady s.holder then s.advance i t else s := by
  simp only [step, h]

theorem step_go_of_none (h : s.threads[i]? = none) : s.step (.go i) = s := by
  simp only [step, h]

theorem thread_advance (hi : s.threads[i]? = some t) (hj : s.threads[j]? = some u) :
    (s.advance i t).threads[j]? = some
      (if i = j then { t with place := t.place.next s.raised t.late }
        else if t.place = .notifying then u.wake else u) := by
  have hlt : i < s.threads.length := (List.getElem?_eq_some_iff.mp hi).1
  simp only [advance]
  by_cases hij : i = j
  · split <;> simp [← hij, hlt]
  · split <;> simp [hij, hj]

theorem thread_step (h : s.threads[j]? = some t) (a : Step) :
    (s.step a).threads[j]? = some (s.turn a j t) := by
  cases a with
  | enter call =>
      have hj : j < s.threads.length := (List.getElem?_eq_some_iff.mp h).1
      exact (List.getElem?_append_left hj).trans h
  | go i =>
      cases hi : s.threads[i]? with
      | none =>
          have hne : i ≠ j := by
            rintro rfl
            simp [hi] at h
          simp [step_go_of_none hi, turn, placeOf, hi, hne, h]
      | some u =>
          rw [step_go hi]
          by_cases hready : u.isReady s.holder = true
          · rw [if_pos hready, thread_advance hi h]
            by_cases hij : i = j
            · obtain rfl := hij
              obtain rfl : u = t := Option.some.inj (hi.symm.trans h)
              simp [turn, hready]
            · simp [turn, placeOf, hi, hij]
          · have hn : u.place ≠ .notifying := fun hn => hready (isReady_of_notifying hn _)
            rw [if_neg hready, h]
            by_cases hij : i = j
            · obtain rfl := hij
              obtain rfl : u = t := Option.some.inj (hi.symm.trans h)
              simp [turn, hready]
            · simp [turn, placeOf, hi, hij, hn]
  | expire i => by_cases hij : i = j <;> simp [step, turn, hij, h]
  | wake i => by_cases hij : i = j <;> simp [step, turn, hij, h]

theorem thread_go (hi : s.threads[i]? = some t) (hready : t.isReady s.holder = true) :
    (s.step (.go i)).threads[i]? = some { t with place := t.place.next s.raised t.late } := by
  rw [thread_step hi]
  simp [turn, hready]

theorem length_step (s : Signal) (a : Step) : (s.step a).threads.length =
    s.threads.length + if a matches .enter _ then 1 else 0 := by
  cases a with
  | go i =>
      simp only [step]
      split
      · split
        · simp only [advance]
          split <;> simp
        · rfl
      · rfl
  | _ => simp [step]

/-- A thread after a step was there before it, or has just come. -/
theorem thread_of_step (h : (s.step a).threads[j]? = some u) :
    (∃ t, s.threads[j]? = some t ∧ u = s.turn a j t) ∨
      s.threads[j]? = none ∧ ∃ call, a = .enter call ∧ u = { place := call.start } := by
  cases ht : s.threads[j]? with
  | some t => exact .inl ⟨t, rfl, Option.some.inj (h.symm.trans (thread_step ht a))⟩
  | none =>
      have hge := List.getElem?_eq_none_iff.mp ht
      have hlt := (List.getElem?_eq_some_iff.mp h).1
      rw [length_step] at hlt
      cases a with
      | enter call =>
          refine .inr ⟨rfl, call, rfl, ?_⟩
          have hj : j = s.threads.length := by simp at hlt; omega
          simpa [step, hj] using h.symm
      | _ => simp at hlt; omega

/-- A thread stays where it is, wakes up, or goes on by itself. -/
theorem place_turn (s : Signal) (a : Step) (j : Nat) (t : Thread) :
    (s.turn a j t).place = t.place ∨
      (t.place = .asleep ∧ (s.turn a j t).place = .waking) ∨
      a = .go j ∧ t.isReady s.holder = true ∧
        s.turn a j t = { t with place := t.place.next s.raised t.late } := by
  have hwake : t.wake.place = t.place ∨ t.place = .asleep ∧ t.wake.place = .waking := by
    simp only [Thread.wake]
    split
    · next h => exact .inr ⟨h, rfl⟩
    · exact .inl rfl
  cases a with
  | enter call => exact .inl rfl
  | go i =>
      by_cases hij : i = j
      · obtain rfl := hij
        by_cases hready : t.isReady s.holder = true
        · exact .inr (.inr ⟨rfl, hready, by simp [turn, hready]⟩)
        · exact .inl (by simp [turn, hready])
      · by_cases hn : s.placeOf i = some .notifying
        · rcases hwake with h | h
          · exact .inl (by simpa [turn, hij, hn] using h)
          · exact .inr (.inl (by simpa [turn, hij, hn] using h))
        · exact .inl (by simp [turn, hij, hn])
  | expire i =>
      refine .inl ?_
      by_cases hij : i = j <;> simp [turn, hij, Thread.expire]
  | wake i =>
      by_cases hij : i = j
      · rcases hwake with h | h
        · exact .inl (by simpa [turn, hij] using h)
        · exact .inr (.inl (by simpa [turn, hij] using h))
      · exact .inl (by simp [turn, hij])

/-- Time that is out stays out. -/
theorem late_turn (h : t.late = true) (a : Step) (j : Nat) : (s.turn a j t).late = true := by
  have hwake : t.wake.late = true := by
    simp only [Thread.wake]
    split <;> exact h
  cases a with
  | enter call => exact h
  | go i =>
      simp only [turn]
      split
      · split <;> exact h
      · split
        · exact hwake
        · exact h
  | expire i =>
      simp only [turn]
      split
      · simp [Thread.expire, h]
      · exact h
  | wake i =>
      simp only [turn]
      split
      · exact hwake
      · exact h

/-! ### The flag -/

theorem raised_step (h : s.raised = true) (a : Step) : (s.step a).raised = true := by
  cases a with
  | go i =>
      cases hi : s.threads[i]? with
      | none => rwa [step_go_of_none hi]
      | some t =>
          rw [step_go hi]
          split
          · simp [advance, h]
          · exact h
  | _ => exact h

/-- Only a stop raises the flag. -/
theorem raised_of_step (h : (s.step a).raised = true) :
    s.raised = true ∨ ∃ i, a = .go i ∧ s.placeOf i = some .raising := by
  cases a with
  | go i =>
      cases hi : s.threads[i]? with
      | none => exact .inl (step_go_of_none hi ▸ h)
      | some t =>
          rw [step_go hi] at h
          split at h
          · simp only [advance, Bool.or_eq_true, beq_iff_eq] at h
            exact h.imp_right fun ht => ⟨i, rfl, by simp [placeOf, hi, ht]⟩
          · exact .inl h
  | _ => exact .inl h

/-! ### The lock -/

/-- The thread `i` has the lock. -/
def Holds (s : Signal) (i : Nat) : Prop := ∃ t, s.threads[i]? = some t ∧ t.place.hasLock = true

theorem start_hasLock (call : Call) : call.start.hasLock = false := by cases call <;> rfl

/-- What others do gives a thread no lock and takes none from it. -/
theorem holds_step (h : a ≠ .go j) : (s.step a).Holds j ↔ s.Holds j := by
  have hturn (t : Thread) : (s.turn a j t).place.hasLock = t.place.hasLock := by
    rcases s.place_turn a j t with hp | ⟨hp, hq⟩ | ⟨ha, -⟩
    · rw [hp]
    · rw [hp, hq]
      rfl
    · exact absurd ha h
  constructor
  · rintro ⟨u, hu, hl⟩
    rcases thread_of_step hu with ⟨t, ht, rfl⟩ | ⟨-, call, -, rfl⟩
    · exact ⟨t, ht, (hturn t).symm.trans hl⟩
    · exact absurd hl (by simp [start_hasLock])
  · rintro ⟨t, ht, hl⟩
    exact ⟨_, thread_step ht a, (hturn t).trans hl⟩

/-- Who has the lock is who is where it is had. -/
def Locked (s : Signal) : Prop := ∀ i, s.holder = some i ↔ s.Holds i

/-- The lock is the thread's own if the thread has it, and else is as the thread leaves it. -/
theorem holder_go (hi : s.threads[i]? = some t) (hready : t.isReady s.holder = true) :
    (s.step (.go i)).holder = if (t.place.next s.raised t.late).hasLock then some i
      else if t.place.hasLock then none else s.holder := by
  rw [step_go hi, if_pos hready]
  rfl

theorem holds_of_thread (hi : s.threads[i]? = some t) : s.Holds i ↔ t.place.hasLock = true := by
  simp [Holds, hi]

/-- A thread that goes on has the lock afterwards if it is where it is had. -/
theorem Locked.go_own (h : s.Locked) (hi : s.threads[i]? = some t)
    (hready : t.isReady s.holder = true) :
    (s.step (.go i)).holder = some i ↔ (s.step (.go i)).Holds i := by
  rw [holder_go hi hready, holds_of_thread (thread_go hi hready)]
  by_cases hnext : (t.place.next s.raised t.late).hasLock = true
  · simp [hnext]
  · by_cases hhas : t.place.hasLock = true
    · simp [hnext, hhas]
    · simp [hnext, hhas, h i, holds_of_thread hi]

/-- A thread that goes on takes the lock from nobody. -/
theorem Locked.go_other (h : s.Locked) (hi : s.threads[i]? = some t)
    (hready : t.isReady s.holder = true) (hij : i ≠ j) :
    (s.step (.go i)).holder = some j ↔ s.holder = some j := by
  have hown (hhas : t.place.hasLock = true) : s.holder = some i :=
    (h i).mpr ((holds_of_thread hi).mpr hhas)
  rw [holder_go hi hready]
  by_cases hnext : (t.place.next s.raised t.late).hasLock = true
  · have hfree : s.holder ≠ some j := by
      intro hholder
      rcases Place.hasLock_of_next hnext with hneeds | hhas
      · simp [Thread.isReady, hneeds, hholder] at hready
      · exact hij (Option.some.inj ((hown hhas).symm.trans hholder))
    simp [hnext, hij, hfree]
  · by_cases hhas : t.place.hasLock = true
    · simp [hnext, hhas, hown hhas, hij]
    · simp [hnext, hhas]

theorem Locked.step (h : s.Locked) (a : Step) : (s.step a).Locked := by
  intro j
  cases a with
  | go i =>
      cases hi : s.threads[i]? with
      | none => rw [step_go_of_none hi]; exact h j
      | some t =>
          by_cases hready : t.isReady s.holder = true
          · by_cases hij : i = j
            · obtain rfl := hij
              exact h.go_own hi hready
            · rw [holds_step (by simpa using hij), ← h j]
              exact h.go_other hi hready hij
          · rw [step_go hi, if_neg hready]
            exact h j
  | enter call => rw [holds_step (by simp)]; exact h j
  | expire i => rw [holds_step (by simp)]; exact h j
  | wake i => rw [holds_step (by simp)]; exact h j

/-! ### After a stop -/

/-- The flag is up, and nobody sleeps or is about to. -/
structure Cleared (s : Signal) : Prop where
  raised : s.raised = true
  awake : ∀ (i : Nat) (t : Thread), s.threads[i]? = some t → t.place ≠ .asleep ∧ t.place ≠ .drowsing

theorem Cleared.step (h : s.Cleared) (a : Step) : (s.step a).Cleared where
  raised := raised_step h.raised a
  awake := by
    intro j u hu
    rcases thread_of_step hu with ⟨t, ht, rfl⟩ | ⟨-, call, -, rfl⟩
    · obtain ⟨hasleep, hdrowsing⟩ := h.awake j t ht
      rcases s.place_turn a j t with hp | ⟨hp, -⟩ | ⟨-, -, hp⟩
      · rw [hp]
        exact ⟨hasleep, hdrowsing⟩
      · exact absurd hp hasleep
      · rw [hp, h.raised]
        exact Place.awake_next hasleep hdrowsing
    · cases call <;> exact ⟨nofun, nofun⟩

/-- What holds of a signal at any time. -/
structure Sound (s : Signal) : Prop where
  locked : s.Locked
  flag : ∀ (i : Nat) (t : Thread), s.threads[i]? = some t →
    t.place.hasRaised = true → s.raised = true
  cleared : ∀ (i : Nat) (t : Thread), s.threads[i]? = some t →
    t.place.hasWoken = true → s.Cleared

/-- The one who wakes the sleepers has the lock, so nobody is between test and sleep. -/
theorem Sound.cleared_notify (h : s.Sound) (hi : s.threads[i]? = some t)
    (hn : t.place = .notifying) : (s.step (.go i)).Cleared where
  raised := raised_step (h.flag i t hi (by simp [hn, Place.hasRaised])) _
  awake := by
    have hplace : s.placeOf i = some .notifying := by simp [placeOf, hi, hn]
    have hholder : s.holder = some i := (h.locked i).mpr ⟨t, hi, by simp [hn, Place.hasLock]⟩
    intro j u hu
    rcases thread_of_step hu with ⟨v, hv, rfl⟩ | ⟨-, call, ha, -⟩
    · by_cases hij : i = j
      · obtain rfl := hij
        obtain rfl : t = v := Option.some.inj (hi.symm.trans hv)
        simp [turn, isReady_of_notifying hn, hn, Place.next]
      · have hdrowsing : v.place ≠ .drowsing := by
          intro hd
          have hother := (h.locked j).mpr ⟨v, hv, by simp [hd, Place.hasLock]⟩
          exact hij (Option.some.inj (hholder.symm.trans hother))
        simp only [turn, hij, if_false, hplace, if_true, Thread.wake]
        split
        · exact ⟨nofun, nofun⟩
        · next hasleep => exact ⟨hasleep, hdrowsing⟩
    · cases ha

theorem Sound.step (h : s.Sound) (a : Step) : (s.step a).Sound where
  locked := h.locked.step a
  flag := by
    intro j u hu hr
    rcases thread_of_step hu with ⟨t, ht, rfl⟩ | ⟨-, call, -, rfl⟩
    · rcases s.place_turn a j t with hp | ⟨-, hp⟩ | ⟨rfl, hready, hp⟩
      · exact raised_step (h.flag j t ht (hp ▸ hr)) a
      · rw [hp] at hr
        cases hr
      · rw [hp] at hr
        rcases Place.hasRaised_of_next hr with hplace | hbefore
        · rw [step_go ht, if_pos hready]
          simp [advance, hplace]
        · exact raised_step (h.flag j t ht hbefore) _
    · cases call <;> cases hr
  cleared := by
    intro j u hu hw
    rcases thread_of_step hu with ⟨t, ht, rfl⟩ | ⟨-, call, -, rfl⟩
    · rcases s.place_turn a j t with hp | ⟨-, hp⟩ | ⟨rfl, -, hp⟩
      · exact (h.cleared j t ht (hp ▸ hw)).step a
      · rw [hp] at hw
        cases hw
      · rw [hp] at hw
        rcases Place.hasWoken_of_next hw with hplace | hbefore
        · exact h.cleared_notify ht hplace
        · exact (h.cleared j t ht hbefore).step _
    · cases call <;> cases hw

theorem sound_new : ({} : Signal).Sound where
  locked i := by simp [Holds]
  flag i t h := by simp at h
  cleared i t h := by simp at h

/-! ### Answers -/

/-- The flag is up, and the thread `j` has not answered yet, or so. -/
structure Assured (s : Signal) (j : Nat) : Prop where
  raised : s.raised = true
  answer : ∀ (t : Thread) (r : Bool), s.threads[j]? = some t →
    t.place = .answering r ∨ t.place = .waited r → r = true

theorem Assured.step (h : s.Assured j) (a : Step) : (s.step a).Assured j where
  raised := raised_step h.raised a
  answer := by
    intro u r hu hr
    rcases thread_of_step hu with ⟨t, ht, rfl⟩ | ⟨-, call, -, rfl⟩
    · rcases s.place_turn a j t with hp | ⟨-, hp⟩ | ⟨-, -, hp⟩
      · exact h.answer t r ht (hp ▸ hr)
      · rw [hp] at hr
        rcases hr with hr | hr <;> cases hr
      · rw [hp, h.raised] at hr
        rcases Place.answer_of_next hr with ⟨-, rfl⟩ | hbefore
        · rfl
        · exact h.answer t r ht hbefore
    · cases call <;> rcases hr with hr | hr <;> cases hr

/-- The flag is down, every call is a wait, and none has come to its end but by its time. -/
structure Quiet (s : Signal) : Prop where
  down : s.raised = false
  calm : ∀ (i : Nat) (t : Thread), s.threads[i]? = some t → t.Calm

theorem Quiet.step (h : s.Quiet) (ha : a ≠ .enter .stop) : (s.step a).Quiet where
  down := by
    rw [← Bool.not_eq_true]
    intro hraised
    rcases raised_of_step hraised with hbefore | ⟨i, -, hi⟩
    · exact absurd hbefore (by simp [h.down])
    · obtain ⟨t, ht, hplace⟩ := Option.map_eq_some_iff.mp hi
      have hwait := (h.calm i t ht).wait
      rw [hplace] at hwait
      cases hwait
  calm := by
    intro j u hu
    rcases thread_of_step hu with ⟨t, ht, rfl⟩ | ⟨-, call, rfl, rfl⟩
    · have hcalm := h.calm j t ht
      have hlate (hl : t.late = true) := late_turn (s := s) hl a j
      rcases s.place_turn a j t with hp | ⟨-, hp⟩ | ⟨-, -, hp⟩
      · exact ⟨hp ▸ hcalm.wait, fun hl => hlate (hcalm.leaving (hp ▸ hl)),
          fun r hr => (hcalm.answer r (hp ▸ hr)).imp_right hlate⟩
      · exact ⟨hp ▸ rfl, fun hl => absurd (hp.symm.trans hl) nofun, fun r hr => by
          rcases hr with hr | hr <;> cases hp.symm.trans hr⟩
      · rw [hp, h.down]
        exact hcalm.next
    · cases call with
      | stop => exact absurd rfl ha
      | wait => exact ⟨rfl, nofun, fun r hr => by rcases hr with hr | hr <;> cases hr⟩

theorem quiet_new : ({} : Signal).Quiet where
  down := rfl
  calm i t h := by simp at h

end Signal
end MediaHost.StopSignal
