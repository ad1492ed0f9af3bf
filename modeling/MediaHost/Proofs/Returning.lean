import MediaHost.Proofs.Waking
import Mathlib.Order.SuccPred.Basic

/-!
# Proofs — Returning

Signals over time, any number of threads calling through any clones.  Whoever is able to go on
again and again does so (`Scheduled`); then every call comes to its end or to sleep
(`Scheduled.ends_or_sleeps`), since the lock comes free again and again (`Scheduled.frees`) and
every step brings a call nearer to its end (`Place.rank`).  After a stop nobody sleeps, so all waits
return, and true; without a stop they return once their time is out, and false
(`Signals.stop_reaches_waits`).
-/

namespace MediaHost.StopSignal

namespace Place
variable {p : Place} {raised late : Bool}

/-- How many steps a call is from its end, if it does not come to sleep. -/
def rank : Place → Nat
  | .asleep => 6
  | .entering | .waking => 5
  | .raising | .testing => 4
  | .locking | .drowsing => 3
  | .notifying | .leaving => 2
  | .unlocking | .answering _ => 1
  | .stopped | .waited _ => 0

theorem rank_next (hover : p.isOver = false) (hasleep : p ≠ .asleep)
    (hnext : p.next raised late ≠ .asleep) : (p.next raised late).rank < p.rank := by
  cases p <;> cases raised <;> cases late <;> simp_all [next, rank, isOver]

/-- With its time out a thread comes to sleep no more. -/
theorem next_late (hasleep : p ≠ .asleep) (raised : Bool) : p.next raised true ≠ .asleep := by
  cases p <;> cases raised <;> simp_all [next]

theorem rank_lt_of_awake (h : p ≠ .asleep) : p.rank < rank .asleep := by
  cases p <;> simp_all [rank]

theorem not_over_of_hasLock (h : p.hasLock = true) :
    p ≠ .asleep ∧ p.isOver = false ∧ p.needsLock = false := by
  cases p <;> simp_all [hasLock, isOver, needsLock]

theorem eq_of_isOver (h : p.isOver = true) (hcall : p.call = .wait) : ∃ r, p = .waited r := by
  cases p <;> simp_all [isOver, call]

theorem eq_stopped (hcall : p.call = .stop) (h : p.isOver = true ∨ p = .asleep) :
    p = .stopped := by
  cases p <;> simp_all [isOver, call]

end Place

namespace Signal

/-- A signal at the moment `n`, when at some moments a step is taken. -/
def run (acts : Nat → Option Step) : Nat → Signal
  | 0 => {}
  | n + 1 => (acts n).elim (run acts n) (run acts n).step

/-- The thread `i` can go on. -/
def CanGo (s : Signal) (i : Nat) : Prop :=
  ∃ t, s.threads[i]? = some t ∧ t.isReady s.holder = true

variable {s : Signal} {a : Step} {acts : Nat → Option Step} {i j m n : Nat} {p q : Place}
  {t u : Thread}

theorem placeOf_eq_some : s.placeOf j = some p ↔ ∃ t, s.threads[j]? = some t ∧ t.place = p :=
  Option.map_eq_some_iff

/-- What every step keeps holds from then on. -/
theorem run_keeps {P : Signal → Prop} (hstep : ∀ s a, P s → P (s.step a)) (h : P (run acts n))
    (hnm : n ≤ m) : P (run acts m) := by
  induction m, hnm using Nat.le_induction with
  | base => exact h
  | succ m _ ih =>
      rw [run]
      cases acts m with
      | none => exact ih
      | some a => exact hstep _ a ih

theorem sound_run (acts : Nat → Option Step) (n : Nat) : (run acts n).Sound :=
  run_keeps (n := 0) (fun _ a h => h.step a) sound_new (Nat.zero_le n)

theorem quiet_run (h : ∀ m < n, acts m ≠ some (.enter .stop)) : (run acts n).Quiet := by
  induction n with
  | zero => exact quiet_new
  | succ n ih =>
      have ih := ih fun m hm => h m (Nat.lt_succ_of_lt hm)
      rw [run]
      cases ha : acts n with
      | none => exact ih
      | some a => exact ih.step fun hstop => h n (Nat.lt_succ_self n) (hstop ▸ ha)

/-- A thread stays, in its call; time that is out stays out. -/
theorem thread_run (h : (run acts n).threads[j]? = some t) (hnm : n ≤ m) :
    ∃ u, (run acts m).threads[j]? = some u ∧ u.place.call = t.place.call ∧
      (t.late = true → u.late = true) := by
  refine run_keeps (P := fun s => ∃ u, s.threads[j]? = some u ∧ u.place.call = t.place.call ∧
      (t.late = true → u.late = true)) ?_ ⟨t, h, rfl, id⟩ hnm
  rintro s a ⟨u, hu, hcall, hlate⟩
  refine ⟨_, thread_step hu a, ?_, fun hl => late_turn (hlate hl) a j⟩
  rcases s.place_turn a j u with hp | ⟨hp, hq⟩ | ⟨-, -, hp⟩
  · rw [hp, hcall]
  · rw [← hcall, hp, hq]
    rfl
  · rw [hp, Place.call_next, hcall]

theorem late_run (ht : (run acts n).threads[j]? = some t) (hnm : n ≤ m)
    (hu : (run acts m).threads[j]? = some u) (hlate : t.late = true) : u.late = true := by
  obtain ⟨v, hv, -, hvl⟩ := thread_run ht hnm
  obtain rfl : u = v := Option.some.inj (hu.symm.trans hv)
  exact hvl hlate

theorem call_run (hp : (run acts n).placeOf j = some p) (hnm : n ≤ m)
    (hq : (run acts m).placeOf j = some q) : q.call = p.call := by
  obtain ⟨t, ht, rfl⟩ := placeOf_eq_some.mp hp
  obtain ⟨u, hu, rfl⟩ := placeOf_eq_some.mp hq
  obtain ⟨v, hv, hsame, -⟩ := thread_run ht hnm
  obtain rfl : u = v := Option.some.inj (hu.symm.trans hv)
  exact hsame

/-- A thread that is awake and does not go on stays where it is. -/
theorem placeOf_step (h : s.placeOf j = some p) (hasleep : p ≠ .asleep)
    (hgo : ¬(s.CanGo j ∧ a = .go j)) : (s.step a).placeOf j = some p := by
  obtain ⟨t, ht, rfl⟩ := placeOf_eq_some.mp h
  refine placeOf_eq_some.mpr ⟨_, thread_step ht a, ?_⟩
  rcases s.place_turn a j t with hp | ⟨hp, -⟩ | ⟨ha, hready, -⟩
  · exact hp
  · exact absurd hp hasleep
  · exact absurd ⟨⟨t, ht, hready⟩, ha⟩ hgo

/-- A thread that is awake stays where it is until it goes on. -/
theorem stays_or_goes (hp : (run acts n).placeOf j = some p) (hasleep : p ≠ .asleep)
    (hnm : n ≤ m) : (run acts m).placeOf j = some p ∨
      ∃ k, n ≤ k ∧ (run acts k).CanGo j ∧ acts k = some (.go j) ∧
        (run acts k).placeOf j = some p := by
  induction m, hnm using Nat.le_induction with
  | base => exact .inl hp
  | succ m hle ih =>
      rcases ih with ih | hgoes
      · rw [run]
        cases ha : acts m with
        | none => exact .inl ih
        | some a =>
            by_cases hgo : (run acts m).CanGo j ∧ a = .go j
            · exact .inr ⟨m, hle, hgo.1, hgo.2 ▸ ha, ih⟩
            · exact .inl (placeOf_step ih hasleep hgo)
      · exact .inr hgoes

theorem canGo_of_place (hp : s.placeOf j = some p) (hasleep : p ≠ .asleep)
    (hover : p.isOver = false) (hlock : p.needsLock = true → s.holder = none) : s.CanGo j := by
  obtain ⟨t, ht, rfl⟩ := placeOf_eq_some.mp hp
  refine ⟨t, ht, ?_⟩
  cases hneeds : t.place.needsLock with
  | false => simp [Thread.isReady, hasleep, hover, hneeds]
  | true => simp [Thread.isReady, hasleep, hover, hlock hneeds]

/-! ### Scheduling -/

/-- Who is able to go on again and again goes on again and again. -/
def Scheduled (acts : Nat → Option Step) : Prop :=
  ∀ j, (∀ n, ∃ m, n ≤ m ∧ (run acts m).CanGo j) →
    ∀ n, ∃ m, n ≤ m ∧ (run acts m).CanGo j ∧ acts m = some (.go j)

/-- For whoever sleeps time goes by, and wakes him once it is out. -/
structure Clocked (acts : Nat → Option Step) : Prop where
  expires : ∀ (j n : Nat), (run acts n).placeOf j = some .asleep →
    ∃ m t, n ≤ m ∧ (run acts m).threads[j]? = some t ∧ (t.late = true ∨ t.place.isOver = true)
  wakes : ∀ (j n : Nat) (t : Thread), (run acts n).threads[j]? = some t → t.place = .asleep →
    t.late = true → ∃ m, n ≤ m ∧ (run acts m).placeOf j ≠ some .asleep

namespace Scheduled
variable (h : Scheduled acts)
include h

/-- A thread goes on from where it is, if the lock it needs comes free again and again. -/
theorem goes (hp : (run acts n).placeOf j = some p) (hasleep : p ≠ .asleep)
    (hover : p.isOver = false)
    (hfree : p.needsLock = true → ∀ m, ∃ k, m ≤ k ∧ (run acts k).holder = none) :
    ∃ m t, n ≤ m ∧ (run acts m).threads[j]? = some t ∧ t.place = p ∧
      (run acts (m + 1)).placeOf j = some (p.next (run acts m).raised t.late) ∧
      (run acts (m + 1)).holder =
        if (p.next (run acts m).raised t.late).hasLock then some j
        else if p.hasLock then none else (run acts m).holder := by
  obtain ⟨m, hnm, hgo, ha, hm⟩ : ∃ m, n ≤ m ∧ (run acts m).CanGo j ∧ acts m = some (.go j) ∧
      (run acts m).placeOf j = some p := by
    by_contra hne
    -- without a move the thread stays where it is, and could move again and again
    have hgone (m : Nat) (hnm : n ≤ m) : (run acts m).placeOf j = some p :=
      (stays_or_goes hp hasleep hnm).resolve_right hne
    have hable (k : Nat) : ∃ m, k ≤ m ∧ (run acts m).CanGo j := by
      obtain ⟨m, hm, hlock⟩ : ∃ m, max n k ≤ m ∧
          (p.needsLock = true → (run acts m).holder = none) := by
        cases hneeds : p.needsLock with
        | false => exact ⟨max n k, Nat.le_refl _, nofun⟩
        | true =>
            obtain ⟨m, hm, hnone⟩ := hfree hneeds (max n k)
            exact ⟨m, hm, fun _ => hnone⟩
      exact ⟨m, by omega, canGo_of_place (hgone m (by omega)) hasleep hover hlock⟩
    obtain ⟨m, hnm, hgo, ha⟩ := h j hable n
    exact hne ⟨m, hnm, hgo, ha, hgone m hnm⟩
  obtain ⟨t, ht, hready⟩ := hgo
  obtain rfl : t.place = p := by simpa [placeOf, ht] using hm
  have hstep : run acts (m + 1) = (run acts m).step (.go j) := by rw [run, ha, Option.elim]
  refine ⟨m, t, hnm, ht, rfl, ?_, ?_⟩
  · rw [hstep]
    exact placeOf_eq_some.mpr ⟨_, thread_go ht hready, rfl⟩
  · rw [hstep, holder_go ht hready]

/-- The lock comes free again and again: who has it needs no one to go on. -/
theorem frees (n : Nat) : ∃ m, n ≤ m ∧ (run acts m).holder = none := by
  have key : ∀ k n p j, p.rank = k → (run acts n).placeOf j = some p → p.hasLock = true →
      ∃ m, n ≤ m ∧ (run acts m).holder = none := by
    intro k
    induction k using Nat.strong_induction_on with
    | h k ih =>
        rintro n p j rfl hp hlock
        obtain ⟨hasleep, hover, hneeds⟩ := Place.not_over_of_hasLock hlock
        obtain ⟨m, t, hnm, -, -, hnext, hholder⟩ :=
          h.goes hp hasleep hover (by simp [hneeds])
        cases hl : (p.next (run acts m).raised t.late).hasLock with
        | true =>
            have hawake := (Place.not_over_of_hasLock hl).1
            obtain ⟨l, hl, hnone⟩ :=
              ih _ (Place.rank_next hover hasleep hawake) (m + 1) _ j rfl hnext hl
            exact ⟨l, by omega, hnone⟩
        | false => exact ⟨m + 1, by omega, by simp [hholder, hl, hlock]⟩
  cases hholder : (run acts n).holder with
  | none => exact ⟨n, Nat.le_refl n, hholder⟩
  | some j =>
      obtain ⟨t, ht, hlock⟩ := ((sound_run acts n).locked j).mp hholder
      exact key _ n _ j rfl (placeOf_eq_some.mpr ⟨t, ht, rfl⟩) hlock

/-- Every thread comes to the end of its call, or to sleep. -/
theorem ends_or_sleeps (hp : (run acts n).placeOf j = some p) :
    ∃ m q, n ≤ m ∧ (run acts m).placeOf j = some q ∧ (q.isOver = true ∨ q = .asleep) := by
  generalize hk : p.rank = k
  induction k using Nat.strong_induction_on generalizing n p with
  | h k ih =>
      subst hk
      by_cases hasleep : p = .asleep
      · exact ⟨n, p, Nat.le_refl n, hp, .inr hasleep⟩
      · cases hover : p.isOver with
        | true => exact ⟨n, p, Nat.le_refl n, hp, .inl hover⟩
        | false =>
            obtain ⟨m, t, hnm, -, -, hnext, -⟩ := h.goes hp hasleep hover fun _ => h.frees
            by_cases hsleeps : p.next (run acts m).raised t.late = .asleep
            · exact ⟨m + 1, _, by omega, hnext, .inr hsleeps⟩
            · obtain ⟨l, q, hl, hq⟩ :=
                ih _ (Place.rank_next hover hasleep hsleeps) hnext rfl
              exact ⟨l, q, by omega, hq⟩

/-- After a stop has woken the sleepers every call comes to its end. -/
theorem ends_of_cleared (hp : (run acts n).placeOf j = some p) (hc : (run acts n).Cleared) :
    ∃ m q, n ≤ m ∧ (run acts m).placeOf j = some q ∧ q.isOver = true := by
  obtain ⟨m, q, hnm, hq, hover | rfl⟩ := h.ends_or_sleeps hp
  · exact ⟨m, q, hnm, hq, hover⟩
  · obtain ⟨t, ht, hasleep⟩ := placeOf_eq_some.mp hq
    have hcleared := run_keeps (P := Cleared) (fun _ a hs => hs.step a) hc hnm
    exact absurd hasleep (hcleared.awake j t ht).1

/-- A wait whose time is out comes to its end. -/
theorem ends_of_late (hclock : Clocked acts) (ht : (run acts n).threads[j]? = some t)
    (hlate : t.late = true) :
    ∃ m q, n ≤ m ∧ (run acts m).placeOf j = some q ∧ q.isOver = true := by
  generalize hk : t.place.rank = k
  induction k using Nat.strong_induction_on generalizing n t with
  | h k ih =>
      subst hk
      by_cases hasleep : t.place = .asleep
      · obtain ⟨m, hnm, hawake⟩ := hclock.wakes j n t ht hasleep hlate
        obtain ⟨u, hu, -⟩ := thread_run ht hnm
        have hne : u.place ≠ .asleep := fun hu' => hawake (placeOf_eq_some.mpr ⟨u, hu, hu'⟩)
        have hlt := Place.rank_lt_of_awake hne
        rw [← hasleep] at hlt
        obtain ⟨l, q, hl, hq⟩ := ih _ hlt hu (late_run ht hnm hu hlate) rfl
        exact ⟨l, q, by omega, hq⟩
      · have hp : (run acts n).placeOf j = some t.place := placeOf_eq_some.mpr ⟨t, ht, rfl⟩
        cases hover : t.place.isOver with
        | true => exact ⟨n, _, Nat.le_refl n, hp, hover⟩
        | false =>
            obtain ⟨m, u, hnm, hu, -, hnext, -⟩ := h.goes hp hasleep hover fun _ => h.frees
            rw [late_run ht hnm hu hlate] at hnext
            obtain ⟨v, hv, hplace⟩ := placeOf_eq_some.mp hnext
            have hlt := Place.rank_next hover hasleep
              (Place.next_late hasleep (run acts m).raised)
            rw [← hplace] at hlt
            obtain ⟨l, q, hl, hq⟩ := ih _ hlt hv (late_run ht (by omega) hv hlate) rfl
            exact ⟨l, q, by omega, hq⟩

/-- While time goes by every call comes to its end, with or without a stop. -/
theorem ends (hclock : Clocked acts) (hp : (run acts n).placeOf j = some p) :
    ∃ m q, n ≤ m ∧ (run acts m).placeOf j = some q ∧ q.isOver = true := by
  obtain ⟨m, q, hnm, hq, hover | rfl⟩ := h.ends_or_sleeps hp
  · exact ⟨m, q, hnm, hq, hover⟩
  · obtain ⟨l, t, hml, ht, hlate | hover⟩ := hclock.expires j m hq
    · obtain ⟨k, q, hk, hq⟩ := h.ends_of_late hclock ht hlate
      exact ⟨k, q, by omega, hq⟩
    · exact ⟨l, _, by omega, placeOf_eq_some.mpr ⟨t, ht, rfl⟩, hover⟩

end Scheduled

/-! ### Answers -/

/-- A stop reaches the wait of `j`, which sleeps when the stop wakes the sleepers, or has not
begun when the stop has returned. -/
inductive Reached (acts : Nat → Option Step) (n j : Nat) : Prop
  | asleep (i : Nat) (hi : (run acts n).placeOf i = some .notifying) (hgo : acts n = some (.go i))
      (hj : (run acts n).placeOf j = some .asleep)
  | later (i : Nat) (hi : (run acts n).placeOf i = some .stopped)
      (hj : (run acts n).threads.length ≤ j)

theorem cleared_of_stopped (h : (run acts n).placeOf i = some .stopped) (hnm : n ≤ m) :
    (run acts m).Cleared := by
  obtain ⟨t, ht, hp⟩ := placeOf_eq_some.mp h
  refine run_keeps (P := Cleared) (fun _ a hs => hs.step a) ?_ hnm
  exact (sound_run acts n).cleared i t ht (by simp [hp, Place.hasWoken])

theorem Reached.cleared (h : Reached acts n j) (hnm : n < m) : (run acts m).Cleared := by
  cases h with
  | asleep i hi hgo _ =>
      obtain ⟨t, ht, hp⟩ := placeOf_eq_some.mp hi
      refine run_keeps (P := Cleared) (n := n + 1) (fun _ a hs => hs.step a) ?_ hnm
      rw [run, hgo, Option.elim]
      exact (sound_run acts n).cleared_notify ht hp
  | later i hi _ => exact cleared_of_stopped hi hnm.le

theorem Reached.assured (h : Reached acts n j) (hnm : n ≤ m) : (run acts m).Assured j := by
  refine run_keeps (P := (Assured · j)) (fun _ a hs => hs.step a) ?_ hnm
  cases h with
  | asleep i hi _ hj =>
      obtain ⟨t, ht, hp⟩ := placeOf_eq_some.mp hi
      refine ⟨(sound_run acts n).flag i t ht (by simp [hp, Place.hasRaised]), ?_⟩
      rintro u r hu (hr | hr) <;> simp [placeOf, hu, hr] at hj
  | later i hi hj =>
      refine ⟨(cleared_of_stopped hi (Nat.le_refl n)).raised, fun u r hu _ => ?_⟩
      simp [List.getElem?_eq_none hj] at hu

theorem Assured.eq_true (h : s.Assured j) {r : Bool} (hp : s.placeOf j = some (.waited r)) :
    r = true := by
  obtain ⟨t, ht, hw⟩ := placeOf_eq_some.mp hp
  exact h.answer t r ht (.inr hw)

/-- A wait that comes to the end of its call returns. -/
theorem waited_of_over (hp : (run acts n).placeOf j = some p) (hcall : p.call = .wait)
    (hends : ∃ m q, n ≤ m ∧ (run acts m).placeOf j = some q ∧ q.isOver = true) :
    ∃ m r, n ≤ m ∧ (run acts m).placeOf j = some (.waited r) := by
  obtain ⟨m, q, hnm, hq, hover⟩ := hends
  obtain ⟨r, hr⟩ := Place.eq_of_isOver hover ((call_run hp hnm hq).trans hcall)
  exact ⟨m, r, hnm, hr ▸ hq⟩

/-- A wait that a stop reaches returns true. -/
theorem Scheduled.returns (h : Scheduled acts) (hr : Reached acts n j) (hnm : n ≤ m)
    (hp : (run acts m).placeOf j = some p) (hcall : p.call = .wait) :
    ∃ k, m ≤ k ∧ (run acts k).placeOf j = some (.waited true) := by
  obtain ⟨t, ht, rfl⟩ := placeOf_eq_some.mp hp
  obtain ⟨u, hu, hsame, -⟩ := thread_run ht (Nat.le_succ m)
  have hq : (run acts (m + 1)).placeOf j = some u.place := placeOf_eq_some.mpr ⟨u, hu, rfl⟩
  obtain ⟨k, r, hk, hw⟩ := waited_of_over hq (hsame.trans hcall)
    (h.ends_of_cleared hq (hr.cleared (Nat.lt_succ_of_le hnm)))
  obtain rfl := (hr.assured (by omega : n ≤ k)).eq_true hw
  exact ⟨k, by omega, hw⟩

/-- Every stop returns: it never sleeps. -/
theorem Scheduled.stops (h : Scheduled acts) (hp : (run acts n).placeOf j = some p)
    (hcall : p.call = .stop) : ∃ m, n ≤ m ∧ (run acts m).placeOf j = some .stopped := by
  obtain ⟨m, q, hnm, hq, hend⟩ := h.ends_or_sleeps hp
  have hstopped := Place.eq_stopped ((call_run hp hnm hq).trans hcall) hend
  exact ⟨m, hnm, hstopped ▸ hq⟩

/-- Without a stop a wait returns false, and only once its time is out. -/
theorem Quiet.eq_false (h : s.Quiet) {r : Bool} (ht : s.threads[j]? = some t)
    (hw : t.place = .waited r) : r = false ∧ t.late = true :=
  (h.calm j t ht).answer r (.inr hw)

/-- Without a stop every wait returns once its time is out. -/
theorem Scheduled.times_out (h : Scheduled acts) (hclock : Clocked acts)
    (hquiet : ∀ m, acts m ≠ some (.enter .stop)) (hp : (run acts n).placeOf j = some p) :
    ∃ m, n ≤ m ∧ (run acts m).placeOf j = some (.waited false) := by
  have hcalm (k : Nat) : (run acts k).Quiet := quiet_run fun m _ => hquiet m
  obtain ⟨t, ht, hplace⟩ := placeOf_eq_some.mp hp
  obtain ⟨m, r, hnm, hw⟩ := waited_of_over hp (hplace ▸ ((hcalm n).calm j t ht).wait)
    (h.ends hclock hp)
  obtain ⟨u, hu, hr⟩ := placeOf_eq_some.mp hw
  obtain ⟨rfl, -⟩ := (hcalm m).eq_false hu hr
  exact ⟨m, hnm, hw⟩

/-- Once nothing happens any more and every call has returned, nobody is kept waiting. -/
theorem scheduled_of_over (hend : ∀ m, n ≤ m → acts m = none)
    (hover : ∀ t ∈ (run acts n).threads, t.place.isOver = true) :
    Scheduled acts ∧ Clocked acts := by
  have hstays : ∀ m, n ≤ m → run acts m = run acts n := by
    intro m hnm
    induction m, hnm using Nat.le_induction with
    | base => rfl
    | succ m hle ih => rw [run, hend m hle, Option.elim, ih]
  have hends : ∀ (k j : Nat) (t : Thread), (run acts k).threads[j]? = some t →
      ∃ (m : Nat) (u : Thread), k ≤ m ∧ (run acts m).threads[j]? = some u ∧
        u.place.isOver = true := by
    intro k j t ht
    obtain ⟨u, hu, -⟩ := thread_run ht (Nat.le_max_right n k)
    have hmem := List.mem_of_getElem? hu
    rw [hstays _ (Nat.le_max_left n k)] at hmem
    exact ⟨max n k, u, Nat.le_max_right n k, hu, hover u hmem⟩
  refine ⟨fun j hgo => ?_, ⟨fun j k hk => ?_, fun j k t ht _ _ => ?_⟩⟩
  · obtain ⟨m, hnm, t, ht, hready⟩ := hgo n
    rw [hstays m hnm] at ht
    simp [Thread.isReady, hover t (List.mem_of_getElem? ht)] at hready
  · obtain ⟨t, ht, -⟩ := placeOf_eq_some.mp hk
    obtain ⟨m, u, hkm, hu, huover⟩ := hends k j t ht
    exact ⟨m, u, hkm, hu, .inr huover⟩
  · obtain ⟨m, u, hkm, hu, huover⟩ := hends k j t ht
    refine ⟨m, hkm, fun hsleeps => ?_⟩
    obtain ⟨v, hv, hasleep⟩ := placeOf_eq_some.mp hsleeps
    obtain rfl : u = v := Option.some.inj (hu.symm.trans hv)
    rw [hasleep] at huover
    cases huover

end Signal

/-! ### Clones -/

namespace Signals

/-- The step that a move takes on a family, through whichever clone. -/
def taken (s : Signals) (family : Nat) : Move → Option Step
  | .act c a => if s.clones[c]? = some family then some a else none
  | .new | .clone _ => none

/-- All signals at the moment `n`, when at some moments a move is made. -/
def run (moves : Nat → Option Move) : Nat → Signals
  | 0 => {}
  | n + 1 => (moves n).elim (run moves n) (run moves n).move

/-- What is done to a family at each moment. -/
def done (moves : Nat → Option Move) (family n : Nat) : Option Step :=
  (moves n).bind ((run moves n).taken family)

variable {s : Signals} {moves : Nat → Option Move} {family c i j m n : Nat}

/-- Every clone is of a family there is. -/
def Known (s : Signals) : Prop := ∀ f ∈ s.clones, f < s.shared.length

theorem Known.move (h : s.Known) (a : Move) : (s.move a).Known := by
  intro f hf
  cases a with
  | new =>
      simp only [Signals.move, List.mem_append, List.mem_singleton] at hf
      simp only [Signals.move, List.length_append, List.length_singleton]
      rcases hf with hf | rfl
      · exact Nat.lt_succ_of_lt (h f hf)
      · exact Nat.lt_succ_self _
  | clone c =>
      simp only [Signals.move, List.mem_append, Option.mem_toList] at hf
      exact hf.elim (h f) fun hf => h f (List.mem_of_getElem? hf)
  | act c a =>
      simp only [Signals.move] at hf ⊢
      split at hf <;> simpa using h f hf

/-- A family goes on by what is done to it through its clones, and by nothing else. -/
theorem signal_move (h : s.Known) (a : Move) : (s.move a).signal family =
    (s.taken family a).elim (s.signal family) (s.signal family).step := by
  cases a with
  | new =>
      simp only [Signals.move, taken, signal, Option.elim, List.getD_eq_getElem?_getD]
      rcases Nat.lt_trichotomy family s.shared.length with hlt | rfl | hgt
      · rw [List.getElem?_append_left hlt]
      · simp
      · rw [List.getElem?_eq_none (by simp; omega), List.getElem?_eq_none (by omega)]
  | clone c => rfl
  | act c a =>
      simp only [Signals.move, taken]
      cases hc : s.clones[c]? with
      | none => simp
      | some f =>
          have hlt := h f (List.mem_of_getElem? hc)
          by_cases hf : f = family
          · subst hf
            simp [signal, hlt]
          · simp [signal, hf]

theorem known_run (moves : Nat → Option Move) (n : Nat) : (run moves n).Known := by
  induction n with
  | zero => simp [Known, run]
  | succ n ih =>
      rw [run]
      cases moves n with
      | none => exact ih
      | some a => exact ih.move a

theorem signal_run (moves : Nat → Option Move) (family n : Nat) :
    (run moves n).signal family = Signal.run (done moves family) n := by
  induction n with
  | zero => cases family <;> rfl
  | succ n ih =>
      rw [run, Signal.run, done, ← ih]
      cases moves n with
      | none => rfl
      | some a => exact signal_move (known_run moves n) a

theorem stopped_of_family (h : (run moves n).clones[c]? = some family) :
    (run moves n).stopped c = (Signal.run (done moves family) n).raised := by
  rw [← signal_run]
  simp [stopped, through, h]

/-- Any number of threads stop a signal and wait on it through any of its clones, in any order of
their steps.  Once a stop has returned, nobody sleeps and every clone shows the flag, for ever;
who slept when a stop woke the sleepers, and who comes to wait after a stop has returned, waits
until the flag is seen.  Without a stop every wait ends false, and only by its time. -/
theorem stop_reaches_waits (moves : Nat → Option Move) (family : Nat) :
    let acts := done moves family
    let signal := Signal.run acts
    (∀ n, (run moves n).signal family = signal n) ∧
    (∀ n i m, (signal n).placeOf i = some .stopped → n ≤ m →
      (∀ j, (signal m).placeOf j ≠ some .asleep) ∧
      ∀ c, (run moves m).clones[c]? = some family → (run moves m).stopped c = true) ∧
    (∀ n j m r, Signal.Reached acts n j → n ≤ m →
      (signal m).placeOf j = some (.waited r) → r = true) ∧
    (Signal.Scheduled acts →
      (∀ n j p, (signal n).placeOf j = some p → p.call = .stop →
        ∃ m, n ≤ m ∧ (signal m).placeOf j = some .stopped) ∧
      ∀ n j m p, Signal.Reached acts n j → n ≤ m → (signal m).placeOf j = some p →
        p.call = .wait → ∃ k, m ≤ k ∧ (signal k).placeOf j = some (.waited true)) ∧
    ((∀ n, acts n ≠ some (.enter .stop)) →
      (∀ n c, (run moves n).clones[c]? = some family → (run moves n).stopped c = false) ∧
      (∀ (n j : Nat) (t : Thread) (r : Bool), (signal n).threads[j]? = some t →
        t.place = .waited r → r = false ∧ t.late = true) ∧
      (Signal.Scheduled acts → Signal.Clocked acts → ∀ n j p, (signal n).placeOf j = some p →
        ∃ m, n ≤ m ∧ (signal m).placeOf j = some (.waited false))) := by
  intro acts signal
  refine ⟨signal_run moves family, fun n i m hi hnm => ⟨fun j hj => ?_, fun c hc => ?_⟩,
    fun n j m r hr hnm hw => (hr.assured hnm).eq_true hw,
    fun h => ⟨fun n j p => h.stops, fun n j m p => h.returns⟩, fun hquiet => ?_⟩
  · obtain ⟨t, ht, hp⟩ := Signal.placeOf_eq_some.mp hj
    exact ((Signal.cleared_of_stopped hi hnm).awake j t ht).1 hp
  · rw [stopped_of_family hc]
    exact (Signal.cleared_of_stopped hi hnm).raised
  · have hcalm (n : Nat) : (signal n).Quiet := Signal.quiet_run fun m _ => hquiet m
    refine ⟨fun n c hc => ?_, fun n j t r => (hcalm n).eq_false,
      fun h hclock n j p => h.times_out hclock hquiet⟩
    rw [stopped_of_family hc]
    exact (hcalm n).down

/-- A thread sleeps on a signal, another stops it through a clone, and a third comes to wait when
the stop has returned; a fourth waits on a signal of its own until its time is out. -/
def exchange : List Move :=
  [.clone 0, .new, .act 0 (.enter .wait), .act 0 (.go 0), .act 0 (.go 0), .act 0 (.go 0),
    .act 1 (.enter .stop), .act 1 (.go 1), .act 1 (.go 1), .act 1 (.go 1), .act 1 (.go 1),
    .act 0 (.enter .wait)] ++
  .replicate 4 (.act 0 (.go 0)) ++ .replicate 4 (.act 0 (.go 2)) ++
  .act 2 (.enter .wait) :: .replicate 3 (.act 2 (.go 0)) ++
  [.act 2 (.expire 0), .act 2 (.wake 0)] ++ .replicate 5 (.act 2 (.go 0))

theorem stop_reaches_waits_exchange :
    let moves := (exchange[·]?)
    let signal family := Signal.run (done moves family)
    (signal 0 9).placeOf 0 = some .asleep ∧ done moves 0 9 = some (.go 1) ∧
    (∃ k, 9 ≤ k ∧ (signal 0 k).placeOf 0 = some (.waited true)) ∧
    (∃ k, 12 ≤ k ∧ (signal 0 k).placeOf 2 = some (.waited true)) ∧
    (run moves 31).stopped 1 = true ∧
    (signal 1 24).placeOf 0 = some .asleep ∧
    (∃ k, 24 ≤ k ∧ (signal 1 k).placeOf 0 = some (.waited false)) ∧
    (run moves 31).stopped 2 = false := by
  intro moves signal
  have hidle (family m : Nat) (hm : 31 ≤ m) : done moves family m = none := by
    have hlen : exchange.length = 31 := by decide
    simp [done, moves, List.getElem?_eq_none (hlen.trans_le hm)]
  have hover (family : Nat) (hfamily : family = 0 ∨ family = 1) :
      ∀ t ∈ (signal family 31).threads, t.place.isOver = true := by
    rcases hfamily with rfl | rfl <;> decide
  have hfair (family : Nat) (hfamily : family = 0 ∨ family = 1) :=
    Signal.scheduled_of_over (hidle family) (hover family hfamily)
  have hquiet (m : Nat) : done moves 1 m ≠ some (.enter .stop) := by
    rcases Nat.lt_or_ge m 31 with hlt | hge
    · revert m
      decide
    · simp [hidle 1 m hge]
  obtain ⟨-, hstopped, -, hreturns, -⟩ := stop_reaches_waits moves 0
  obtain ⟨-, -, -, -, htimes⟩ := stop_reaches_waits moves 1
  obtain ⟨hdown, -, hfalse⟩ := htimes hquiet
  obtain ⟨-, htrue⟩ := hreturns (hfair 0 (.inl rfl)).1
  refine ⟨by decide, by decide, ?_, ?_, ?_, by decide, ?_, ?_⟩
  · exact htrue 9 0 9 .asleep (.asleep 1 (by decide) (by decide) (by decide)) (by decide)
      (by decide) rfl
  · exact htrue 11 2 12 .entering (.later 1 (by decide) (by decide)) (by decide) (by decide) rfl
  · exact (hstopped 11 1 31 (by decide) (by decide)).2 1 (by decide)
  · obtain ⟨hsched, hclock⟩ := hfair 1 (.inr rfl)
    exact hfalse hsched hclock 24 0 .asleep (by decide)
  · exact hdown 31 2 (by decide)

end Signals
end MediaHost.StopSignal
