import MediaHost.Engine.Context

/-!
# Proofs — References

The references to one engine, however they are taken and given back.  A desk is a context with the
leases that it has given out; every operation of it turns the context in one of three ways
(`Desk.turn_does`), and what the engine is asked then is known from the number of references before
and after (`Context.Turn.engine`).  Along a run the engine runs as long as there are references and
its last start succeeded (`Context.Steady`), and a lease lowers the number of references once at
most (`Desk.lowered_le`).
-/

namespace MediaHost

/-! ### One reference more or less -/

namespace Context
variable {c c' : Context} {ok : Bool}

/-- A reference is taken, one is given back, or nothing happens. -/
inductive Turn (c : Context) : Context → Prop
  | taken : Turn c c.addRef.1
  | given : Turn c c.release.1
  | kept : Turn c c

theorem refs_addRef (c : Context) : c.addRef.1.refs = c.refs + 1 := rfl

/-- Another reference to an engine that is held only counts. -/
theorem addRef_of_held (h : c.refs ≠ 0) : c.addRef.1 = { c with refs := c.refs + 1 } := by
  simp only [addRef, h, if_false]

/-- The first one starts it. -/
theorem addRef_of_free (h : c.refs = 0) :
    c.addRef.1 =
      { c with
        engine := (c.engine.startUp c.levels c.forwardsLog).1
        started := (c.engine.startUp c.levels c.forwardsLog).2
        refs := 1 } := by
  simp only [addRef, h, if_true]
  rfl

theorem release_of_free (h : c.refs = 0) : c.release.1 = c := by
  simp only [release, h, if_true]

/-- The last reference to go shuts it down. -/
theorem release_of_last (h : c.refs = 1) (hs : c.started = true) :
    c.release.1 = { c with engine := c.engine.shutDown, refs := 0, started := false } := by
  simp [release, h, hs]

/-- Any other only counts. -/
theorem release_of_held (h : c.refs ≠ 0) (hs : c.refs = 1 → c.started = false) :
    c.release.1 = { c with refs := c.refs - 1 } := by
  simp only [release, h, if_false]
  split
  · next hc =>
      obtain ⟨h0, hstarted⟩ := Bool.and_eq_true_iff.mp hc
      have h1 : c.refs = 1 := by
        have hzero := of_decide_eq_true h0
        omega
      cases (hs h1).symm.trans hstarted
  · rfl

theorem refs_release (c : Context) : c.release.1.refs = c.refs - 1 := by
  by_cases h0 : c.refs = 0
  · rw [release_of_free h0, h0]
  by_cases hs : c.refs = 1 → c.started = false
  · rw [release_of_held h0 hs]
  · rw [Classical.not_imp] at hs
    rw [release_of_last hs.1 (by simpa using hs.2), hs.1]

/-- A turn changes the number of references by one, or not at all. -/
theorem Turn.refs (h : Turn c c') :
    c'.refs = c.refs + 1 ∨ c'.refs + 1 = c.refs ∨ c'.refs = c.refs := by
  cases h with
  | taken => exact .inl c.refs_addRef
  | given =>
      rw [refs_release]
      omega
  | kept => exact .inr (.inr rfl)

/-- Whether the last start of the engine succeeded, if that of the one before is `ok`: the engine
is started when the references become one. -/
def lastStart (ok : Bool) (c c' : Context) : Bool :=
  if c.refs = 0 ∧ c'.refs = 1 then (c.engine.startUp c.levels c.forwardsLog).2 else ok

/-- The engine runs as long as there are references and its last start succeeded, and was shut
down as often as it was started before. -/
structure Steady (ok : Bool) (c : Context) : Prop where
  started : c.started = (decide (0 < c.refs) && ok)
  active : c.engine.active = c.started
  balance : c.engine.startCount = c.engine.shutDownCount + c.started.toNat

theorem startCount_shutDown (e : Engine) : e.shutDown.startCount = e.startCount := by
  simp [Engine.startCount, Engine.shutDown, Engine.asked]

theorem shutDownCount_shutDown (e : Engine) : e.shutDown.shutDownCount = e.shutDownCount + 1 := by
  simp [Engine.shutDownCount, Engine.shutDown, Engine.asked]

/-- A start that is tried succeeds and is counted, or leaves the engine as it was. -/
theorem startUp_spec (e : Engine) (levels : Option String) (forwardsLog : Bool) :
    (e.startUp levels forwardsLog).1.startCount =
        e.startCount + (e.startUp levels forwardsLog).2.toNat ∧
      (e.startUp levels forwardsLog).1.shutDownCount = e.shutDownCount ∧
      (e.startUp levels forwardsLog).1.active =
        (e.active || (e.startUp levels forwardsLog).2) := by
  simp only [Engine.startUp]
  split
  · exact ⟨rfl, rfl, (Bool.or_false _).symm⟩
  · simp [Engine.startCount, Engine.shutDownCount, Engine.asked]

/-- Taking a reference keeps the context steady, whether the start goes through or not. -/
theorem Steady.addRef (hs : c.Steady ok) : c.addRef.1.Steady (c.lastStart ok c.addRef.1) := by
  by_cases h0 : c.refs = 0
  · obtain ⟨hstarts, hshuts, hactive⟩ := startUp_spec c.engine c.levels c.forwardsLog
    have hdown : c.started = false := by rw [hs.started, h0]; rfl
    have hlast : c.lastStart ok c.addRef.1 = (c.engine.startUp c.levels c.forwardsLog).2 :=
      if_pos ⟨h0, by rw [refs_addRef, h0]⟩
    rw [hlast, addRef_of_free h0]
    refine ⟨rfl, hactive.trans ?_, ?_⟩
    · rw [hs.active, hdown, Bool.false_or]
    · have hbalance := hs.balance
      rw [hdown] at hbalance
      simp only [Bool.toNat_false, Nat.add_zero] at hbalance
      rw [hstarts, hshuts, hbalance]
  · have hlast : c.lastStart ok c.addRef.1 = ok := if_neg fun h => h0 h.1
    rw [hlast, addRef_of_held h0]
    refine ⟨hs.started.trans ?_, hs.active, hs.balance⟩
    simp only [Nat.zero_lt_succ, Nat.pos_of_ne_zero h0, decide_true]

/-- So does giving one back. -/
theorem Steady.release (hs : c.Steady ok) : c.release.1.Steady ok := by
  by_cases h0 : c.refs = 0
  · rwa [release_of_free h0]
  by_cases h1 : c.refs = 1 → c.started = false
  · rw [release_of_held h0 h1]
    refine ⟨hs.started.trans ?_, hs.active, hs.balance⟩
    by_cases hone : c.refs = 1
    · -- the last reference of an engine that did not start
      have hok := hs.started.symm.trans (h1 hone)
      rw [hone] at hok ⊢
      exact hok
    · have hpos : 0 < c.refs - 1 := by omega
      simp only [Nat.pos_of_ne_zero h0, hpos, decide_true]
  · obtain ⟨hone, hup⟩ := Classical.not_imp.mp h1
    rw [Bool.not_eq_false] at hup
    rw [release_of_last hone hup]
    refine ⟨rfl, rfl, ?_⟩
    have hbalance := hs.balance
    rw [hup] at hbalance
    rw [startCount_shutDown, shutDownCount_shutDown]
    exact hbalance

theorem Turn.steady (h : Turn c c') (hs : c.Steady ok) : c'.Steady (c.lastStart ok c') := by
  cases h with
  | taken => exact hs.addRef
  | given =>
      have hlast : c.lastStart ok c.release.1 = ok := if_neg fun h => by
        rw [refs_release] at h
        omega
      rw [hlast]
      exact hs.release
  | kept =>
      have hlast : c.lastStart ok c = ok := if_neg fun h => by omega
      rwa [hlast]

/-- The engine is started when the references become one, shut down when they become none and it
was started, and asked for nothing else. -/
theorem Turn.engine (h : Turn c c') (hs : c.Steady ok) :
    c'.engine =
      if c.refs = 0 ∧ c'.refs = 1 then (c.engine.startUp c.levels c.forwardsLog).1
      else if c.refs = 1 ∧ c'.refs = 0 ∧ ok = true then c.engine.shutDown
      else c.engine := by
  cases h with
  | taken =>
      by_cases h0 : c.refs = 0
      · rw [if_pos ⟨h0, by rw [refs_addRef, h0]⟩, addRef_of_free h0]
      · rw [if_neg fun h => h0 h.1, if_neg fun h => by rw [refs_addRef] at h; omega,
          addRef_of_held h0]
  | given =>
      rw [if_neg fun h => by rw [refs_release] at h; omega]
      by_cases h0 : c.refs = 0
      · rw [if_neg fun h => by omega, release_of_free h0]
      by_cases h1 : c.refs = 1 → c.started = false
      · rw [release_of_held h0 h1, if_neg]
        rintro ⟨hone, -, rfl⟩
        have hdown := h1 hone
        rw [hs.started, hone] at hdown
        cases hdown
      · obtain ⟨hone, hup⟩ := Classical.not_imp.mp h1
        rw [Bool.not_eq_false] at hup
        have hok := hs.started.symm.trans hup
        rw [release_of_last hone hup, if_pos ⟨hone, rfl, (Bool.and_eq_true_iff.mp hok).2⟩]
  | kept => rw [if_neg fun h => by omega, if_neg fun h => by omega]

end Context

/-! ### Desks -/

/-- A context, and the leases that were taken on it, oldest first. -/
structure Desk where
  context : Context
  leases : List Lease := []

namespace Desk

/-- What may be asked of a context and its leases. -/
inductive Op
  | addRef
  | release
  | acquire
  /-- A lease is given back, and dropped after that. -/
  | giveBack (n : Nat)
  | drop (n : Nat)

/-- An operation, or the engine fails to start some more times. -/
inductive Move
  | op (o : Op)
  | failStarts (count : Nat)

/-- The lease that an operation gives back or drops. -/
def Op.lease? : Op → Option Nat
  | .giveBack n | .drop n => some n
  | _ => none

/-- Gives one lease back. -/
def lower (d : Desk) (n : Nat) : Desk :=
  match d.leases[n]? with
  | none => d
  | some l =>
    let (l, c, _) := l.release d.context
    { context := c, leases := d.leases.set n l }

def does (d : Desk) : Op → Desk
  | .addRef => { d with context := d.context.addRef.1 }
  | .release => { d with context := d.context.release.1 }
  | .acquire => { context := d.context.addRef.1, leases := d.leases ++ [{}] }
  | .giveBack n => (d.lower n).lower n
  | .drop n => d.lower n

def after (d : Desk) : Move → Desk
  | .op o => d.does o
  | .failStarts count =>
    { d with
      context := { d.context with
        engine := { d.context.engine with failingStarts := count } } }

def run (d : Desk) (ms : List Move) : Desk := ms.foldl after d

/-- A desk at which nothing was asked yet. -/
def new (e : Engine) (diagnostics : Diagnostics) : Desk where
  context := Context.new e diagnostics

/-- Whether the last start of the engine succeeded after the moves, if that of the one before is
`ok`. -/
def lastStart (ok : Bool) (d : Desk) : List Move → Bool
  | [] => ok
  | m :: ms => (d.after m).lastStart (d.context.lastStart ok (d.after m).context) ms

variable {d : Desk} {n m : Nat} {o : Op} {ok : Bool}

/-- The lease was given back. -/
def isSpent (d : Desk) (n : Nat) : Bool := d.leases[n]?.any (·.released)

/-- A lease that was spent gives nothing back. -/
theorem lower_of_spent (h : d.isSpent n = true) : d.lower n = d := by
  obtain ⟨l, hl, hr⟩ := (Option.any_eq_true _ _).mp h
  simp only [lower, hl, Lease.release, hr, if_true]
  obtain ⟨hn, rfl⟩ := List.getElem?_eq_some_iff.mp hl
  rw [List.set_getElem_self]

theorem lower_of_none (h : d.leases[n]? = none) : d.lower n = d := by
  simp only [lower, h]

/-- A lease that was not given back before. -/
theorem lower_of_new {l : Lease} (hl : d.leases[n]? = some l) (hr : l.released = false) :
    d.lower n =
      { context := d.context.release.1, leases := d.leases.set n { released := true } } := by
  simp only [lower, hl, Lease.release, hr]
  rfl

/-- A lease is spent when it was given back. -/
theorem isSpent_lower {l : Lease} (hl : d.leases[n]? = some l) : (d.lower n).isSpent n = true := by
  obtain ⟨hn, -⟩ := List.getElem?_eq_some_iff.mp hl
  cases hr : l.released with
  | true =>
      have hspent : d.isSpent n = true := by simp [isSpent, hl, hr]
      rwa [lower_of_spent hspent]
  | false =>
      rw [lower_of_new hl hr]
      simp [isSpent, hn]

/-- A lease that is given back and then dropped is given back once. -/
theorem lower_lower (d : Desk) (n : Nat) : (d.lower n).lower n = d.lower n := by
  cases hl : d.leases[n]? with
  | none => rw [lower_of_none hl, lower_of_none hl]
  | some l => exact lower_of_spent (isSpent_lower hl)

/-- A lease gives its reference back, or was without effect on the context. -/
theorem context_lower (d : Desk) (n : Nat) :
    (d.lower n).context = d.context ∨ (d.lower n).context = d.context.release.1 := by
  cases hl : d.leases[n]? with
  | none => exact .inl (by rw [lower_of_none hl])
  | some l =>
      cases hr : l.released with
      | true => exact .inl (by rw [lower_of_spent (by simp [isSpent, hl, hr])])
      | false => exact .inr (by rw [lower_of_new hl hr])

/-- Giving a lease back is at most one turn of the context. -/
theorem turn_lower (d : Desk) (n : Nat) : d.context.Turn (d.lower n).context := by
  rcases d.context_lower n with h | h <;> rw [h]
  · exact .kept
  · exact .given

/-- Every operation takes a reference, gives one back, or does nothing to the context. -/
theorem turn_does (d : Desk) (o : Op) : d.context.Turn (d.does o).context := by
  cases o with
  | addRef | acquire => exact .taken
  | release => exact .given
  | giveBack n =>
      simp only [does, lower_lower]
      exact d.turn_lower n
  | drop n => exact d.turn_lower n

/-! ### Runs -/

/-- Every move keeps the context steady. -/
theorem steady_after (hs : d.context.Steady ok) (m : Move) :
    (d.after m).context.Steady (d.context.lastStart ok (d.after m).context) := by
  cases m with
  | op o => exact (d.turn_does o).steady hs
  | failStarts count =>
      have hlast : d.context.lastStart ok (d.after (.failStarts count)).context = ok :=
        if_neg fun h => by
          have hrefs : (d.after (.failStarts count)).context.refs = d.context.refs := rfl
          omega
      rw [hlast]
      exact ⟨hs.started, hs.active, hs.balance⟩

/-- So does every run of moves. -/
theorem steady_run (hs : d.context.Steady ok) (ms : List Move) :
    (d.run ms).context.Steady (d.lastStart ok ms) := by
  induction ms generalizing d ok with
  | nil => exact hs
  | cons m ms ih => exact ih (steady_after hs m)

theorem steady_new {e : Engine} (he : e.active = false) (hn : e.startCount = e.shutDownCount)
    (diagnostics : Diagnostics) : (new e diagnostics).context.Steady false :=
  ⟨rfl, he, hn⟩

/-! ### Leases -/

/-- By how much a move lowers the number of references with the lease `n`. -/
def lowering (d : Desk) (n : Nat) : Move → Nat
  | .op o => if o.lease? = some n then d.context.refs - (d.does o).context.refs else 0
  | .failStarts _ => 0

/-- By how much moves lower the number of references with the lease `n`. -/
def lowered (n : Nat) (d : Desk) : List Move → Nat
  | [] => 0
  | m :: ms => d.lowering n m + lowered n (d.after m) ms

/-- What an operation does with the lease that it is about. -/
theorem does_of_lease (ho : o.lease? = some n) (d : Desk) : d.does o = d.lower n := by
  cases o with
  | giveBack m =>
      obtain rfl := Option.some.inj ho
      exact d.lower_lower m
  | drop m =>
      obtain rfl := Option.some.inj ho
      rfl
  | _ => cases ho

/-- A lease that was given back stays so. -/
theorem isSpent_after (h : d.isSpent n = true) (m : Move) : (d.after m).isSpent n = true := by
  have hlower : ∀ k, (d.lower k).isSpent n = true := by
    intro k
    cases hl : d.leases[k]? with
    | none => rwa [lower_of_none hl]
    | some l =>
        by_cases hk : k = n
        · rw [hk] at hl ⊢
          exact isSpent_lower hl
        · cases hr : l.released with
          | true => rwa [lower_of_spent (by simp [isSpent, hl, hr])]
          | false =>
              rw [lower_of_new hl hr]
              simpa [isSpent, List.getElem?_set_ne hk] using h
  cases m with
  | failStarts count => exact h
  | op o =>
      cases o with
      | addRef | release => exact h
      | acquire =>
          obtain ⟨l, hl, hr⟩ := (Option.any_eq_true _ _).mp h
          have hn := (List.getElem?_eq_some_iff.mp hl).1
          simp [after, does, isSpent, List.getElem?_append_left hn, hl, hr]
      | giveBack k =>
          simp only [after, does, lower_lower]
          exact hlower k
      | drop k => exact hlower k

theorem lowering_of_spent (h : d.isSpent n = true) (m : Move) : d.lowering n m = 0 := by
  cases m with
  | failStarts count => rfl
  | op o =>
      simp only [lowering]
      split
      · next ho => rw [does_of_lease ho, lower_of_spent h, Nat.sub_self]
      · rfl

/-- A move lowers the number of references by one at most, and then the lease is given back. -/
theorem lowering_le (d : Desk) (n : Nat) (m : Move) :
    d.lowering n m = 0 ∨ d.lowering n m = 1 ∧ (d.after m).isSpent n = true := by
  cases m with
  | failStarts count => exact .inl rfl
  | op o =>
      simp only [lowering, after]
      split
      · next ho =>
          rw [does_of_lease ho]
          cases hl : d.leases[n]? with
          | none =>
              rw [lower_of_none hl, Nat.sub_self]
              exact .inl rfl
          | some l =>
              have hspent := isSpent_lower hl
              rcases (d.turn_lower n).refs with h | h | h
              · exact .inl (by omega)
              · exact .inr ⟨by omega, hspent⟩
              · exact .inl (by omega)
      · exact .inl rfl

theorem lowered_of_spent (h : d.isSpent n = true) (ms : List Move) : lowered n d ms = 0 := by
  induction ms generalizing d with
  | nil => rfl
  | cons m ms ih => simp only [lowered, lowering_of_spent h, ih (isSpent_after h m)]

/-- A lease lowers the number of references once at most. -/
theorem lowered_le (n : Nat) (d : Desk) (ms : List Move) : lowered n d ms ≤ 1 := by
  induction ms generalizing d with
  | nil => exact Nat.zero_le _
  | cons m ms ih =>
      have hrest := ih (d.after m)
      simp only [lowered]
      rcases d.lowering_le n m with h | ⟨h, hspent⟩
      · omega
      · have hnone := lowered_of_spent hspent ms
        omega

/-! ### All together -/

/-- An operation that takes a reference. -/
def Op.takes : Op → Bool
  | .addRef | .acquire => true
  | _ => false

/-- Without references there is nothing to give back. -/
theorem does_of_free (h : d.context.refs = 0) (ho : o.takes = false) :
    (d.does o).context = d.context := by
  have hrelease := Context.release_of_free h
  have hlower : ∀ n, (d.lower n).context = d.context := fun n =>
    (d.context_lower n).elim id (·.trans hrelease)
  cases o with
  | addRef | acquire => cases ho
  | release => exact hrelease
  | giveBack n =>
      simp only [does, lower_lower]
      exact hlower n
  | drop n => exact hlower n

/-- In every run of a new desk at an engine that does not run, however often the engine fails to
start.  An operation changes the number of references by one or not at all, and gives none back
where there is none; a lease lowers it once at most.  The engine is started exactly when the
references become one, shut down exactly when they become none and its last start succeeded, and
asked for nothing else; it was started once more than shut down if the context has it for started,
and equally often otherwise; and it runs exactly as long as there are references and its last start
succeeded. -/
theorem references_kept {e : Engine} (he : e.active = false)
    (hn : e.startCount = e.shutDownCount) (diagnostics : Diagnostics) (ms : List Move)
    (hd : d = (new e diagnostics).run ms) :
    (∀ o, (d.does o).context.refs = d.context.refs + 1 ∨
      (d.does o).context.refs + 1 = d.context.refs ∨
      (d.does o).context.refs = d.context.refs) ∧
    (d.context.refs = 0 → ∀ o : Op, o.takes = false → (d.does o).context = d.context) ∧
    (∀ n, lowered n (new e diagnostics) ms ≤ 1) ∧
    (∀ o, (d.does o).context.engine =
      if d.context.refs = 0 ∧ (d.does o).context.refs = 1 then
        (d.context.engine.startUp d.context.levels d.context.forwardsLog).1
      else if d.context.refs = 1 ∧ (d.does o).context.refs = 0 ∧
          (new e diagnostics).lastStart false ms = true then
        d.context.engine.shutDown
      else d.context.engine) ∧
    d.context.engine.startCount = d.context.engine.shutDownCount + d.context.started.toNat ∧
    (d.context.started = true → 0 < d.context.refs) ∧
    d.context.isActive =
      (decide (0 < d.context.refs) && (new e diagnostics).lastStart false ms) := by
  have hs : d.context.Steady ((new e diagnostics).lastStart false ms) := by
    rw [hd]
    exact steady_run (steady_new he hn diagnostics) ms
  refine ⟨fun o => (d.turn_does o).refs, fun h o ho => does_of_free h ho,
    fun n => lowered_le n _ ms, fun o => (d.turn_does o).engine hs, hs.balance, fun hup => ?_, ?_⟩
  · have hboth := hs.started.symm.trans hup
    exact of_decide_eq_true (Bool.and_eq_true_iff.mp hboth).1
  · simp only [Context.isActive, hs.active, hs.started, Bool.and_self_left, Bool.and_self]

/-- The first start fails; the lease on it is given back, and one reference more than there are;
the second start succeeds, and of two references one is given back, twice. -/
def secondStart : List Move :=
  [.op .acquire, .op (.giveBack 0), .op .release, .op .acquire, .op .addRef, .op (.giveBack 1),
    .op (.drop 1)]

theorem second_start_lasts :
    ((new { failingStarts := 1 } {}).run secondStart).context.refs = 1 ∧
    ((new { failingStarts := 1 } {}).run secondStart).context.isActive = true ∧
    ((new { failingStarts := 1 } {}).run secondStart).context.engine.startCount = 1 ∧
    lowered 1 (new { failingStarts := 1 } {}) secondStart ≤ 1 := by
  obtain ⟨-, -, hlowered, -, hbalance, -, hactive⟩ :=
    references_kept (e := { failingStarts := 1 }) rfl rfl {} secondStart rfl
  refine ⟨by decide, ?_, ?_, hlowered 1⟩
  · rw [hactive]
    decide
  · rw [hbalance]
    decide

end Desk
end MediaHost
