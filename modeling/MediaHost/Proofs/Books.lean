import MediaHost.Proofs.Stage

/-!
# Proofs — Books

The books of a program: the ledger of its host and the wiring of every session.  `Move` lists
everything that ever happens to them.  Books are `Sound` if every session that is up is attached
to a pipeline and a binding of its own, and every pipeline is held, destroyed or given up, once;
they are `Balanced` if references, bindings and pipelines are as many as the sessions that are
up.  All moves keep books sound, and those that take references for sessions only keep them
balanced.
-/

namespace MediaHost

namespace Wiring

/-- A session that is not up. -/
def down (destroyed : Bool) : Wiring := ⟨none, none, none, destroyed⟩

def up (h : Handle) (t : Nat) : Wiring := ⟨some h, some t, some {}, false⟩

def isUp (v : Wiring) : Bool := v.pipeline.isSome

/-- The session's pipeline is the pipeline `k`. -/
def holds (k : Nat) (v : Wiring) : Bool := v.pipeline.any (·.id = k)

@[simp] theorem isUp_down (d : Bool) : (down d).isUp = false := rfl

@[simp] theorem isUp_up (h : Handle) (t : Nat) : (up h t).isUp = true := rfl

@[simp] theorem holds_down (k : Nat) (d : Bool) : (down d).holds k = false := rfl

@[simp] theorem holds_up (k : Nat) (h : Handle) (t : Nat) :
    (up h t).holds k = decide (h.id = k) := rfl

end Wiring

/-! ### The ledger -/

namespace Ledger
variable {l : Ledger}

/-- The next pipeline is made; its callbacks bring `t` back. -/
def create (l : Ledger) (t : Nat) : Ledger :=
  { l with
    engine :=
      { l.engine with
        nextId := l.engine.nextId + 1
        pipelines := l.engine.pipelines.set l.engine.nextId (t, .all)
        milestones := .call Engine.noPipeline .create :: l.engine.milestones } }

/-- No pipeline is made. -/
def refuse (l : Ledger) : Ledger :=
  { l with
    engine :=
      { l.engine with
        milestones := .call Engine.noPipeline .create :: l.engine.milestones } }

/-- The pipeline `k` is destroyed. -/
def destroy (l : Ledger) (k : Nat) : Ledger :=
  { l with
    engine :=
      { l.engine with
        pipelines := l.engine.pipelines.erase k
        milestones := .call k .destroy :: l.engine.milestones } }

/-- The pipeline `k` is given up. -/
def leak (l : Ledger) (k : Nat) : Ledger := { l with leaks := l.leaks ++ [k] }

/-- Callbacks are on their way. -/
def withLate (l : Ledger) (late : List Callback) : Ledger := { l with late := late }

/-- How often the pipeline `k` was destroyed. -/
def destroys (l : Ledger) (k : Nat) : Nat := l.engine.milestones.count (.call k .destroy)

@[simp] theorem destroys_withLate (late : List Callback) (k : Nat) :
    (l.withLate late).destroys k = l.destroys k := rfl

@[simp] theorem destroys_unregister (t k : Nat) :
    (l.unregister t).destroys k = l.destroys k := rfl

@[simp] theorem destroys_leak (j k : Nat) : (l.leak j).destroys k = l.destroys k := rfl

@[simp] theorem destroys_create (t k : Nat) : (l.create t).destroys k = l.destroys k := by
  simp [destroys, create]

@[simp] theorem destroys_destroy (j k : Nat) :
    (l.destroy j).destroys k = l.destroys k + (decide (j = k)).toNat := by
  by_cases h : j = k <;> simp [destroys, destroy, h]

/-- Two ledgers that differ in references, and in how often the engine was started, at most. -/
structure Alike (a b : Ledger) : Prop where
  nextToken : b.nextToken = a.nextToken
  bindings : b.bindings = a.bindings
  leaks : b.leaks = a.leaks
  late : b.late = a.late
  nextId : b.engine.nextId = a.engine.nextId
  pipelines : b.engine.pipelines = a.engine.pipelines
  destroys : ∀ k, b.destroys k = a.destroys k

theorem alike_addRef (ok : Bool) : Alike l (l.addRef ok) := by
  simp only [addRef]
  split
  · cases ok
    · exact ⟨rfl, rfl, rfl, rfl, rfl, rfl, fun _ => rfl⟩
    · refine ⟨rfl, rfl, rfl, rfl, rfl, rfl, fun k => ?_⟩
      simp [Ledger.destroys]
  · exact ⟨rfl, rfl, rfl, rfl, rfl, rfl, fun _ => rfl⟩

theorem alike_release : Alike l l.release := by
  simp only [release]
  split
  · exact ⟨rfl, rfl, rfl, rfl, rfl, rfl, fun _ => rfl⟩
  · split
    · refine ⟨rfl, rfl, rfl, rfl, rfl, rfl, fun k => ?_⟩
      simp [Ledger.destroys]
    · exact ⟨rfl, rfl, rfl, rfl, rfl, rfl, fun _ => rfl⟩

theorem alike_refuse : Alike l l.refuse := by
  refine ⟨rfl, rfl, rfl, rfl, rfl, rfl, fun k => ?_⟩
  simp [Ledger.destroys, refuse]

/-- The number `t` was given to `target`, registered or not. -/
def Belongs (l : Ledger) (t : Nat) (target : Target) : Prop :=
  ∃ r, l.bindings.get? t = some (target, r)

theorem Alike.belongs {a b : Ledger} {t : Nat} {target : Target} (h : Alike a b)
    (ht : a.Belongs t target) : b.Belongs t target := by
  obtain ⟨r, hr⟩ := ht
  exact ⟨r, by rw [h.bindings, hr]⟩

theorem Belongs.register {t : Nat} {target : Target} (ht : l.Belongs t target)
    (hn : l.bindings.get? l.nextToken = none) (other : Target) :
    (l.register other).Belongs t target := by
  obtain ⟨r, hr⟩ := ht
  have hne : l.nextToken ≠ t := by
    intro he
    rw [← he, hn] at hr
    cases hr
  exact ⟨r, by simp only [Ledger.register, Table.get?_set, hne, if_false, hr]⟩

theorem Belongs.unregister {t : Nat} {target : Target} (ht : l.Belongs t target) (u : Nat) :
    (l.unregister u).Belongs t target := by
  obtain ⟨r, hr⟩ := ht
  simp only [Belongs, Ledger.unregister, Table.get?_modify, hr]
  split
  · exact ⟨false, rfl⟩
  · exact ⟨r, rfl⟩

/-- The engine was started as often as it was shut down, once more if it runs now, and it runs
only while someone holds it. -/
structure Steady (l : Ledger) : Prop where
  starts : l.engine.milestones.count .startUp =
    l.engine.milestones.count .shutDown + l.started.toNat
  started : l.refs = 0 → l.started = false

theorem Steady.addRef (h : l.Steady) (ok : Bool) : (l.addRef ok).Steady := by
  simp only [Ledger.addRef]
  split
  · next h0 =>
      have hs := h.starts
      rw [h.started h0] at hs
      refine ⟨?_, fun h1 => by cases h1⟩
      cases ok
      · simpa using hs
      · simpa [List.count_cons] using hs
  · exact ⟨h.starts, fun h1 => by cases h1⟩

theorem Steady.release (h : l.Steady) : l.release.Steady := by
  simp only [Ledger.release]
  split
  · exact h
  · next h0 =>
      split
      · next h1 =>
          have hs := h.starts
          rw [(Bool.and_eq_true_iff.mp h1).2] at hs
          refine ⟨?_, fun _ => rfl⟩
          simpa [List.count_cons] using hs
      · next h1 =>
          refine ⟨h.starts, fun h2 => ?_⟩
          change l.refs - 1 = 0 at h2
          have h3 : l.refs = 1 := by omega
          simpa [h3] using h1

/-- A call to a pipeline starts nothing and shuts nothing down. -/
theorem Steady.called (h : l.Steady) {e : Inventory} {k : Nat} {c : Call}
    (he : e.milestones = .call k c :: l.engine.milestones) : Steady { l with engine := e } := by
  refine ⟨?_, h.started⟩
  simpa [he, List.count_cons] using h.starts

theorem Steady.refuse (h : l.Steady) : l.refuse.Steady := h.called rfl

theorem Steady.create (h : l.Steady) (t : Nat) : (l.create t).Steady := h.called rfl

theorem Steady.destroy (h : l.Steady) (k : Nat) : (l.destroy k).Steady := h.called rfl

@[simp] theorem refs_addRef (ok : Bool) : (l.addRef ok).refs = l.refs + 1 := by
  simp only [addRef]
  split
  · next h => simp [h]
  · rfl

@[simp] theorem refs_release : l.release.refs = l.refs - 1 := by
  simp only [release]
  split
  · next h => simp [h]
  · split
    · next h => simp [(by simpa using h : l.refs = 1 ∧ l.started = true).1]
    · rfl

end Ledger

/-- The ledger of the host, and the wiring of every session. -/
structure Books where
  ledger : Ledger
  wirings : Table Wiring

/-- One thing that happens to the books; `leased` says that it takes no reference but for a
session. -/
inductive Move (leased : Bool) : Books → Books → Prop
  /-- A session is made. -/
  | join {b : Books} {i : Nat} (hi : b.wirings.get? i = none) :
      Move leased b { b with wirings := b.wirings.set i (.down false) }
  /-- A session is not brought up, because the engine does not run. -/
  | fail {b : Books} (ok : Bool) :
      Move leased b { b with ledger := (b.ledger.addRef ok).release }
  /-- A session is not brought up, because the engine makes no pipeline. -/
  | refuse {b : Books} (ok : Bool) (target : Target) :
      Move leased b
        { b with
          ledger :=
            (((b.ledger.addRef ok).register target).refuse.unregister
              b.ledger.nextToken).release }
  | bringUp {b : Books} {i : Nat} (hi : b.wirings.get? i = some (.down false)) (ok : Bool)
      (name : String) :
      Move leased b
        { ledger := ((b.ledger.addRef ok).register (.session i)).create b.ledger.nextToken
          wirings :=
            b.wirings.set i (.up ⟨name, b.ledger.engine.nextId⟩ b.ledger.nextToken) }
  /-- A session that is not up is destroyed. -/
  | retire {b : Books} {i : Nat} (hi : b.wirings.get? i = some (.down false)) :
      Move leased b { b with wirings := b.wirings.set i (.down true) }
  | destroy {b : Books} {i t : Nat} {h : Handle} (hi : b.wirings.get? i = some (.up h t))
      {late : List Callback} (hl : ∀ c ∈ late, c ∈ b.ledger.late ∨ c.userdata = t) :
      Move leased b
        { ledger := (((b.ledger.withLate late).unregister t).destroy h.id).release
          wirings := b.wirings.set i (.down true) }
  /-- A session is destroyed, and its pipeline given up. -/
  | leak {b : Books} {i t : Nat} {h : Handle} (hi : b.wirings.get? i = some (.up h t))
      {late : List Callback} (hl : ∀ c ∈ late, c ∈ b.ledger.late ∨ c.userdata = t) :
      Move leased b
        { ledger := (((b.ledger.withLate late).unregister t).leak h.id).release
          wirings := b.wirings.set i (.down true) }
  /-- A session is removed. -/
  | leave {b : Books} {i : Nat} (hi : b.wirings.get? i = some (.down true)) :
      Move leased b { b with wirings := b.wirings.erase i }
  /-- Everything late arrives. -/
  | settle {b : Books} : Move leased b { b with ledger := b.ledger.withLate [] }
  | addRef {b : Books} (hm : leased = false) (ok : Bool) :
      Move leased b { b with ledger := b.ledger.addRef ok }
  | releaseRef {b : Books} (hm : leased = false) :
      Move leased b { b with ledger := b.ledger.release }

/-- Any number of moves. -/
inductive Moves (leased : Bool) : Books → Books → Prop
  | refl (b : Books) : Moves leased b b
  | more {b b₁ b' : Books} (h : Move leased b b₁) (t : Moves leased b₁ b') : Moves leased b b'

theorem Moves.one {leased : Bool} {b b' : Books} (h : Move leased b b') : Moves leased b b' :=
  .more h (.refl _)

theorem Moves.trans {leased : Bool} {b b₁ b' : Books} (h₁ : Moves leased b b₁)
    (h₂ : Moves leased b₁ b') : Moves leased b b' := by
  induction h₁ with
  | refl => exact h₂
  | more h _ ih => exact .more h (ih h₂)

/-- What every move preserves, any number of them preserves. -/
theorem Moves.preserves {leased : Bool} {P : Books → Prop}
    (hP : ∀ b b', Move leased b b' → P b → P b') {b b' : Books} (h : Moves leased b b') :
    P b → P b' := by
  induction h with
  | refl => exact id
  | more h _ ih => exact fun hb => ih (hP _ _ h hb)

namespace Books
variable {b : Books}

/-- The wiring of the session `i`, as the ledger has it. -/
inductive Attached (l : Ledger) (i : Nat) : Wiring → Prop
  | down (d : Bool) : Attached l i (.down d)
  | up {h : Handle} {t : Nat} (hp : l.engine.pipelines.get? h.id = some (t, .all))
      (hb : l.bindings.get? t = some (.session i, true)) : Attached l i (.up h t)

/-- Every session that is up has a pipeline and a binding of its own, no number is used twice,
and every pipeline ever made is held by one session, destroyed once or given up once. -/
structure Sound (b : Books) : Prop where
  wirings : b.wirings.Distinct
  bindings : b.ledger.bindings.Distinct
  pipelines : b.ledger.engine.pipelines.Distinct
  attached : ∀ {i v}, b.wirings.get? i = some v → Attached b.ledger i v
  tokens : ∀ {t}, b.ledger.nextToken ≤ t → b.ledger.bindings.get? t = none
  ids : ∀ {k}, b.ledger.engine.nextId ≤ k → b.ledger.engine.pipelines.get? k = none
  nextId : 0 < b.ledger.engine.nextId
  fates : ∀ k, b.ledger.destroys k + b.ledger.leaks.count k + b.wirings.count (·.holds k) =
    if 0 < k ∧ k < b.ledger.engine.nextId then 1 else 0
  late : ∀ c ∈ b.ledger.late, ∃ target, b.ledger.bindings.get? c.userdata = some (target, false)
  steady : b.ledger.Steady

/-- References, bindings in use and pipelines are as many as the sessions that are up, not
counting the pipelines given up. -/
structure Balanced (b : Books) : Prop where
  refs : b.ledger.refs = b.wirings.count (·.isUp)
  bindings : b.ledger.bindings.count (·.2) = b.wirings.count (·.isUp)
  pipelines : b.ledger.engine.pipelines.size = b.wirings.count (·.isUp) + b.ledger.leaks.length

/-! ### Soundness -/

theorem Attached.of_up {l : Ledger} {i t : Nat} {h : Handle} (ha : Attached l i (.up h t)) :
    l.engine.pipelines.get? h.id = some (t, .all) ∧
      l.bindings.get? t = some (.session i, true) := by
  cases ha with
  | up hp hr => exact ⟨hp, hr⟩

theorem Attached.of_holds {l : Ledger} {i k : Nat} {v : Wiring} (ha : Attached l i v)
    (hk : v.holds k = true) : ∃ h t, v = .up h t ∧ h.id = k := by
  cases ha with
  | down d => cases hk
  | @up h t _ _ => exact ⟨h, t, rfl, by simpa using hk⟩

theorem Attached.of_pipeline {l : Ledger} {i : Nat} {h : Handle} {v : Wiring}
    (ha : Attached l i v) (hp : v.pipeline = some h) : ∃ t, v = .up h t := by
  cases ha with
  | down d => cases hp
  | @up g t _ _ => exact ⟨t, by rw [Option.some.inj hp]⟩

theorem Attached.of_token {l : Ledger} {i t : Nat} {v : Wiring} (ha : Attached l i v)
    (ht : v.token = some t) : ∃ h, v = .up h t := by
  cases ha with
  | down d => cases ht
  | @up h u _ _ => exact ⟨h, by rw [Option.some.inj ht]⟩

/-- What happens to other pipelines and bindings does not matter to a session. -/
theorem Attached.change {l l' : Ledger} {i : Nat} {v : Wiring} (h : Attached l i v)
    (hp : ∀ k, v.holds k = true → l'.engine.pipelines.get? k = l.engine.pipelines.get? k)
    (hb : ∀ t, v.token = some t → l'.bindings.get? t = l.bindings.get? t) : Attached l' i v := by
  cases h with
  | down d => exact .down d
  | @up h t h₁ h₂ =>
      refine .up ?_ ?_
      · rwa [hp h.id (by simp)]
      · rwa [hb t rfl]

/-- The pipeline and the binding of a session that is up are not those of another session. -/
theorem Sound.apart {i j t t' : Nat} {h h' : Handle} (hb : b.Sound)
    (hi : b.wirings.get? i = some (.up h t)) (hj : b.wirings.get? j = some (.up h' t'))
    (hij : i ≠ j) : h.id ≠ h'.id ∧ t ≠ t' := by
  obtain ⟨hp, hr⟩ := (hb.attached hi).of_up
  obtain ⟨hp', hr'⟩ := (hb.attached hj).of_up
  have ht : t ≠ t' := by
    intro ht
    rw [ht, hr'] at hr
    simp only [Option.some.injEq, Prod.mk.injEq, Target.session.injEq, and_true] at hr
    exact hij hr.symm
  refine ⟨fun hh => ht ?_, ht⟩
  rw [hh, hp'] at hp
  simp only [Option.some.injEq, Prod.mk.injEq, and_true] at hp
  exact hp.symm

theorem Sound.of_alike {l : Ledger} (hb : b.Sound) (ha : Ledger.Alike b.ledger l)
    (hs : l.Steady) : Sound { b with ledger := l } where
  wirings := hb.wirings
  bindings := by rw [ha.bindings]; exact hb.bindings
  pipelines := by rw [ha.pipelines]; exact hb.pipelines
  attached hi := (hb.attached hi).change (fun _ _ => by rw [ha.pipelines])
    (fun _ _ => by rw [ha.bindings])
  tokens ht := by rw [ha.bindings]; exact hb.tokens (by rwa [← ha.nextToken])
  ids hk := by rw [ha.pipelines]; exact hb.ids (by rwa [← ha.nextId])
  nextId := by rw [ha.nextId]; exact hb.nextId
  fates k := by rw [ha.destroys, ha.leaks, ha.nextId]; exact hb.fates k
  late c hc := by rw [ha.bindings]; exact hb.late c (by rwa [← ha.late])
  steady := hs

theorem Sound.addRef (hb : b.Sound) (ok : Bool) :
    Sound { b with ledger := b.ledger.addRef ok } :=
  hb.of_alike (Ledger.alike_addRef ok) (hb.steady.addRef ok)

theorem Sound.releaseRef (hb : b.Sound) : Sound { b with ledger := b.ledger.release } :=
  hb.of_alike Ledger.alike_release hb.steady.release

/-- A number never given out before is nobody's. -/
theorem Sound.register (hb : b.Sound) (target : Target) :
    Sound { b with ledger := b.ledger.register target } where
  wirings := hb.wirings
  bindings := hb.bindings.set _ _
  pipelines := hb.pipelines
  attached hi := by
    refine (hb.attached hi).change (fun _ _ => rfl) fun t ht => ?_
    have hne : b.ledger.nextToken ≠ t := by
      rintro rfl
      obtain ⟨h, rfl⟩ := (hb.attached hi).of_token ht
      have hr := (hb.attached hi).of_up.2
      rw [hb.tokens (Nat.le_refl _)] at hr
      cases hr
    simp [Ledger.register, hne]
  tokens {t} ht := by
    change b.ledger.nextToken + 1 ≤ t at ht
    have hne : b.ledger.nextToken ≠ t := by omega
    simp only [Ledger.register, Table.get?_set, hne, if_false]
    exact hb.tokens (by omega)
  ids := hb.ids
  nextId := hb.nextId
  fates := hb.fates
  late c hc := by
    obtain ⟨target', hr⟩ := hb.late c hc
    have hne : b.ledger.nextToken ≠ c.userdata := by
      intro he
      rw [hb.tokens (by omega)] at hr
      cases hr
    exact ⟨target', by simpa [Ledger.register, hne] using hr⟩
  steady := ⟨hb.steady.starts, hb.steady.started⟩

/-- A session that is not up may come, go or change, if it holds no pipeline. -/
theorem Sound.rewire {ws : Table Wiring} (hb : b.Sound) (hd : ws.Distinct)
    (ha : ∀ i v, ws.get? i = some v → (∃ d, v = .down d) ∨ b.wirings.get? i = some v)
    (hc : ∀ k, ws.count (·.holds k) = b.wirings.count (·.holds k)) :
    Sound { b with wirings := ws } where
  wirings := hd
  bindings := hb.bindings
  pipelines := hb.pipelines
  attached {i v} hi := by
    rcases ha i v hi with ⟨d, rfl⟩ | hold
    · exact .down d
    · exact hb.attached hold
  tokens := hb.tokens
  ids := hb.ids
  nextId := hb.nextId
  fates k := by
    rw [hc]
    exact hb.fates k
  late := hb.late
  steady := hb.steady

/-- Where a session is set down, there is one that is not up, or the one that was there. -/
theorem get?_set_down {i j : Nat} {d : Bool} {v : Wiring}
    (hj : (b.wirings.set i (.down d)).get? j = some v) :
    (∃ d, v = .down d) ∨ b.wirings.get? j = some v := by
  rw [Table.get?_set] at hj
  split at hj
  · exact .inl ⟨d, (Option.some.inj hj).symm⟩
  · exact .inr hj

/-- Once a number is taken back, nobody is told of what it brings. -/
theorem late_unregister {l : Ledger} {t u : Nat}
    (hl : ∃ target, l.bindings.get? u = some (target, false)) :
    ∃ target, (l.unregister t).bindings.get? u = some (target, false) := by
  obtain ⟨target, hr⟩ := hl
  refine ⟨target, ?_⟩
  simp only [Ledger.unregister, Table.get?_modify, hr]
  split <;> rfl

/-- A number that no session has is taken back. -/
theorem Sound.unregister (hb : b.Sound) {t : Nat}
    (ht : ∀ i h, b.wirings.get? i ≠ some (.up h t)) :
    Sound { b with ledger := b.ledger.unregister t } where
  wirings := hb.wirings
  bindings := hb.bindings.modify _ _
  pipelines := hb.pipelines
  attached {i v} hi := by
    refine (hb.attached hi).change (fun _ _ => rfl) fun t' ht' => ?_
    have hne : t ≠ t' := by
      rintro rfl
      obtain ⟨h, rfl⟩ := (hb.attached hi).of_token ht'
      exact ht i h hi
    simp [Ledger.unregister, hne]
  tokens {t'} ht' := by
    simp only [Ledger.unregister, Table.get?_modify, hb.tokens ht']
    split <;> rfl
  ids := hb.ids
  nextId := hb.nextId
  fates := hb.fates
  late c hc := late_unregister (hb.late c hc)
  steady := ⟨hb.steady.starts, hb.steady.started⟩

/-- A pipeline never made before is nobody's. -/
theorem Sound.create (hb : b.Sound) {i t : Nat} {d : Bool}
    (hi : b.wirings.get? i = some (.down d))
    (hr : b.ledger.bindings.get? t = some (.session i, true)) (name : String) :
    Sound
      { ledger := b.ledger.create t
        wirings := b.wirings.set i (.up ⟨name, b.ledger.engine.nextId⟩ t) } where
  wirings := hb.wirings.set _ _
  bindings := hb.bindings
  pipelines := hb.pipelines.set _ _
  attached {j v} hj := by
    simp only [Table.get?_set] at hj
    split at hj
    · next hij =>
        cases hj
        rw [← hij]
        exact .up (by simp [Ledger.create]) hr
    · refine (hb.attached hj).change (fun k hk => ?_) fun _ _ => rfl
      have hne : b.ledger.engine.nextId ≠ k := by
        rintro rfl
        obtain ⟨h, u, rfl, hid⟩ := (hb.attached hj).of_holds hk
        have hp := (hb.attached hj).of_up.1
        rw [hid, hb.ids (Nat.le_refl _)] at hp
        cases hp
      simp [Ledger.create, hne]
  tokens := hb.tokens
  ids {k} hk := by
    change b.ledger.engine.nextId + 1 ≤ k at hk
    have hne : b.ledger.engine.nextId ≠ k := by omega
    simp only [Ledger.create, Table.get?_set, hne, if_false]
    exact hb.ids (by omega)
  nextId := Nat.succ_pos _
  fates k := by
    have hf := hb.fates k
    have hc := Table.count_set_old hi (.up ⟨name, b.ledger.engine.nextId⟩ t) (·.holds k)
    have hn := hb.nextId
    simp only [Wiring.holds_down, Wiring.holds_up, Bool.toNat_false, Nat.add_zero] at hc
    rw [Ledger.destroys_create]
    change b.ledger.destroys k + b.ledger.leaks.count k + _ =
      if 0 < k ∧ k < b.ledger.engine.nextId + 1 then 1 else 0
    rw [hc]
    -- the new pipeline has no fate yet but to be held
    by_cases hk : b.ledger.engine.nextId = k
    · simp only [hk, decide_true, Bool.toNat_true, Nat.lt_irrefl, and_false, if_false] at hf ⊢
      rw [if_pos (by omega)]
      omega
    · have hlt : k < b.ledger.engine.nextId + 1 ↔ k < b.ledger.engine.nextId := by omega
      simpa only [hk, decide_false, Bool.toNat_false, Nat.add_zero, hlt] using hf
  late := hb.late
  steady := hb.steady.create t

/-- A session gives its pipeline and its binding back; the pipeline is destroyed, or given up. -/
theorem Sound.lower (hb : b.Sound) {i t : Nat} {h : Handle}
    (hi : b.wirings.get? i = some (.up h t)) {l : Ledger}
    (hbind : l.bindings = (b.ledger.unregister t).bindings)
    (htok : l.nextToken = b.ledger.nextToken) (hid : l.engine.nextId = b.ledger.engine.nextId)
    (hdist : l.engine.pipelines.Distinct)
    (hpipe : ∀ k, l.engine.pipelines.get? k = b.ledger.engine.pipelines.get? k ∨
      h.id = k ∧ l.engine.pipelines.get? k = none)
    (hfate : ∀ k, l.destroys k + l.leaks.count k =
      b.ledger.destroys k + b.ledger.leaks.count k + (decide (h.id = k)).toNat)
    (hlate : ∀ c ∈ l.late, c ∈ b.ledger.late ∨ c.userdata = t) (hs : l.Steady) :
    Sound ⟨l, b.wirings.set i (.down true)⟩ where
  wirings := hb.wirings.set _ _
  bindings := by rw [hbind]; exact hb.bindings.modify _ _
  pipelines := hdist
  attached {j v} hj := by
    simp only [Table.get?_set] at hj
    split at hj
    · cases hj
      exact .down true
    · next hij =>
        refine (hb.attached hj).change (fun k hk => ?_) fun t' ht' => ?_
        · obtain ⟨h', u, rfl, hid⟩ := (hb.attached hj).of_holds hk
          exact (hpipe k).resolve_right fun hn => (hb.apart hi hj hij).1 (hn.1.trans hid.symm)
        · obtain ⟨h', rfl⟩ := (hb.attached hj).of_token ht'
          simp [hbind, Ledger.unregister, (hb.apart hi hj hij).2]
  tokens {t'} ht' := by
    simp only [hbind, Ledger.unregister, Table.get?_modify, hb.tokens (htok ▸ ht')]
    split <;> rfl
  ids {k} hk := (hpipe k).elim (fun h => h.trans (hb.ids (hid ▸ hk))) (·.2)
  nextId := hid ▸ hb.nextId
  fates k := by
    have hf := hb.fates k
    have hc := Table.count_set_old hi (.down true) (·.holds k)
    simp only [Wiring.holds_down, Wiring.holds_up, Bool.toNat_false, Nat.add_zero] at hc
    simp only [hfate, hid]
    omega
  late c hc := by
    -- what is on its way to this session finds nobody any more
    rw [hbind]
    rcases hlate c hc with h₁ | h₁
    · exact late_unregister (hb.late c h₁)
    · have hr := (hb.attached hi).of_up.2
      exact ⟨.session i, by simp [h₁, Ledger.unregister, hr]⟩
  steady := hs

end Books

theorem Move.sound {leased : Bool} {b b' : Books} (hm : Move leased b b') (hb : b.Sound) :
    b'.Sound := by
  cases hm with
  | join hi =>
      exact hb.rewire (hb.wirings.set _ _) (fun j v => Books.get?_set_down) fun k =>
        Table.count_set_new hi (.down false) (·.holds k)
  | fail ok => exact (hb.addRef ok).releaseRef
  | refuse ok target =>
      have h₁ := (hb.addRef ok).register target
      have h₂ := h₁.of_alike Ledger.alike_refuse h₁.steady.refuse
      refine (h₂.unregister (t := b.ledger.nextToken) fun i h hi => ?_).releaseRef
      -- the sessions are as before, and none of them had the number
      have hr := (hb.attached hi).of_up.2
      rw [hb.tokens (Nat.le_refl _)] at hr
      cases hr
  | @bringUp i hi ok name =>
      have h₁ := (hb.addRef ok).register (.session i)
      have ha := Ledger.alike_addRef (l := b.ledger) ok
      have hr : ((b.ledger.addRef ok).register (.session i)).bindings.get? b.ledger.nextToken =
          some (.session i, true) := by
        simp [Ledger.register, ha.nextToken]
      have h₂ := h₁.create hi hr name
      have hid : ((b.ledger.addRef ok).register (.session i)).engine.nextId =
          b.ledger.engine.nextId := ha.nextId
      rwa [hid] at h₂
  | retire hi =>
      exact hb.rewire (hb.wirings.set _ _) (fun j v => Books.get?_set_down) fun k =>
        Table.count_set_old hi (.down true) (·.holds k)
  | @destroy i t h hi late hl =>
      have hs : ((b.ledger.withLate late).unregister t).Steady :=
        ⟨hb.steady.starts, hb.steady.started⟩
      refine Books.Sound.releaseRef (b := ⟨((b.ledger.withLate late).unregister t).destroy h.id, _⟩)
        (hb.lower hi rfl rfl rfl (hb.pipelines.erase _) (fun k => ?_) (fun k => ?_) hl
          (hs.destroy _))
      · change (b.ledger.engine.pipelines.erase h.id).get? k = _ ∨ _
        by_cases hk : h.id = k
        · exact .inr ⟨hk, by simp [Ledger.destroy, hk]⟩
        · exact .inl (by simp [hk])
      · rw [Ledger.destroys_destroy, Ledger.destroys_unregister, Ledger.destroys_withLate]
        change _ + b.ledger.leaks.count k = _
        omega
  | @leak i t h hi late hl =>
      refine Books.Sound.releaseRef (b := ⟨((b.ledger.withLate late).unregister t).leak h.id, _⟩)
        (hb.lower hi rfl rfl rfl hb.pipelines (fun k => .inl rfl) (fun k => ?_) hl
          ⟨hb.steady.starts, hb.steady.started⟩)
      change b.ledger.destroys k + (b.ledger.leaks ++ [h.id]).count k = _
      rw [List.count_append, List.count_singleton, ← Nat.add_assoc]
      by_cases hk : h.id = k
      · rw [if_pos (beq_iff_eq.mpr hk), decide_eq_true hk, Bool.toNat_true]
      · rw [if_neg fun hb => hk (beq_iff_eq.mp hb), decide_eq_false hk, Bool.toNat_false]
  | @leave i hi =>
      refine hb.rewire (hb.wirings.erase i) (fun j v hj => ?_) fun k =>
        hb.wirings.count_erase hi (·.holds k)
      rw [Table.get?_erase] at hj
      split at hj
      · cases hj
      · exact .inr hj
  | settle =>
      exact ⟨hb.wirings, hb.bindings, hb.pipelines, fun hi => (hb.attached hi).change
        (fun _ _ => rfl) (fun _ _ => rfl), hb.tokens, hb.ids, hb.nextId, hb.fates,
        fun _ hc => absurd hc List.not_mem_nil, ⟨hb.steady.starts, hb.steady.started⟩⟩
  | addRef _ ok => exact hb.addRef ok
  | releaseRef _ => exact hb.releaseRef

/-- A number once given out stands for its owner ever after, registered or not. -/
theorem Move.belongs {leased : Bool} {b b' : Books} (hm : Move leased b b') (hb : b.Sound)
    {t : Nat} {target : Target} (ht : b.ledger.Belongs t target) :
    b'.ledger.Belongs t target := by
  have hadd : ∀ ok, (b.ledger.addRef ok).Belongs t target := fun ok =>
    (Ledger.alike_addRef ok).belongs ht
  have hreg : ∀ ok other, ((b.ledger.addRef ok).register other).Belongs t target := by
    intro ok other
    have ha := Ledger.alike_addRef (l := b.ledger) ok
    refine (hadd ok).register ?_ other
    rw [ha.bindings, ha.nextToken]
    exact hb.tokens (Nat.le_refl _)
  cases hm with
  | fail ok => exact Ledger.alike_release.belongs (hadd ok)
  | refuse ok other =>
      have hun := (hreg ok other).unregister b.ledger.nextToken
      exact Ledger.alike_release.belongs hun
  | bringUp hi ok name => exact hreg ok _
  | @destroy i u h hi late hl => exact Ledger.alike_release.belongs (ht.unregister u)
  | @leak i u h hi late hl => exact Ledger.alike_release.belongs (ht.unregister u)
  | addRef _ ok => exact hadd ok
  | releaseRef _ => exact Ledger.alike_release.belongs ht
  | _ => exact ht

/-- A pipeline that was given up stays so. -/
theorem Move.leaks {leased : Bool} {b b' : Books} (hm : Move leased b b') {k : Nat}
    (hk : k ∈ b.ledger.leaks) : k ∈ b'.ledger.leaks := by
  have hadd : ∀ (l : Ledger) ok, k ∈ l.leaks → k ∈ (l.addRef ok).leaks := fun l ok h => by
    rwa [(Ledger.alike_addRef ok).leaks]
  have hrel : ∀ l : Ledger, k ∈ l.leaks → k ∈ l.release.leaks := fun l h => by
    rwa [Ledger.alike_release.leaks]
  cases hm with
  | fail ok => exact hrel _ (hadd _ ok hk)
  | refuse ok target => exact hrel _ (hadd _ ok hk)
  | bringUp hi ok name => exact hadd _ ok hk
  | destroy hi hl => exact hrel _ hk
  | leak hi hl => exact hrel _ (List.mem_append_left _ hk)
  | addRef _ ok => exact hadd _ ok hk
  | releaseRef _ => exact hrel _ hk
  | _ => exact hk

end MediaHost
