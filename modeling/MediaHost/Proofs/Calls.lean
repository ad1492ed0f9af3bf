import MediaHost.Proofs.Balance
import MediaHost.Proofs.Service
import MediaHost.Proofs.Stale

/-!
# Proofs — Calls

When the engine is called.  If references to the engine are taken by sessions only, then every
call is made while the engine is up, and none for a pipeline that was destroyed or given up
(`calls_in_service`).  A session that was destroyed calls nothing any more, whatever is asked of
it or still queued for it (`Inert`).
-/

namespace MediaHost

namespace Books

/-- Every binding that is registered is that of a session that is up. -/
def Claimed (b : Books) : Prop :=
  ∀ t target, b.ledger.bindings.get? t = some (target, true) →
    ∃ i h, target = .session i ∧ b.wirings.get? i = some (.up h t)

/-- The pipelines that may be called: those that sessions hold, and new ones. -/
def Owns (b : Books) (k : Nat) : Prop :=
  k = Engine.noPipeline ∨ k = b.ledger.engine.nextId ∨
    ∃ i h t, b.wirings.get? i = some (.up h t) ∧ h.id = k

/-- Sessions that are not up may come, go and change. -/
theorem Claimed.rewire {b : Books} {ws : Table Wiring} (hc : b.Claimed)
    (hw : ∀ i h t, b.wirings.get? i = some (.up h t) → ws.get? i = some (.up h t)) :
    Claimed { b with wirings := ws } := by
  intro t target ht
  obtain ⟨i, h, rfl, hi⟩ := hc t target ht
  exact ⟨i, h, rfl, hw i h t hi⟩

/-- One number less is registered, and its session is not up any more. -/
theorem Claimed.lower {b : Books} (hc : b.Claimed) {i t : Nat} {h : Handle}
    (hi : b.wirings.get? i = some (.up h t)) {l : Ledger}
    (hl : l.bindings = (b.ledger.unregister t).bindings) :
    Claimed ⟨l, b.wirings.set i (.down true)⟩ := by
  intro u target hu
  rw [hl] at hu
  simp only [Ledger.unregister, Table.get?_modify] at hu
  split at hu
  · obtain ⟨v, -, hv⟩ := Option.map_eq_some_iff.mp hu
    cases hv
  · next hne =>
      obtain ⟨j, g, rfl, hj⟩ := hc u target hu
      have hij : i ≠ j := by
        rintro rfl
        rw [hi] at hj
        cases hj
        exact hne rfl
      exact ⟨j, g, rfl, by simpa [hij] using hj⟩

end Books

/-- A number that a move registers is claimed by the session that comes up. -/
theorem Move.claimed {leased : Bool} {b b' : Books} (hm : Move leased b b') (hc : b.Claimed) :
    b'.Claimed := by
  -- where a session is set that was not up, the others stay
  have hset : ∀ {i d} {v : Wiring}, b.wirings.get? i = none ∨ b.wirings.get? i = some (.down d) →
      ∀ j h t, b.wirings.get? j = some (.up h t) →
        (b.wirings.set i v).get? j = some (.up h t) := by
    intro i d v hi j h t hj
    have hij : i ≠ j := by
      rintro rfl
      rcases hi with hi | hi <;> (rw [hi] at hj; cases hj)
    simpa [hij] using hj
  cases hm with
  | join hi => exact hc.rewire (hset (d := false) (.inl hi))
  | fail ok =>
      intro t target ht
      rw [Ledger.alike_release.bindings, (Ledger.alike_addRef ok).bindings] at ht
      exact hc t target ht
  | refuse ok other =>
      intro t target ht
      have ha := Ledger.alike_addRef (l := b.ledger) ok
      rw [Ledger.alike_release.bindings] at ht
      simp only [Ledger.unregister, Ledger.refuse, Ledger.register, Table.get?_modify,
        Table.get?_set, ha.bindings, ha.nextToken] at ht
      split at ht
      · obtain ⟨v, -, hv⟩ := Option.map_eq_some_iff.mp ht
        cases hv
      · exact hc t target ht
  | @bringUp i hi ok name =>
      intro t target ht
      have ha := Ledger.alike_addRef (l := b.ledger) ok
      simp only [Ledger.create, Ledger.register, Table.get?_set, ha.bindings, ha.nextToken] at ht
      split at ht
      · next hn =>
          cases ht
          subst hn
          exact ⟨i, ⟨name, b.ledger.engine.nextId⟩, rfl, by simp⟩
      · obtain ⟨j, h, rfl, hj⟩ := hc t target ht
        exact ⟨j, h, rfl, hset (.inr hi) j h t hj⟩
  | retire hi => exact hc.rewire (hset (.inr hi))
  | destroy hi hl => exact hc.lower hi Ledger.alike_release.bindings
  | leak hi hl => exact hc.lower hi Ledger.alike_release.bindings
  | @leave i hi =>
      refine hc.rewire fun j h t hj => ?_
      have hij : i ≠ j := by
        rintro rfl
        rw [hi] at hj
        cases hj
      simpa [hij] using hj
  | settle => exact fun t target ht => hc t target ht
  | addRef _ ok =>
      intro t target ht
      rw [(Ledger.alike_addRef ok).bindings] at ht
      exact hc t target ht
  | releaseRef _ =>
      intro t target ht
      rw [Ledger.alike_release.bindings] at ht
      exact hc t target ht

namespace World
variable {w w₁ w' w₀ : World} {i : Nat} {s : Stage}

/-! ### A run -/

/-- The world is sound and balanced, and the engine's history is proper. -/
structure Orderly (w : World) : Prop where
  sound : w.Sound
  balanced : w.books.Balanced
  host : w.host.Orderly

/-- What the books count as not destroyed was never asked to be. -/
theorem not_mem_of_destroys {k : Nat} (h : w.books.ledger.destroys k = 0) :
    .call k .destroy ∉ w.host.engine.history := by
  rw [destroys_books, Engine.callCount] at h
  exact List.count_eq_zero.mp h

/-- A session that is up keeps the engine up, and its pipeline is not destroyed. -/
theorem Orderly.ready (hw : w.Orderly) (hs : w.stage? i = some s) : s.Ready := by
  have hfates := hw.sound.books.fates
  obtain ⟨-, -, hh⟩ := stage?_eq_some.mp hs
  refine ⟨fun h hp => ?_, ?_, ?_⟩
  · obtain ⟨t, hwir⟩ := hw.sound.wiring_of_pipeline hs hp
    have hget := wirings_of_stage hs
    rw [hwir] at hget
    have hup : w.books.wirings.count (·.isUp) ≠ 0 := fun h0 => by
      have hfalse := Table.eq_false_of_count h0 hget
      cases hfalse
    have hheld : w.books.wirings.count (·.holds h.id) ≠ 0 := fun h0 => by
      have hfalse := Table.eq_false_of_count h0 hget
      simp at hfalse
    rw [hh]
    refine ⟨hw.host.started.mpr ?_, not_mem_of_destroys ?_⟩
    · have hrefs : w.host.context.refs = _ := hw.balanced.refs
      omega
    · have hf := hfates h.id
      split at hf <;> omega
  · rw [hh]
    refine not_mem_of_destroys ?_
    have hf := hfates Engine.noPipeline
    rw [if_neg (by simp [Engine.noPipeline])] at hf
    omega
  · rw [hh]
    refine not_mem_of_destroys ?_
    have hf := hfates w.host.engine.nextId
    rw [if_neg fun h => Nat.lt_irrefl _ h.2] at hf
    omega

/-- What a session holds may be called. -/
theorem Orderly.owns (hw : w.Orderly) (hs : w.stage? i = some s) :
    ∀ h, s.session.pipeline = some h → w.books.Owns h.id := by
  intro h hp
  obtain ⟨t, hwir⟩ := hw.sound.wiring_of_pipeline hs hp
  exact .inr (.inr ⟨i, h, t, hwir ▸ wirings_of_stage hs, rfl⟩)

/-- The books stayed as they are, and what was called may be called. -/
structure Attends (w w' : World) : Prop where
  books : w'.books = w.books
  orderly : w'.Orderly
  host : Host.Serves w.books.Owns w.host w'.host

theorem Attends.refl (hw : w.Orderly) : Attends w w := ⟨rfl, hw, .refl _⟩

/-- Attention to order adds up. -/
theorem Attends.trans (h₁ : Attends w w₁) (h₂ : Attends w₁ w') : Attends w w' :=
  ⟨h₂.books.trans h₁.books, h₂.orderly, h₁.host.trans (h₁.books ▸ h₂.host)⟩

theorem Orderly.attends (hw : w.Orderly) (hb : w'.books = w.books ∧ w'.Sound)
    (hh : Host.Serves w.books.Owns w.host w'.host) : Attends w w' :=
  ⟨hb.1, ⟨hb.2, hb.1 ▸ hw.balanced, hh.orderly hw.host⟩, hh⟩

/-- Media that loops is asked of the session's own pipeline. -/
theorem Orderly.serves_loopBack (hw : w.Orderly) (i : Nat) :
    Host.Serves w.books.Owns w.host (loopBack i w).host := by
  simp only [loopBack]
  split
  · exact .refl _
  · next x hx =>
      split
      · next h hp =>
          have hs : w.stage? i = some ⟨i, x, w.host⟩ := stage?_eq_some.mpr ⟨rfl, hx, rfl⟩
          obtain ⟨hup, hn⟩ := (hw.ready hs).live h hp
          split
          · exact .call (c := .setPosition) (hw.owns hs h hp) hup hn rfl rfl rfl
          · exact .refl _
      · exact .refl _

/-- So is the stop after an error. -/
theorem Orderly.serves_stopFailed (hw : w.Orderly) (i : Nat) :
    Host.Serves w.books.Owns w.host (stopFailed i w).host := by
  simp only [stopFailed]
  split
  · exact .refl _
  · next x hx =>
      split
      · cases hp : x.pipeline with
        | none => exact .refl _
        | some h =>
            have hs : w.stage? i = some ⟨i, x, w.host⟩ := stage?_eq_some.mpr ⟨rfl, hx, rfl⟩
            obtain ⟨hup, hn⟩ := (hw.ready hs).live h hp
            exact .call (c := .stop) (hw.owns hs h hp) hup hn rfl rfl rfl
      · exact .refl _

/-- Whatever jobs do, the world stays in order. -/
theorem Effect.attends (he : Effect w w') (hw : w.Orderly) : Attends w w' := by
  refine hw.attends ((he.quiet hw.sound.distinct).sound hw.sound) ?_
  cases he with
  | loopBack i => exact hw.serves_loopBack i
  | stopFailed i => exact hw.serves_stopFailed i
  | _ => exact .quiet rfl rfl rfl

theorem Leads.attends (hl : Leads w w') (hw : w.Orderly) : Attends w w' :=
  hl.preserves (P := Attends w) (fun _ _ he h => h.trans (he.attends h.orderly)) (.refl hw)

/-- A look for a frame. -/
theorem Orderly.attends_look (hw : w.Orderly) (i : Nat) :
    Attends w (w.act i (·.withLive Stage.pull)).1 := by
  simp only [act]
  split
  · exact .refl hw
  · next s hs =>
      obtain ⟨-, -, hh⟩ := stage?_eq_some.mp hs
      have hk : Stage.Keeps s (s.withLive Stage.pull).1 := Stage.Keeps.withLive fun h hl =>
        Stage.keeps_pull s (Stage.live_eq_ok.mp hl).2
      have ha : Stage.Asks s (s.withLive Stage.pull).1 := Stage.Asks.withLive fun h _ =>
        Stage.asks_pull h s
      refine hw.attends (hw.sound.put_of_keeps hs hk) ?_
      rw [← hh]
      exact Stage.serves_of_asks (hw.ready hs).live hk ha (hw.owns hs)

theorem Orderly.attends_advance (hw : w.Orderly) (i : Nat) : Attends w (w.advance i).1 := by
  have hlook := hw.attends_look i
  exact hlook.trans ((leads_advance w i).attends hlook.orderly)

/-- What an action asks of the engine. -/
theorem Orderly.serves (hw : w.Orderly) {a : Action} (ha : a.isLeased = true) :
    Host.Serves w.books.Owns w.host (w.apply a).host := by
  have hact : ∀ i (f : Stage → Stage × Except Error Unit),
      (∀ s, w.stage? i = some s → Host.Serves w.books.Owns s.host (f s).1.host) →
        Host.Serves w.books.Owns w.host (w.act i f).1.host := by
    intro i f hf
    simp only [act]
    split
    · exact .refl _
    · next s hs => exact (stage?_eq_some.mp hs).2.2 ▸ hf s hs
  cases a with
  | newSession i q config image =>
      simp only [apply]
      split
      · exact .quiet rfl rfl rfl
      · exact .refl _
  | command i c =>
      refine hact i c.exec fun s hs => ?_
      have hnext : s.host.engine.nextId = w.books.ledger.engine.nextId := by
        rw [(stage?_eq_some.mp hs).2.2]
        rfl
      exact Stage.serves_exec (hw.ready hs) (hw.sound.attached hs) (.inl rfl)
        (.inr (.inl hnext)) (hw.owns hs) c
  | tick i => exact (hw.attends_advance i).host
  | drop i =>
      simp only [apply, drop]
      split
      · exact .refl _
      · next s hs =>
          exact (stage?_eq_some.mp hs).2.2 ▸ Stage.serves_destroy (hw.ready hs) (hw.owns hs)
  | drain q => exact (Leads.attends (leads_drain w q) hw).host
  | submit q program => exact .quiet rfl rfl rfl
  | closeQueue q => exact .quiet rfl rfl rfl
  | push k frame => exact .quiet rfl rfl rfl
  | callback c => exact .of_context (Host.context_signal (h := w.host) c)
  | arrive n => exact .of_context (Host.context_arrive (h := w.host) n)
  | settle => exact .of_context (Host.context_settle (h := w.host))
  | pace prompt => exact .quiet rfl rfl rfl
  | refuseCreate => exact .quiet rfl rfl rfl
  | failStarts count => exact .quiet rfl rfl rfl
  | addRef => cases ha
  | releaseRef => cases ha

/-- Every leased action keeps the world in order. -/
theorem Orderly.apply (hw : w.Orderly) {a : Action} (ha : a.isLeased = true) :
    (w.apply a).Orderly := by
  have hs := hw.sound.apply a
  have hm : Moves true w.books (w.apply a).books := ha ▸ hs.moves
  exact ⟨hs.sound, hm.balanced hw.sound.books hw.balanced, (hw.serves ha).orderly hw.host⟩

/-- So does every run of them. -/
theorem Orderly.run (hw : w.Orderly) {as : List Action} (ha : ∀ a ∈ as, a.isLeased = true) :
    (w.run as).Orderly := by
  induction as generalizing w with
  | nil => exact hw
  | cons a as ih =>
      exact ih (hw.apply (ha a List.mem_cons_self)) fun b hb => ha b (List.mem_cons_of_mem a hb)

/-- A fresh world is in order. -/
theorem Fresh.orderly (hw : w.Fresh) : w.Orderly := by
  refine ⟨hw.sound, hw.balanced, ?_, ?_, ?_⟩
  · rw [hw.history]
    trivial
  · rw [hw.history, hw.started]
    rfl
  · rw [hw.refs, hw.started]
    simp

/-- A pipeline that was given up is nobody's. -/
theorem Orderly.not_owns (hw : w.Orderly) {k : Nat} (hk : k ∈ w.host.ledger.leaks) :
    ¬w.books.Owns k := by
  have hf := hw.sound.books.fates k
  have hpos : 0 < w.books.ledger.leaks.count k := List.count_pos_iff.mpr hk
  split at hf
  · next hlt =>
      rintro (h0 | hn | ⟨i, h, t, hi, rfl⟩)
      · exact absurd hlt.1 (by simp [h0, Engine.noPipeline])
      · omega
      · have hnone : w.books.wirings.count (·.holds h.id) = 0 := by omega
        have hfalse := Table.eq_false_of_count hnone hi
        simp at hfalse
  · omega

/-- A pipeline that was given up is called no more. -/
theorem Orderly.callCount_run (hw : w.Orderly) {k : Nat} (hk : k ∈ w.host.ledger.leaks)
    {as : List Action} (ha : ∀ a ∈ as, a.isLeased = true) (c : Call) :
    (w.run as).host.engine.callCount k c = w.host.engine.callCount k c := by
  induction as generalizing w with
  | nil => rfl
  | cons a as ih =>
      have hla := ha a List.mem_cons_self
      have hk' : k ∈ (w.apply a).host.ledger.leaks :=
        (hw.sound.apply a).moves.preserves (P := fun b => k ∈ b.ledger.leaks)
          (fun _ _ hm => hm.leaks) hk
      refine (ih (hw.apply hla) hk' fun b hb => ha b (List.mem_cons_of_mem a hb)).trans ?_
      exact (hw.serves hla).spares (hw.not_owns hk) c

end World

/-! ### A session that was destroyed -/

/-- The commands that cannot be carried out without a pipeline. -/
def Command.needsPipeline : Command → Bool
  | .share _ | .isPlaying | .isLoaded | .setLooping _ | .observe .. | .destroy => false
  | _ => true

namespace Stage
variable {s : Stage}

/-- A destroyed session does nothing that needs a live one. -/
theorem withLive_destroyed {α : Type} (hd : s.session.phase.isDestroyed = true)
    (f : Handle → Stage → Stage × α) : s.withLive f = (s, .error .destroyed) := by
  simp only [withLive, Session.live, hd, if_true]

theorem changeLive_destroyed (hd : s.session.phase.isDestroyed = true)
    (f : Handle → Stage → Stage) : s.changeLive f = (s, .error .destroyed) :=
  withLive_destroyed hd _

theorem transport_destroyed (hd : s.session.phase.isDestroyed = true) (op : Transport) :
    s.transport op = (s, .error .destroyed) :=
  withLive_destroyed hd _

/-- A destroyed session takes no picture. -/
theorem consume_destroyed (hd : s.session.phase.isDestroyed = true) (data : Array UInt8) :
    s.consume data = (s, .error .destroyed) := by
  simp only [consume, Session.live, hd, if_true]

/-- A destroyed session is not set up as an encoder. -/
theorem setupEncoding_destroyed (hd : s.session.phase.isDestroyed = true) (enc : Encoding) :
    ∃ e, s.setupEncoding enc = (s, .error e) := by
  simp only [setupEncoding]
  split
  · exact ⟨_, rfl⟩
  · exact ⟨_, changeLive_destroyed hd _⟩

/-- A picture of another size does not set it up either. -/
theorem consumeSized_destroyed (hd : s.session.phase.isDestroyed = true) (size : Size)
    (data : Array UInt8) : ∃ e, s.consumeSized size data = (s, .error e) := by
  simp only [consumeSized]
  split
  · exact ⟨_, rfl⟩
  split
  · exact ⟨_, consume_destroyed hd data⟩
  · next enc _ =>
      split
      · exact ⟨_, consume_destroyed hd data⟩
      · obtain ⟨e, he⟩ := setupEncoding_destroyed hd { enc with size := size }
        rw [he]
        exact ⟨e, rfl⟩

/-- Whatever needs the pipeline is refused once the session is destroyed. -/
theorem exec_refused (hd : s.session.phase.isDestroyed = true) {c : Command}
    (hc : c.needsPipeline = true) : ∃ e, c.exec s = (s, .error e) := by
  cases c with
  | share | isPlaying | isLoaded | setLooping | observe | destroy => cases hc
  | bringUp =>
      refine ⟨.destroyed, ?_⟩
      simp only [Command.exec, bringUp, hd, if_true]
  | start =>
      refine ⟨.destroyed, ?_⟩
      simp only [Command.exec, start, bringUp, hd, if_true]
  | setup | setupWith =>
      refine ⟨.destroyed, ?_⟩
      simp only [Command.exec, setup, setupWith, changeLive_destroyed hd]
  | setupEncoding enc => exact setupEncoding_destroyed hd enc
  | play =>
      refine ⟨.destroyed, ?_⟩
      simp only [Command.exec, play, transport_destroyed hd]
  | pause | stop =>
      refine ⟨.destroyed, ?_⟩
      simp only [Command.exec, pause, stop, transport_destroyed hd]
      rfl
  | close =>
      refine ⟨.destroyed, ?_⟩
      simp only [Command.exec, close, transport_destroyed hd]
      split <;> rfl
  | consume data => exact ⟨_, consume_destroyed hd data⟩
  | consumeSized size data => exact consumeSized_destroyed hd size data
  | duration | position =>
      refine ⟨.destroyed, ?_⟩
      simp only [Command.exec, duration, position, query, withLive_destroyed hd]
      rfl
  | setPosition | setBaseTime | setVolume | setBitrateLimit =>
      refine ⟨.destroyed, ?_⟩
      simp only [Command.exec, setPosition, setBaseTime, setVolume, setBitrateLimit,
        changeLive_destroyed hd]

theorem query_destroyed (hd : s.session.phase.isDestroyed = true)
    (f : Engine → Nat → Engine × Bool) : orFalse (s.query f) = (s, false) := by
  simp only [query, withLive_destroyed hd, orFalse]

/-- No command to a session that was destroyed reaches the engine, or brings it back. -/
theorem exec_destroyed (hd : s.session.phase.isDestroyed = true) (c : Command) :
    (c.exec s).1.index = s.index ∧ (c.exec s).1.session.phase.isDestroyed = true ∧
      (c.exec s).1.host.engine = s.host.engine := by
  by_cases hc : c.needsPipeline = true
  · obtain ⟨e, he⟩ := exec_refused hd hc
    rw [he]
    exact ⟨rfl, hd, rfl⟩
  cases c with
  | share queue =>
      simp only [Command.exec, share]
      split <;> exact ⟨rfl, hd, rfl⟩
  | isPlaying | isLoaded =>
      simp only [Command.exec, isPlaying, isLoaded, query_destroyed hd]
      exact ⟨trivial, hd, trivial⟩
  | setLooping | observe => exact ⟨rfl, hd, rfl⟩
  | destroy =>
      simp only [Command.exec, destroy, hd, if_true]
      exact ⟨trivial, trivial, trivial⟩
  | _ => exact absurd rfl hc

/-- A stream's end that was not waited for is not asked for again, and its pipeline not called
any more. -/
theorem callCount_finish (h : Handle) (s : Stage) (c : Call) :
    (finish h (s, .timedOut)).host.engine.callCount h.id c = s.host.engine.callCount h.id c := by
  have hback : Host.Serves (fun _ => False) s.host s.releaseToken.host :=
    .of_context (context_releaseToken s)
  have hnote : Host.Serves (fun _ => False) s.releaseToken.host
      (s.releaseToken.onHost (·.note h.leakNotice)).host := .quiet rfl rfl rfl
  exact ((hback.trans hnote).trans (serves_letGo _)).spares id c

end Stage

/-- A new session takes the number. -/
def Action.makes (i : Nat) : Action → Bool
  | .newSession j .. => i = j
  | _ => false

namespace World
variable {w w₁ w' w₀ : World} {i : Nat} {s : Stage}

/-- The session was destroyed, if it is still there. -/
def Gone (w : World) (i : Nat) : Prop :=
  ∀ s, w.stage? i = some s → s.session.phase.isDestroyed = true

/-- A session is gone exactly if the books do not have it any more, or have it destroyed. -/
theorem gone_iff :
    w.Gone i ↔ ∀ v, w.books.wirings.get? i = some v → v.destroyed = true := by
  constructor
  · intro hg v hv
    simp only [World.books, Table.get?_map] at hv
    obtain ⟨x, hx, rfl⟩ := Option.map_eq_some_iff.mp hv
    exact hg ⟨i, x, w.host⟩ (stage?_eq_some.mpr ⟨rfl, hx, rfl⟩)
  · exact fun hv s hs => hv _ (wirings_of_stage hs)

theorem Gone.of_books (hg : w.Gone i) (hb : w'.books = w.books) : w'.Gone i :=
  gone_iff.mpr fun v hv => gone_iff.mp hg v (hb ▸ hv)

/-- A look at the engine leaves the books alone. -/
theorem Sound.books_look (hw : w.Sound) (i : Nat) :
    (w.act i (·.withLive Stage.pull)).1.books = w.books := by
  simp only [World.act]
  split
  · rfl
  · next s hs =>
      exact (hw.put_of_keeps hs (Stage.Keeps.withLive fun h hl =>
        Stage.keeps_pull s (Stage.live_eq_ok.mp hl).2)).1

theorem Sound.books_advance (hw : w.Sound) (i : Nat) : (w.advance i).1.books = w.books :=
  ((leads_advance w i).sound (hw.look i).sound).1.trans (hw.books_look i)

/-- Every action but a new session of the number leaves it gone. -/
theorem Gone.apply (hg : w.Gone i) (hw : w.Sound) {a : Action} (ha : a.makes i = false) :
    (w.apply a).Gone i := by
  cases a with
  | newSession j q config image =>
      have hij : j ≠ i := by simpa [Action.makes, eq_comm] using ha
      simp only [World.apply]
      split
      · intro s hs
        obtain ⟨hi, hget, -⟩ := stage?_eq_some.mp hs
        simp only [addSession, World.onHost, Table.get?_set, hij, if_false] at hget
        exact hg { s with host := w.host } (stage?_eq_some.mpr ⟨hi, hget, rfl⟩)
      · exact hg
  | command j c =>
      simp only [World.apply, act]
      split
      · exact hg
      · next x hx =>
          intro s hs
          rw [stage?_put] at hs
          have hindex := (Stage.turns_exec (hw.attached hx) (hw.coupled hx) c).index
          split at hs
          · next hi =>
              cases hs
              have hji : j = i := (stage?_eq_some.mp hx).1.symm.trans (hindex.symm.trans hi)
              exact (Stage.exec_destroyed (hg x (hji ▸ hx)) c).2.1
          · obtain ⟨y, hy, rfl⟩ := Option.map_eq_some_iff.mp hs
            exact hg y hy
  | tick j => exact hg.of_books (hw.books_advance j)
  | drop j =>
      simp only [World.apply, drop]
      split
      · exact hg
      · next x hx =>
          intro s hs
          obtain ⟨hi, hget, hh⟩ := stage?_eq_some.mp hs
          simp only [Table.get?_erase] at hget
          split at hget
          · cases hget
          · next hji =>
              have hindex := (Stage.destroys_destroy (hw.attached hx) (hw.coupled hx)).turns.index
              have hput : (w.put x.destroy).stage? i = some s := stage?_eq_some.mpr ⟨hi, hget, hh⟩
              rw [stage?_put, if_neg] at hput
              · obtain ⟨y, hy, rfl⟩ := Option.map_eq_some_iff.mp hput
                exact hg y hy
              · rw [hindex, (stage?_eq_some.mp hx).1]
                exact hji
  | drain q => exact hg.of_books ((leads_drain w q).sound hw).1
  | _ =>
      intro s hs
      obtain ⟨hi, hget, -⟩ := stage?_eq_some.mp hs
      exact hg { s with host := w.host } (stage?_eq_some.mpr ⟨hi, hget, rfl⟩)

/-- After its destroy a session is gone. -/
theorem gone_destroy (hw : w.Sound) (i : Nat) : (w.apply (.command i .destroy)).Gone i := by
  simp only [World.apply, act]
  split
  · next hn =>
      intro s hs
      rw [hn] at hs
      cases hs
  · next x hx =>
      intro s hs
      have hd := Stage.destroys_destroy (hw.attached hx) (hw.coupled hx)
      simp only [Command.exec] at hs
      rw [stage?_put, if_pos (hd.turns.index.trans (stage?_eq_some.mp hx).1)] at hs
      cases hs
      exact congrArg Wiring.destroyed hd.wiring

/-- So is one that was dropped. -/
theorem gone_drop (w : World) (i : Nat) : (w.apply (.drop i)).Gone i := by
  simp only [World.apply, drop]
  split
  · next hn =>
      intro s hs
      rw [hn] at hs
      cases hs
  · intro s hs
    obtain ⟨-, hget, -⟩ := stage?_eq_some.mp hs
    simp at hget

/-- A world at any later time, also while queued work is being run, if no new session takes the
number. -/
inductive Onward (i : Nat) (w : World) : World → Prop
  | refl : Onward i w w
  | action {w₁ : World} (h : Onward i w w₁) {a : Action} (ha : a.makes i = false) :
      Onward i w (w₁.apply a)
  /-- A tick that has looked for a frame, and has not run the queue yet. -/
  | look {w₁ : World} (h : Onward i w w₁) (j : Nat) :
      Onward i w (w₁.act j (·.withLive Stage.pull)).1
  | effect {w₁ w₂ : World} (h : Onward i w w₁) (he : Effect w₁ w₂) : Onward i w w₂

/-- A session that is gone stays so, whatever follows. -/
theorem Onward.gone (hl : Onward i w w') (hw : w.Sound) (hc : w.books.Claimed) (hg : w.Gone i) :
    w'.Sound ∧ w'.books.Claimed ∧ w'.Gone i := by
  induction hl with
  | refl => exact ⟨hw, hc, hg⟩
  | @action x _ a ha ih =>
      obtain ⟨hw₁, hc₁, hg₁⟩ := ih
      have hs := hw₁.apply a
      exact ⟨hs.sound, hs.moves.preserves (fun _ _ => Move.claimed) hc₁, hg₁.apply hw₁ ha⟩
  | look _ j ih =>
      obtain ⟨hw₁, hc₁, hg₁⟩ := ih
      have hb := hw₁.books_look j
      exact ⟨(hw₁.look j).sound, hb ▸ hc₁, hg₁.of_books hb⟩
  | effect _ he ih =>
      obtain ⟨hw₁, hc₁, hg₁⟩ := ih
      obtain ⟨hb, hs⟩ := (he.quiet hw₁.distinct).sound hw₁
      exact ⟨hs, hb ▸ hc₁, hg₁.of_books hb⟩

/-- No operation of the session reaches the engine, what needs its pipeline fails, and no event
reaches the session. -/
structure Inert (w : World) (i : Nat) : Prop where
  commands : ∀ c : Command, (w.act i c.exec).1.host.engine = w.host.engine
  refused : ∀ s (c : Command), w.stage? i = some s → c.needsPipeline = true →
    ∃ e, (w.act i c.exec).2 = some (.error e)
  queries : ∀ s, w.stage? i = some s → s.isPlaying.2 = false ∧ s.isLoaded.2 = false
  tick : (w.advance i).1 = w ∧
    ∀ s, w.stage? i = some s → (w.advance i).2 = some (.error .destroyed)
  drop : (w.drop i).1.host.engine = w.host.engine
  /-- A callback with a number that the session had is dropped. -/
  callbacks : ∀ t e, w.books.ledger.Belongs t (.session i) → w.host.signal ⟨t, e⟩ = w.host
  /-- An event that is still queued for it does nothing. -/
  events : ∀ d q t e, w.books.ledger.Belongs t (.session i) →
    runJob d q (.deliver t e) w = (w, none)

/-- And it does nothing: every number that it had was given back, and it has no pipeline. -/
theorem Gone.inert (hg : w.Gone i) (hc : w.books.Claimed) : w.Inert i := by
  -- every number that the session had was given back
  have hnone : ∀ t, w.books.ledger.Belongs t (.session i) → w.host.arena.resolve t = none := by
    rintro t ⟨r, ht⟩
    cases hr : w.host.arena.resolve t with
    | none => rfl
    | some b =>
        have hreg : w.books.ledger.bindings.get? t = some (b.target, true) :=
          Host.bindings_of_resolve hr
        have htarget : b.target = .session i :=
          congrArg Prod.fst (Option.some.inj (hreg.symm.trans ht))
        obtain ⟨j, h, hj, hup⟩ := hc t _ hreg
        rw [htarget] at hj
        cases hj
        cases gone_iff.mp hg _ hup
  refine ⟨fun c => ?_, fun s c hs hn => ?_, fun s hs => ?_, ?_, ?_, fun t e ht => ?_,
    fun d q t e ht => ?_⟩
  · simp only [act]
    split
    · rfl
    · next s hs =>
        rw [← (stage?_eq_some.mp hs).2.2]
        exact (Stage.exec_destroyed (hg s hs) c).2.2
  · obtain ⟨e, he⟩ := Stage.exec_refused (hg s hs) hn
    exact ⟨e, by simp only [act, hs, he]⟩
  · simp only [Stage.isPlaying, Stage.isLoaded, Stage.query_destroyed (hg s hs)]
    exact ⟨trivial, trivial⟩
  · cases hs : w.stage? i with
    | none =>
        simp only [advance, act, hs]
        exact ⟨trivial, fun s hs => by cases hs⟩
    | some s =>
        simp only [advance, act, hs, Stage.withLive_destroyed (hg s hs), put_self hs]
        exact ⟨trivial, fun _ _ => trivial⟩
  · simp only [drop]
    split
    · rfl
    · next s hs =>
        simp only [Stage.destroy, hg s hs, if_true, put_self hs]
  · simp only [Host.signal, hnone t ht]
  · simp only [runJob, hnone t ht]

/-- In every run in which references are taken by sessions only: every call was made while the
engine was up, and before its pipeline was destroyed; a pipeline that is given up is called no
more, neither by the session that gives it up nor at any later time; and from the time on that a
session is destroyed or dropped, nothing reaches the engine through it, and no event reaches
it. -/
theorem calls_in_service (h₀ : Fresh w₀) (as : List Action) (ha : ∀ a ∈ as, a.isLeased = true) :
    (∀ later k c earlier,
      (w₀.run as).host.engine.history = later ++ .call k c :: earlier →
      (∃ since before, earlier = since ++ .startUp :: before ∧ .shutDown ∉ since) ∧
        .call k .destroy ∉ earlier) ∧
    (∀ i s h, (w₀.run as).stage? i = some s → s.session.pipeline = some h →
      s.isEncoding = true → (Stage.awaitEnd h (s.ending h)).2 = .timedOut → ∀ c,
        s.destroy.host.engine.callCount h.id c =
          (Stage.awaitEnd h (s.ending h)).1.host.engine.callCount h.id c) ∧
    (∀ k ∈ (w₀.run as).host.ledger.leaks, ∀ bs : List Action, (∀ b ∈ bs, b.isLeased = true) →
      ∀ c, ((w₀.run as).run bs).host.engine.callCount k c =
        (w₀.run as).host.engine.callCount k c) ∧
    (∀ i a, a = .command i .destroy ∨ a = .drop i → ∀ w, Onward i ((w₀.run as).apply a) w →
      w.Inert i) := by
  have hrun := h₀.orderly.run ha
  have hclaimed : (w₀.run as).books.Claimed := by
    refine (run_preserves (P := fun x => x.Sound ∧ x.books.Claimed) (fun x a hx => ?_) as
      ⟨h₀.sound, ?_⟩).2
    · have hs := hx.1.apply a
      exact ⟨hs.sound, hs.moves.preserves (fun _ _ => Move.claimed) hx.2⟩
    · rw [h₀.books]
      intro t target ht
      cases ht
  generalize w₀.run as = w at hrun hclaimed ⊢
  refine ⟨fun later k c earlier hh => ?_, fun i s h _ hp he hw c => ?_,
    fun k hk bs hb c => hrun.callCount_run hk hb c, fun i a hgone w' hw' => ?_⟩
  · have hproper := hrun.host.proper
    rw [hh] at hproper
    obtain ⟨hup, hn, -⟩ := hproper.earlier
    exact ⟨(Request.upAfter_iff earlier).mp hup, hn⟩
  · rw [Stage.destroy_of_encoding hp he]
    have hwait : Stage.awaitEnd h (s.ending h) =
        ((Stage.awaitEnd h (s.ending h)).1, .timedOut) := Prod.ext rfl hw
    rw [hwait]
    exact Stage.callCount_finish h _ c
  · have hs := hrun.sound.apply a
    have hc := hs.moves.preserves (fun _ _ => Move.claimed) hclaimed
    have hg : (w.apply a).Gone i := by
      rcases hgone with rfl | rfl
      · exact gone_destroy hrun.sound i
      · exact gone_drop w i
    obtain ⟨-, hc', hg'⟩ := hw'.gone hs.sound hc hg
    exact hg'.inert hc'

/-- The first session's pipeline was asked for the end of its stream and given up; nothing is
asked of it any more, whatever is done with the session. -/
theorem two_sessions_in_service :
    (∃ since before, (slow.run twoSessions).host.engine.history.drop 2 =
      since ++ .startUp :: before ∧ .shutDown ∉ since) ∧
    (∀ c, ((slow.run twoSessions).run [.command 0 .play, .drop 0]).host.engine.callCount 2 c =
      (slow.run twoSessions).host.engine.callCount 2 c) ∧
    ((slow.run twoSessions).apply (.command 0 .destroy)).Inert 0 := by
  obtain ⟨hup, -, hleak, hinert⟩ := calls_in_service fresh_slow twoSessions (by decide)
  refine ⟨?_, fun c => ?_, hinert 0 _ (.inl rfl) _ .refl⟩
  · exact (hup [.shutDown] 1 .destroy _ (by decide)).1
  · exact hleak 2 (by decide) [.command 0 .play, .drop 0] (by decide) c

end World
end MediaHost
