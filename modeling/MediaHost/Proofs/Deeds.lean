import MediaHost.Proofs.Flow

/-!
# Proofs — Deeds

How far a session reaches into the host it shares with others: to the numbers that are its own or
new, and to the queue that it has to itself (`Reach`).  Everything that a command does to the host
is a sequence of small deeds within that reach (`Stage.deeds_exec`), and so is a look for a frame
(`Stage.deeds_pull`).  What such deeds leave alone, the commands leave alone.
-/

namespace MediaHost

/-- How far a session reaches. -/
structure Reach where
  /-- The numbers that stand for it. -/
  owns : Nat → Prop
  /-- The queues that it may close. -/
  closes : Nat → Prop

/-- A reach without bounds. -/
def Reach.all : Reach := ⟨fun _ => True, fun _ => True⟩

namespace Host
variable {r : Reach} {a b c : Host}

/-- One thing that is done to the host for a session. -/
inductive Deed (r : Reach) : Host → Host → Prop
  | context (a : Host) (x : Context) : Deed r a { a with context := x }
  | note (a : Host) (n : Notice) : Deed r a (a.note n)
  | late (a : Host) (l : List Callback) : Deed r a { a with late := l }
  /-- Callbacks for the session are in flight. -/
  | fly (a : Host) (cs : List Callback) (h : ∀ x ∈ cs, r.owns x.userdata) :
      Deed r a { a with inFlight := a.inFlight ++ cs }
  /-- One of them is in flight no longer. -/
  | land (a : Host) (n : Nat) (h : ∀ x, a.inFlight[n]? = some x → r.owns x.userdata) :
      Deed r a { a with inFlight := a.inFlight.eraseIdx n }
  /-- A callback for the session, or one that finds nobody. -/
  | signal (a : Host) (x : Callback) (h : r.owns x.userdata ∨ a.arena.resolve x.userdata = none) :
      Deed r a (a.signal x)
  | register (a : Host) (q : Nat) (target : Target) : Deed r a (a.register q target)
  | unregister (a : Host) {t : Nat} (h : r.owns t) : Deed r a (a.unregister t)
  | rearm (a : Host) {t : Nat} (h : r.owns t) :
      Deed r a { a with arena := a.arena.modify t (·.rearm) }
  | close (a : Host) {q : Nat} (h : r.closes q) : Deed r a (a.modifyQueue q (·.close))

/-- Deeds one after another. -/
inductive Deeds (r : Reach) : Host → Host → Prop
  | refl (a : Host) : Deeds r a a
  | more {a b c : Host} (h : Deed r a b) (t : Deeds r b c) : Deeds r a c

theorem Deeds.one (h : Deed r a b) : Deeds r a b := .more h (.refl b)

theorem Deeds.trans (h₁ : Deeds r a b) (h₂ : Deeds r b c) : Deeds r a c := by
  induction h₁ with
  | refl => exact h₂
  | more h _ ih => exact .more h (ih h₂)

/-- What every deed preserves, deeds preserve. -/
theorem Deeds.preserves {P : Host → Prop} (hP : ∀ a b, Deed r a b → P a → P b)
    (h : Deeds r a b) : P a → P b := by
  induction h with
  | refl => exact id
  | more h _ ih => exact fun ha => ih (hP _ _ h ha)

theorem deeds_setEngine (a : Host) (e : Engine) : Deeds r a (a.setEngine e) := .one (.context a _)

/-- Notices are for the host's owner, not for its sessions. -/
theorem deeds_noteAll (a : Host) (ns : List Notice) : Deeds r a (a.noteAll ns) := by
  simp only [noteAll]
  induction ns generalizing a with
  | nil => exact .refl a
  | cons n ns ih => exact .more (.note a n) (ih _)

/-- A reference is nobody's number. -/
theorem deeds_addRef (a : Host) : Deeds r a a.addRef :=
  .more (.context a _) (deeds_noteAll _ _)

theorem deeds_releaseLease (a : Host) (l : Lease) : Deeds r a (a.releaseLease l) :=
  .more (.context a _) (deeds_noteAll _ _)

theorem deeds_releaseRef (a : Host) : Deeds r a a.releaseRef :=
  .more (.context a _) (deeds_noteAll _ _)

/-- Callbacks reach the numbers they name, or nobody. -/
theorem deeds_signalAll (a : Host) {cs : List Callback}
    (hc : ∀ x ∈ cs, r.owns x.userdata ∨ a.arena.resolve x.userdata = none) :
    Deeds r a (a.signalAll cs) := by
  induction cs generalizing a with
  | nil => exact .refl a
  | cons x cs ih =>
      refine .more (.signal a x (hc x List.mem_cons_self)) (ih (a.signal x) ?_)
      intro y hy
      refine (hc y (List.mem_cons_of_mem x hy)).imp_right fun hn => ?_
      -- a signal registers nobody
      rw [resolve_signal, hn]
      split <;> rfl

/-- Callbacks for the session arrive, or are in flight. -/
theorem deeds_launch (a : Host) {cs : List Callback} (hc : ∀ x ∈ cs, r.owns x.userdata) :
    Deeds r a (a.launch cs) := by
  simp only [launch]
  split
  · exact deeds_signalAll a fun x hx => .inl (hc x hx)
  · exact .one (.fly a cs hc)

/-- A callback for the session arrives. -/
theorem deeds_arrive (a : Host) {n : Nat}
    (hn : ∀ x, a.inFlight[n]? = some x → r.owns x.userdata) : Deeds r a (a.arrive n) := by
  simp only [arrive]
  split
  · exact .refl a
  · next c hc => exact .more (.land a n hn) (.one (.signal _ c (.inl (hn c hc))))

theorem deeds_settle (a : Host) : Deeds .all a a.settle :=
  .more (.late a []) (deeds_signalAll _ fun _ _ => .inl trivial)

end Host

/-! ### Whom the engine calls back -/

/-- A pipeline calls back the number it was given. -/
theorem Pipeline.userdata_callback {p : Pipeline} {e : Event} {x : Callback}
    (h : p.callback e = some x) : x.userdata = p.userdata := by
  simp only [callback] at h
  split at h
  · obtain rfl := Option.some.inj h
    rfl
  · cases h

namespace Engine
variable {e : Engine} {k : Nat} {x : Callback}

/-- Some pipeline under the number `k` calls back with the number `t`. -/
def Calls (e : Engine) (k t : Nat) : Prop :=
  ∃ cb, e.inventory.pipelines.get? k = some (t, cb)

/-- So what it has to say is for its owner. -/
theorem calls_of_callback {p : Pipeline} (hp : e.pipelines.get? k = some p) {event : Option Event}
    (hx : x ∈ (event.bind p.callback).toList) : e.Calls k x.userdata := by
  obtain ⟨ev, -, hev⟩ := Option.bind_eq_some_iff.mp (Option.mem_toList.mp hx)
  refine ⟨p.callbacks, ?_⟩
  simp only [inventory, Table.get?_map, hp, Option.map_some, Pipeline.wire,
    Pipeline.userdata_callback hev]

/-- An opening failure is for the owner. -/
theorem calls_setupDecoding {d : Decoding} (hx : x ∈ (e.setupDecoding k d).2) :
    e.Calls k x.userdata := by
  simp only [setupDecoding] at hx
  split at hx
  · cases hx
  · simp only [callbackOf, Option.mem_toList] at hx
    obtain ⟨p, hp, hev⟩ := Option.bind_eq_some_iff.mp hx
    simp only [change, Table.get?_modify, if_true, Option.map_eq_some_iff] at hp
    obtain ⟨p₀, hp₀, rfl⟩ := hp
    have hp₀ : e.pipelines.get? k = some p₀ := hp₀
    refine ⟨p₀.callbacks, ?_⟩
    simp only [inventory, Table.get?_map, hp₀, Option.map_some, Pipeline.wire,
      Pipeline.userdata_callback hev, Pipeline.setupDecoding]

/-- So is the end of an encoded stream, -/
theorem calls_stopEncoding (hx : x ∈ (e.stopEncoding k).2) : e.Calls k x.userdata := by
  simp only [stopEncoding] at hx
  split at hx
  · cases hx
  · next hp => exact calls_of_callback hp hx

/-- and the end of media that is played. -/
theorem calls_grab (hx : x ∈ (e.grab k).2.2) : e.Calls k x.userdata := by
  simp only [grab] at hx
  split at hx
  · cases hx
  · next hp => exact calls_of_callback hp hx

/-- A look for a frame calls back as its grab does. -/
theorem calls_poll {a : Acquisition} {image : Image} (hx : x ∈ (a.poll image e k).callbacks) :
    e.Calls k x.userdata := by
  rw [Acquisition.callbacks_poll] at hx
  exact calls_grab hx

end Engine

namespace Stage
variable {r : Reach} {s s' : Stage} {h : Handle}

open Host (Deeds)

/-- How far a session reaches: to its own number and those not given out, and to its own queue. -/
def reach (s : Stage) : Reach where
  owns t := s.session.token = some t ∨ s.host.arena.next ≤ t
  closes q := s.session.ownsQueue = true ∧ s.session.queue = q

/-- All that the session has, or may get, is within reach. -/
structure Within (r : Reach) (s : Stage) : Prop where
  token : ∀ {t}, s.session.token = some t → r.owns t
  calls : ∀ {h t}, s.session.pipeline = some h → s.host.engine.Calls h.id t → r.owns t
  next : ∀ {t}, s.host.arena.next ≤ t → r.owns t
  queue : s.session.ownsQueue = true → r.closes s.session.queue

/-- A session's reach is enough for it. -/
theorem within_reach (ha : Books.Attached s.host.ledger s.index s.session.wiring) :
    s.Within s.reach := by
  refine ⟨.inl, ?_, .inr, fun hq => ⟨hq, rfl⟩⟩
  rintro h t hp ⟨cb, hcb⟩
  obtain ⟨u, hwir⟩ := ha.of_pipeline (v := s.session.wiring) hp
  have hget := (hwir ▸ ha).of_up.1
  obtain ⟨rfl, -⟩ := Prod.mk.inj (Option.some.inj (hget.symm.trans hcb))
  exact .inl (live_of_up hwir).2.2.1

/-- Only the engine and its own account changed. -/
theorem Within.thenWorks {f : Pipeline → Pipeline} (hw : s.Within r) (hs : Works h f s s')
    (ha : s'.host.arena = s.host.arena) (hq : s'.session.ownsQueue = s.session.ownsQueue)
    (hq' : s'.session.queue = s.session.queue) : s'.Within r := by
  have hl := hs.host.ledger
  refine ⟨?_, ?_, ?_, ?_⟩
  · intro t ht
    exact hw.token ((congrArg Wiring.token hs.wiring).symm.trans ht)
  · rintro g t hg ⟨cb, hcb⟩
    have hinv : s'.host.engine.inventory = s.host.engine.inventory := congrArg Ledger.engine hl
    rw [pipeline_of_wiring hs.wiring] at hg
    rw [hinv] at hcb
    exact hw.calls hg ⟨cb, hcb⟩
  · rw [ha]
    exact hw.next
  · rw [hq, hq']
    exact hw.queue

/-- Without a pipeline nothing is done at all. -/
theorem deeds_withLive {α : Type} {f : Handle → Stage → Stage × α}
    (hf : ∀ h, s.session.live = .ok h → Deeds r s.host (f h s).1.host) :
    Deeds r s.host (s.withLive f).1.host := by
  simp only [withLive]
  split
  · exact .refl _
  · next h hl => exact hf h hl

theorem deeds_changeLive {f : Handle → Stage → Stage}
    (hf : ∀ h, s.session.live = .ok h → Deeds r s.host (f h s).host) :
    Deeds r s.host (s.changeLive f).1.host :=
  deeds_withLive hf

/-! ### New media -/

/-- Releasing media tells nobody. -/
theorem deeds_closeMedia (h : Handle) (s : Stage) : Deeds r s.host (closeMedia h s).host := by
  have hm : Deeds r s.host (hasMedia h s).1.host := by
    simp only [hasMedia]
    split
    · exact Host.deeds_setEngine _ _
    · exact (Host.deeds_setEngine _ _).trans (Host.deeds_setEngine _ _)
  simp only [closeMedia]
  split
  · exact hm.trans (Host.deeds_setEngine _ _)
  · exact hm

/-- Starting the stream over concerns the session's own number. -/
theorem deeds_resetStream (ht : ∀ {t}, s.session.token = some t → r.owns t) :
    Deeds r s.host s.resetStream.host := by
  simp only [resetStream]
  cases htok : s.session.token with
  | none => exact .refl _
  | some t =>
      simp only [onHost, modify]
      split
      · exact .one (.rearm _ (ht htok))
      · exact .refl _

/-- A setup reports to the owner of the pipeline. -/
theorem deeds_requested {a : Host} (d : Decoding)
    (hc : ∀ {t}, a.engine.Calls h.id t → r.owns t) : Deeds r a (requested h d a) := by
  simp only [requested]
  split
  · refine (Host.deeds_setEngine a (a.engine.setupDecoding h.id d).1).trans ?_
    exact Host.deeds_launch _ fun x hx => hc (Engine.calls_setupDecoding hx)
  · exact .refl a

/-- What the session refuses itself it reports to itself. -/
theorem deeds_report (ht : ∀ {t}, s.session.token = some t → r.owns t) (d : Decoding) :
    Deeds r s.host (report d s).host := by
  simp only [report]
  split
  · next htok => exact .one (.signal _ _ (.inl (ht htok)))
  · exact .refl _

theorem within_closeMedia (hw : s.Within r) (h : Handle) : (closeMedia h s).Within r :=
  hw.thenWorks (works_closeMedia h s) (host_closeMedia h s).1 (by rw [session_closeMedia])
    (by rw [session_closeMedia])

/-- A setup to decode keeps to the session's reach. -/
theorem deeds_setupWith (hw : s.Within r) (d : Decoding) :
    Deeds r s.host (s.setupWith d).1.host := by
  rw [setupWith_eq]
  refine deeds_changeLive fun h hl => ?_
  have hp : (closeMedia h s).session.pipeline = some h := by
    rw [session_closeMedia]
    exact (live_eq_ok.mp hl).2
  have hw₁ := within_closeMedia hw h
  have hreq : Deeds r (closeMedia h s).host (requested h d (closeMedia h s).host) :=
    deeds_requested d fun hc => hw₁.calls hp hc
  have htok : ∀ {t}, (decode h d (closeMedia h s)).session.token = some t → r.owns t := by
    intro t ht
    rw [decode_eq, session_resetStream] at ht
    exact hw₁.token ht
  have hdecode : Deeds r (closeMedia h s).host (decode h d (closeMedia h s)).host := by
    rw [decode_eq]
    exact hreq.trans (deeds_resetStream (s := Stage.mk _ _ _) fun ht => hw₁.token ht)
  exact (deeds_closeMedia h s).trans (hdecode.trans (deeds_report htok d))

/-- So does a setup to encode. -/
theorem deeds_setupEncoding (hw : s.Within r) (enc : Encoding) :
    Deeds r s.host (s.setupEncoding enc).1.host := by
  by_cases he : enc.size.isEmpty = true
  · simp only [setupEncoding, he, if_true]
    exact .refl _
  rw [setupEncoding_eq s (by simpa using he)]
  refine deeds_changeLive fun h _ => (deeds_closeMedia h s).trans ?_
  have hw₁ := within_closeMedia hw h
  have htell : Deeds r (closeMedia h s).host
      ((closeMedia h s).host.tell (·.setupEncoding h.id enc)) := Host.deeds_setEngine _ _
  simp only [encode]
  exact htell.trans (deeds_resetStream (s := Stage.mk _ _ _) fun ht => hw₁.token ht)

/-! ### Transport and media -/

/-- The transport tells the engine, and nobody else. -/
theorem deeds_transport (s : Stage) (op : Transport) :
    Deeds r s.host (s.transport op).1.host := by
  refine deeds_withLive fun h _ => ?_
  split
  · exact .refl _
  · exact Host.deeds_setEngine _ _

theorem deeds_play (s : Stage) : Deeds r s.host s.play.1.host := by
  have ht := deeds_transport (r := r) s .play
  simp only [play]
  split <;> (next heq => rw [heq] at ht; exact ht)

theorem deeds_close (s : Stage) : Deeds r s.host s.close.1.host := by
  simp only [close]
  split
  · have ht := deeds_transport (r := r) s .stop
    split
    · next heq =>
        rw [heq] at ht
        exact ht.trans (deeds_transport _ .close)
    · next heq => rwa [heq] at ht
  · exact deeds_transport s .close

theorem deeds_consume (s : Stage) (data : Array UInt8) :
    Deeds r s.host (s.consume data).1.host := by
  simp only [consume]
  split
  · exact .refl _
  · split
    · exact .refl _
    · exact Host.deeds_setEngine _ _

/-- A picture of another size sets up and plays first. -/
theorem deeds_consumeSized (hw : s.Within r) (size : Size) (data : Array UInt8) :
    Deeds r s.host (s.consumeSized size data).1.host := by
  simp only [consumeSized]
  split
  · exact .refl _
  split
  · exact deeds_consume s data
  · next enc _ =>
      split
      · exact deeds_consume s data
      have hs := deeds_setupEncoding hw { enc with size := size }
      split
      · next heq => rwa [heq] at hs
      · next s₁ heq =>
          rw [heq] at hs
          have hp := deeds_play (r := r) s₁
          split
          · next heq' =>
              rw [heq'] at hp
              exact hs.trans hp
          · next s₂ heq' =>
              rw [heq'] at hp
              exact (hs.trans hp).trans (deeds_consume s₂ data)

theorem deeds_query {α : Type} {f : Engine → Nat → Engine × α} :
    Deeds r s.host (s.query f).1.host :=
  deeds_withLive fun _ _ => Host.deeds_setEngine _ _

theorem deeds_orFalse {x : Stage × Except Error Bool} (hx : Deeds r s.host x.1.host) :
    Deeds r s.host (orFalse x).1.host := by
  rcases x with ⟨s', _ | _⟩ <;> exact hx

/-- A look for a frame. -/
theorem deeds_pull (hw : s.Within r) (hp : s.session.pipeline = some h) :
    Deeds r s.host (pull h s).1.host := by
  have hpoll : Deeds r s.host
      ((s.host.setEngine
        (s.session.frames.poll s.session.image s.host.engine h.id).engine).launch
          (s.session.frames.poll s.session.image s.host.engine h.id).callbacks) := by
    refine (Host.deeds_setEngine _ _).trans (Host.deeds_launch _ fun x hx => ?_)
    exact hw.calls hp (Engine.calls_poll hx)
  simp only [pull]
  split
  · split
    · exact hpoll
    · exact hpoll
    · refine hpoll.trans ?_
      split
      · exact Host.deeds_setEngine _ _
      · exact .refl _
  · exact .refl _

/-! ### Bringing a session up, and destroying it -/

theorem arena_addRef (a : Host) : a.addRef.arena = a.arena := by
  rw [Host.addRef_eq]

theorem deeds_bound (s : Stage) : Deeds r s.host s.bound :=
  (Host.deeds_addRef s.host).trans (.one (.register _ _ _))

/-- A session that comes up takes a number of its own. -/
theorem deeds_bringUp (hw : s.Within r) : Deeds r s.host s.bringUp.1.host := by
  by_cases hd : s.session.phase.isDestroyed = true
  · simp only [bringUp, hd, if_true]
    exact .refl _
  by_cases hl : s.session.lease.isSome = true
  · simp only [bringUp, hd, hl, if_true]
    exact .refl _
  rw [Bool.not_eq_true] at hd hl
  by_cases hact : s.host.addRef.context.isActive = true
  · rcases hc : s.bound.engine.create s.session.name .all s.host.addRef.arena.next with
      ⟨e, _ | id⟩
    · rw [bringUp_refused hd hl hact hc]
      have hown : r.owns s.host.addRef.arena.next := by
        rw [arena_addRef]
        exact hw.next (Nat.le_refl _)
      have hback : Deeds r (s.bound.setEngine e)
          ((s.bound.setEngine e).unregister s.host.addRef.arena.next) := .one (.unregister _ hown)
      exact (deeds_bound s).trans ((Host.deeds_setEngine _ e).trans
        (hback.trans (Host.deeds_releaseLease _ {})))
    · rw [bringUp_made hd hl hact hc]
      exact (deeds_bound s).trans (Host.deeds_setEngine _ e)
  · rw [bringUp_inactive hd hl (by simpa using hact)]
    exact (Host.deeds_addRef _).trans (Host.deeds_releaseLease _ {})

/-- A session that came up has the number and the pipeline it was given. -/
theorem within_bringUp (ha : Books.Attached s.host.ledger s.index s.session.wiring)
    (hw : s.Within r) (hl : s.bringUp.1.session.live = .ok h) : s.bringUp.1.Within r := by
  by_cases hd : s.session.phase.isDestroyed = true
  · simpa only [bringUp, hd, if_true] using hw
  rw [Bool.not_eq_true] at hd
  by_cases hlease : s.session.lease.isSome = true
  · have hsame : s.bringUp.1 = s := by simp [bringUp, hd, hlease]
    rwa [hsame]
  rw [Bool.not_eq_true] at hlease
  -- a session that did not come up is not live
  have hdown : ∀ x : Stage, x.session = s.session → x.session.live ≠ .ok h := by
    intro x hx hlive
    have hp := (live_eq_ok.mp hlive).2
    have hnone : s.session.pipeline = none := congrArg Wiring.pipeline (wiring_of_lease ha hlease)
    rw [hx, hnone] at hp
    cases hp
  by_cases hact : s.host.addRef.context.isActive = true
  · rcases hc : s.bound.engine.create s.session.name .all s.host.addRef.arena.next with
      ⟨e, _ | id⟩
    · rw [bringUp_refused hd hlease hact hc] at hl
      exact absurd hl (hdown _ rfl)
    · rw [bringUp_made hd hlease hact hc]
      obtain ⟨hid, hp⟩ := pipelines_create hc
      have hnext : s.host.addRef.arena.next = s.host.arena.next := by rw [arena_addRef]
      have hown : r.owns s.host.addRef.arena.next := hw.next (Nat.le_of_eq hnext.symm)
      refine ⟨?_, ?_, ?_, hw.queue⟩
      · intro t ht
        obtain rfl := Option.some.inj ht
        exact hown
      · rintro g t hg ⟨cb, hcb⟩
        obtain rfl := Option.some.inj hg
        change (e.pipelines.map Pipeline.wire).get? id = _ at hcb
        rw [hid, hp, Table.get?_map, Table.get?_set, if_pos rfl] at hcb
        obtain ⟨rfl, -⟩ := Prod.mk.inj (Option.some.inj hcb)
        exact hown
      · intro t ht
        change s.host.addRef.arena.next + 1 ≤ t at ht
        rw [hnext] at ht
        exact hw.next (Nat.le_of_succ_le ht)
  · rw [bringUp_inactive hd hlease (by simpa using hact)] at hl
    exact absurd hl (hdown _ rfl)

/-- What a start does once the session is up. -/
theorem deeds_started (ha : Books.Attached s.host.ledger s.index s.session.wiring)
    (hw : s.Within r) : Deeds r s.bringUp.1.host s.start.1.host := by
  rcases start_cases s with ⟨-, hs⟩ | ⟨uri, video, audio, hok, hs⟩
  · rw [hs]
    exact .refl _
  · obtain ⟨h, hl⟩ := live_of_setup (c := .setup uri video audio) rfl hok
    rw [hs]
    exact (deeds_setupWith (within_bringUp ha hw hl) _).trans (deeds_play _)

/-- It gives no other number back. -/
theorem deeds_releaseToken (ht : ∀ {t}, s.session.token = some t → r.owns t) :
    Deeds r s.host s.releaseToken.host := by
  simp only [releaseToken]
  split
  · exact .refl _
  · next htok => exact .one (.unregister _ (ht htok))

/-- A session gives back no more than it has. -/
theorem deeds_letGo (ht : ∀ {t}, s.session.token = some t → r.owns t)
    (hq : s.session.ownsQueue = true → r.closes s.session.queue) :
    Deeds r s.host s.letGo.host := by
  have hqueue : ∀ a : Stage, a.session.ownsQueue = s.session.ownsQueue →
      a.session.queue = s.session.queue → Deeds r a.host a.leaveQueue.host := by
    intro a ho hqa
    simp only [leaveQueue]
    split
    · next howns =>
        rw [ho] at howns
        exact .one (.close _ (hqa ▸ hq howns))
    · exact .refl _
  have hlease : ∀ a : Stage, Deeds r a.host a.releaseLease.host := by
    intro a
    simp only [releaseLease]
    split
    · exact .refl _
    · exact Host.deeds_releaseLease _ _
  refine (deeds_releaseToken ht).trans ((hqueue s.releaseToken ?_ ?_).trans (hlease _)) <;>
    (simp only [releaseToken]; split <;> rfl)

/-- The engine is asked to end the stream; what is late then is for the session, or finds nobody. -/
theorem deeds_asked (hc : ∀ {t}, s.host.engine.Calls h.id t → r.owns t)
    (hlate : ∀ x ∈ s.host.late, s.host.arena.resolve x.userdata = none) :
    Deeds r s.host (s.asked h).host ∧ ∀ x ∈ (s.asked h).host.late,
      r.owns x.userdata ∨ (s.asked h).host.arena.resolve x.userdata = none := by
  generalize hstop : s.host.engine.stopEncoding h.id = stopped
  obtain ⟨e, cs⟩ := stopped
  have hmine : ∀ x ∈ cs, r.owns x.userdata := by
    intro x hx
    refine hc (Engine.calls_stopEncoding ?_)
    rw [hstop]
    exact hx
  simp only [asked, onHost, Host.stopEncoding, hstop]
  split
  · refine ⟨(Host.deeds_setEngine _ e).trans
      (Host.deeds_signalAll _ fun x hx => .inl (hmine x hx)), ?_⟩
    intro x hx
    have hsame := congrArg Ledger.late (Host.same_signalAll (h := s.host.setEngine e) cs).ledger
    have hx₀ : x ∈ s.host.late := by
      change ((s.host.setEngine e).signalAll cs).late = s.host.late at hsame
      rwa [hsame] at hx
    refine .inr (Option.not_isSome_iff_eq_none.mp ?_)
    rw [Host.isSome_resolve_signalAll]
    exact Option.not_isSome_iff_eq_none.mpr (hlate x hx₀)
  · refine ⟨(Host.deeds_setEngine _ e).trans (.one (.late _ _)), ?_⟩
    intro x hx
    rcases List.mem_append.mp hx with hx | hx
    · exact .inr (hlate x hx)
    · exact .inl (hmine x hx)

/-- The wait for the end of a stream hears of nobody but the session and those that are gone. -/
theorem deeds_awaitEnd (hc : ∀ {t}, s.host.engine.Calls h.id t → r.owns t)
    (hlate : ∀ x ∈ s.host.late, s.host.arena.resolve x.userdata = none) :
    Deeds r s.host (awaitEnd h s).1.host := by
  obtain ⟨hasked, hheard⟩ := deeds_asked hc hlate
  have hsettle : Deeds r s.host (s.asked h).host.settle :=
    hasked.trans (.more (.late _ []) (Host.deeds_signalAll _ hheard))
  have hnote : ∀ n, Deeds r s.host ((s.asked h).timeOut n).1.host :=
    fun n => hasked.trans (.one (.note _ _))
  simp only [awaitEnd]
  split
  · exact .refl _
  split
  · exact hasked
  split
  · exact hasked
  · exact hnote _
  · exact hsettle
  · split
    · exact hsettle
    · exact hnote _

/-- The end of a session closes its own queue only. -/
theorem deeds_finish {x : Stage × Wait} (ht : ∀ {t}, x.1.session.token = some t → r.owns t)
    (hq : x.1.session.ownsQueue = true → r.closes x.1.session.queue) :
    Deeds r x.1.host (finish h x).host := by
  have hlet : ∀ g : Host → Host, (∀ a, Deeds r a (g a)) →
      Deeds r x.1.host (x.1.releaseToken.onHost g).letGo.host := by
    intro g hg
    have hkeeps : x.1.releaseToken.session.token = none ∧
        x.1.releaseToken.session.ownsQueue = x.1.session.ownsQueue ∧
        x.1.releaseToken.session.queue = x.1.session.queue := by
      simp only [releaseToken]
      split
      · next hnone => exact ⟨hnone, rfl, rfl⟩
      · exact ⟨rfl, rfl, rfl⟩
    obtain ⟨hnone, howns, hqueue⟩ := hkeeps
    have hletGo := deeds_letGo (r := r) (s := x.1.releaseToken.onHost g)
      (fun {_} htok => by cases hnone.symm.trans htok) fun ho => by
        change x.1.releaseToken.session.ownsQueue = true at ho
        rw [howns] at ho
        exact hqueue ▸ hq ho
    exact (deeds_releaseToken ht).trans ((hg _).trans hletGo)
  simp only [finish]
  split
  · exact .refl _
  · exact hlet _ fun a => Host.deeds_setEngine a _
  · exact hlet _ fun a => .one (.note a _)

/-- While an encoder is waited for, everything late arrives, at numbers that were taken back. -/
theorem deeds_destroy (hw : s.Within r)
    (hlate : ∀ x ∈ s.host.late, s.host.arena.resolve x.userdata = none) :
    Deeds r s.host s.destroy.host := by
  by_cases hd : s.session.phase.isDestroyed = true
  · simp only [destroy, hd, if_true]
    exact .refl _
  rw [Bool.not_eq_true] at hd
  cases hp : s.session.pipeline with
  | none =>
      rw [destroy_of_none hd hp]
      exact deeds_letGo (s := s.withdrawn) (fun ht => hw.token ht) hw.queue
  | some h =>
      by_cases he : s.isEncoding = true
      · rw [destroy_of_encoding hp he]
        have hend : Deeds r s.host (s.ending h).host ∧ (s.ending h).host.arena = s.host.arena ∧
            (s.ending h).host.late = s.host.late ∧
            (s.ending h).session = s.withdrawn.session ∧
            (s.ending h).host.engine.inventory = s.host.engine.inventory := by
          simp only [ending]
          split
          · exact ⟨Host.deeds_setEngine _ _, rfl, rfl, rfl,
              (Engine.alters_play (e := s.host.engine) (k := h.id)).inventory⟩
          · exact ⟨.refl _, rfl, rfl, rfl, rfl⟩
        obtain ⟨hdeeds, harena, hsame, hsession, hinv⟩ := hend
        have hwait : Deeds r (s.ending h).host (awaitEnd h (s.ending h)).1.host := by
          refine deeds_awaitEnd ?_ ?_
          · rintro t ⟨cb, hcb⟩
            exact hw.calls hp ⟨cb, hinv ▸ hcb⟩
          · rw [harena, hsame]
            exact hlate
        refine hdeeds.trans (hwait.trans (deeds_finish ?_ ?_))
        · intro t ht
          rw [session_awaitEnd, hsession] at ht
          exact hw.token ht
        · intro hq
          rw [session_awaitEnd, hsession] at hq ⊢
          exact hw.queue hq
      · rw [destroy_of_idle hd hp (by simpa using he)]
        exact deeds_finish (x := (s.withdrawn, .ended)) (fun ht => hw.token ht) hw.queue

/-- Every command does to the host only what is within the session's reach. -/
theorem deeds_exec (ha : Books.Attached s.host.ledger s.index s.session.wiring)
    (hw : s.Within r) (hlate : ∀ x ∈ s.host.late, s.host.arena.resolve x.userdata = none)
    (c : Command) : Deeds r s.host (c.exec s).1.host := by
  cases c with
  | share queue =>
      simp only [Command.exec, share]
      split
      · exact .one (.note _ _)
      · exact .refl _
  | bringUp => exact deeds_bringUp hw
  | setup uri video audio => exact deeds_setupWith hw _
  | setupWith d => exact deeds_setupWith hw d
  | setupEncoding enc => exact deeds_setupEncoding hw enc
  | play => exact deeds_play s
  | pause => exact deeds_transport s .pause
  | stop => exact deeds_transport s .stop
  | close => exact deeds_close s
  | start => exact (deeds_bringUp hw).trans (deeds_started ha hw)
  | consume data => exact deeds_consume s data
  | consumeSized size data => exact deeds_consumeSized hw size data
  | duration => exact deeds_query (f := Engine.durationOf)
  | position => exact deeds_query (f := Engine.positionOf)
  | isPlaying => exact deeds_orFalse deeds_query
  | isLoaded => exact deeds_orFalse deeds_query
  | setPosition seconds => exact deeds_changeLive fun _ _ => Host.deeds_setEngine _ _
  | setBaseTime time => exact deeds_changeLive fun _ _ => Host.deeds_setEngine _ _
  | setVolume volume => exact deeds_changeLive fun _ _ => Host.deeds_setEngine _ _
  | setBitrateLimit limit =>
      refine deeds_changeLive fun h _ => ?_
      split
      · exact Host.deeds_setEngine _ _
      · exact .refl _
  | setLooping looping => exact .refl _
  | observe topic label program => exact .refl _
  | destroy => exact deeds_destroy hw hlate

end Stage

namespace World
variable {w : World} {i : Nat} {s : Stage}

/-- What is late finds nobody. -/
theorem Sound.late (hw : w.Sound) (hs : w.stage? i = some s) :
    ∀ x ∈ s.host.late, s.host.arena.resolve x.userdata = none := by
  rw [(stage?_eq_some.mp hs).2.2]
  intro x hx
  obtain ⟨target, hget⟩ := hw.books.late x hx
  refine Option.not_isSome_iff_eq_none.mp ?_
  rw [Host.isSome_resolve]
  change ((w.books.ledger.bindings.get? x.userdata).map (·.2)).getD false ≠ true
  rw [hget]
  exact Bool.false_ne_true

end World
end MediaHost
