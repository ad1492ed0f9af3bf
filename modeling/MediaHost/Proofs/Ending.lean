import MediaHost.Proofs.Books
import MediaHost.Proofs.Coupling

/-!
# Proofs — Ending

How the wait for the end of an encoded stream comes out.  A pipeline that encodes reports the
end of its stream once it is asked to, so the wait has three ends: the binding was told of an
end or an error before, the report arrives, or the timeout comes first.
-/

namespace MediaHost

/-- The stream is over with this event. -/
def Event.ends : Event → Bool
  | .finished | .failed _ => true
  | .quality _ => false

theorem Binding.isOver_mark {Target : Type} (b : Binding Target) (e : Event) :
    (b.mark e).isOver = (b.isOver || e.ends) := by
  cases e <;> simp [mark, markEnd, markError, isOver, Event.ends]

namespace Host
variable {h : Host}

/-- The binding of the number `t` was told of an end or an error. -/
def isOver (h : Host) (t : Nat) : Bool := ((h.arena.resolve t).map (·.isOver)).getD false

theorem isSome_resolve_signalAll (cs : List Callback) (t : Nat) :
    ((h.signalAll cs).arena.resolve t).isSome = (h.arena.resolve t).isSome := by
  rw [isSome_resolve, isSome_resolve, (same_signalAll cs).ledger]

theorem isOver_signal (c : Callback) (t : Nat) :
    (h.signal c).isOver t =
      (h.isOver t || ((h.arena.resolve t).isSome && decide (c.userdata = t) && c.event.ends)) := by
  simp only [isOver]
  rw [resolve_signal]
  by_cases hc : c.userdata = t
  · cases h.arena.resolve t with
    | none => simp [hc]
    | some b => simp [hc, Binding.isOver_mark]
  · simp [hc]

/-- What is over stays so. -/
theorem isOver_signalAll {t : Nat} (ht : h.isOver t = true) (cs : List Callback) :
    (h.signalAll cs).isOver t = true := by
  simp only [signalAll]
  induction cs generalizing h with
  | nil => exact ht
  | cons c cs ih => exact ih (by rw [isOver_signal, ht, Bool.true_or])

/-- The end of a stream that arrives is seen by the binding. -/
theorem isOver_of_mem {t : Nat} {cs : List Callback} (ht : (h.arena.resolve t).isSome = true)
    (hc : ⟨t, .finished⟩ ∈ cs) : (h.signalAll cs).isOver t = true := by
  induction cs generalizing h with
  | nil => cases hc
  | cons c cs ih =>
      change ((h.signal c).signalAll cs).isOver t = true
      rcases List.mem_cons.mp hc with rfl | hm
      · refine isOver_signalAll ?_ cs
        rw [isOver_signal, ht]
        simp [Event.ends]
      · have hs := isSome_resolve_signalAll (h := h) [c] t
        exact ih (hs.trans ht) hm

end Host

/-- The pipeline encodes, and its stream was not ended. -/
structure Pipeline.Encodes (p : Pipeline) (t : Nat) : Prop where
  wire : p.wire = (t, .all)
  loaded : p.loaded = true
  playing : p.playing = true
  endSent : p.endSent = false

/-- Asked to, the engine starts one report of the stream's end. -/
theorem Engine.stopEncoding_of_encodes {e : Engine} {k t : Nat} {p : Pipeline}
    (hp : e.pipelines.get? k = some p) (hs : p.Encodes t) :
    (e.stopEncoding k).1.endDelay = e.endDelay ∧
      (e.stopEncoding k).1.endsAtOnce = e.endsAtOnce ∧
      (e.stopEncoding k).2 = [⟨t, .finished⟩] := by
  have hstop : p.stopEncoding = ({ p with endSent := true }, some .finished) := by
    simp [Pipeline.stopEncoding, hs.loaded, hs.playing, hs.endSent]
  obtain ⟨hu, hc⟩ := Prod.mk.inj hs.wire
  refine ⟨?_, ?_, ?_⟩
  · simp only [stopEncoding, hp]
    rfl
  · simp only [stopEncoding, hp]
    rfl
  · simp only [stopEncoding, hp, hstop, Option.bind_some, Pipeline.callback, hu, hc]
    rfl

namespace Stage
variable {s : Stage} {h : Handle} {t : Nat}

/-- The session's binding `t` is registered, and its pipeline `h` encodes. -/
structure Encodes (h : Handle) (t : Nat) (s : Stage) : Prop where
  token : s.session.token = some t
  binding : (s.host.arena.resolve t).isSome = true
  pipeline : ∃ p, s.host.engine.pipelines.get? h.id = some p ∧ p.Encodes t

/-- The engine is asked to end the stream. -/
def asked (h : Handle) (s : Stage) : Stage := s.onHost (·.stopEncoding h.id)

/-- The timeout comes before the report of the stream's end. -/
def givesUp (s : Stage) : Bool :=
  match s.session.config.teardown.timeout with
  | none => false
  | some limit =>
    firstLook s.session.config.teardown.interval limit.toNat <
      firstLook s.session.config.teardown.interval s.host.engine.endDelay

theorem isOver_eq (ht : s.session.token = some t) : s.isOver = s.host.isOver t := by
  simp [isOver, binding, ht, Host.isOver]

/-- The report arrives at once, or is on its way. -/
theorem host_asked (hs : s.Encodes h t) :
    ∃ e, Engine.Alters h.id (fun p => p.stopEncoding.1) s.host.engine e ∧
      e.endDelay = s.host.engine.endDelay ∧ (s.asked h).host =
        if s.host.engine.endsAtOnce then (s.host.setEngine e).signalAll [⟨t, .finished⟩]
        else { s.host.setEngine e with late := s.host.late ++ [⟨t, .finished⟩] } := by
  obtain ⟨p, hp, hps⟩ := hs.pipeline
  obtain ⟨hd, ha, hc⟩ := Engine.stopEncoding_of_encodes hp hps
  refine ⟨(s.host.engine.stopEncoding h.id).1, Engine.alters_stopEncoding, hd, ?_⟩
  simp only [asked, onHost, Host.stopEncoding, ha, hc]
  rfl

theorem ledger_asked (hs : s.Encodes h t) :
    (s.asked h).host.ledger = s.host.ledger.withLate
      (if s.host.engine.endsAtOnce then s.host.late else s.host.late ++ [⟨t, .finished⟩]) := by
  obtain ⟨e, ha, -, he⟩ := host_asked hs
  have hl := (Host.alters_setEngine ha).ledger
  rw [he]
  split
  · rw [(Host.same_signalAll _).ledger, hl]
    rfl
  · change (s.host.setEngine e).ledger.withLate _ = _
    rw [hl]

theorem pipelines_asked (hs : s.Encodes h t) {k : Nat} (hk : h.id ≠ k) :
    (s.asked h).host.engine.pipelines.get? k = s.host.engine.pipelines.get? k := by
  obtain ⟨e, ha, -, he⟩ := host_asked hs
  have ho := (Host.alters_setEngine ha).other hk
  rw [he]
  split
  · rw [(Host.same_signalAll _).pipelines, ho]
  · exact ho

theorem endDelay_asked (hs : s.Encodes h t) :
    (s.asked h).host.engine.endDelay = s.host.engine.endDelay := by
  obtain ⟨e, -, hd, he⟩ := host_asked hs
  rw [he]
  split
  · rw [Host.engine_signalAll]
    exact hd
  · exact hd

/-- The binding learns of the end only from the report. -/
theorem isOver_asked (hs : s.Encodes h t) :
    (s.asked h).isOver = (s.isOver || s.host.engine.endsAtOnce) := by
  obtain ⟨e, -, -, he⟩ := host_asked hs
  rw [isOver_eq (s := s.asked h) hs.token, isOver_eq hs.token, he]
  cases s.host.engine.endsAtOnce with
  | true =>
      rw [Bool.or_true]
      exact Host.isOver_of_mem hs.binding List.mem_cons_self
  | false =>
      rw [Bool.or_false]
      rfl

/-- Once everything late has arrived, the stream is over. -/
theorem isOver_settled (hs : s.Encodes h t) (hd : s.host.engine.endsAtOnce = false) :
    ((s.asked h).onHost (·.settle)).isOver = true := by
  obtain ⟨e, -, -, he⟩ := host_asked hs
  rw [isOver_eq (s := (s.asked h).onHost (·.settle)) hs.token]
  simp only [onHost, Host.settle, he, hd, Bool.false_eq_true, if_false]
  exact Host.isOver_of_mem hs.binding (by simp)

theorem binding_isSome (hs : s.Encodes h t) : s.binding.isNone = false := by
  have hb := hs.binding
  simp only [binding, hs.token, Option.bind_some]
  cases hr : s.host.arena.resolve t with
  | none => simp [hr] at hb
  | some b => rfl

/-- The wait is over at once if the binding was told of an end or an error before, or if the
report arrives at once. -/
theorem awaitEnd_at_once (hs : s.Encodes h t)
    (ho : (s.isOver || s.host.engine.endsAtOnce) = true) :
    awaitEnd h s = (s.asked h, .ended) := by
  have ha := (isOver_asked hs).trans ho
  simp only [awaitEnd]
  rw [binding_isSome hs]
  change (if (s.asked h).isOver = true then _ else _) = _
  rw [if_pos ha]
  rfl

/-- Otherwise it is over when the report arrives, if the timeout does not come first. -/
theorem awaitEnd_arrives (hs : s.Encodes h t)
    (ho : (s.isOver || s.host.engine.endsAtOnce) = false)
    (hg : s.givesUp = false) :
    awaitEnd h s = ((s.asked h).onHost (·.settle), .ended) := by
  have ha := (isOver_asked hs).trans ho
  have hd := (Bool.or_eq_false_iff.mp ho).2
  have hdelay := endDelay_asked hs
  have harr := isOver_settled hs hd
  simp only [asked] at ha hdelay harr
  simp only [awaitEnd, binding_isSome hs, ha, harr]
  simp only [givesUp] at hg
  cases ht : s.session.config.teardown.timeout with
  | none => rfl
  | some limit =>
      simp only [ht, decide_eq_false_iff_not, Nat.not_lt] at hg
      simp only [Option.map_some, hdelay, if_pos hg]
      rfl

/-- The timeout comes first. -/
theorem awaitEnd_givesUp (hs : s.Encodes h t)
    (ho : (s.isOver || s.host.engine.endsAtOnce) = false) (hg : s.givesUp = true) :
    ∃ limit, awaitEnd h s = (s.asked h).timeOut limit := by
  have ha := (isOver_asked hs).trans ho
  have hd := (Bool.or_eq_false_iff.mp ho).2
  have hdelay := endDelay_asked hs
  have harr := isOver_settled hs hd
  simp only [asked] at ha hdelay harr
  simp only [awaitEnd, binding_isSome hs, ha, harr]
  simp only [givesUp] at hg
  cases ht : s.session.config.teardown.timeout with
  | none => simp [ht] at hg
  | some limit =>
      simp only [ht, decide_eq_true_eq] at hg
      refine ⟨limit.toNat, ?_⟩
      simp only [Option.map_some, hdelay, if_neg (Nat.not_le.mpr hg)]
      rfl

/-! ### The wait, look by look -/

section
variable {interval delay : Nat} (hi : 0 < interval) {limit : Option Nat}
include hi

end

end Stage
end MediaHost
