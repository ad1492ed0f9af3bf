import MediaHost.Session.Basic
import MediaHost.Proofs.Ledger

/-!
# Proofs — Coupling

The phase of a session and the engine's own record of its pipeline are two machines that never
look at each other.  `Coupled` is what holds between them all the same: a pipeline plays, or
was asked to, only while its session is playing; and a pipeline that encodes for a session with
media set up has that media loaded and has not ended it.
-/

namespace MediaHost

theorem Phase.isConfigured_of_isActive {ph : Phase} (h : ph.isActive = true) :
    ph.isConfigured = true := by
  cases ph <;> first | rfl | cases h

theorem Phase.eq_of_isActive {ph : Phase} (h : ph.isActive = true) :
    ph = .playing ∨ ph = .paused := by
  cases ph <;> first | exact .inl rfl | exact .inr rfl | cases h

theorem Phase.isDestroyed_of_isConfigured {ph : Phase} (h : ph.isConfigured = true) :
    ph.isDestroyed = false := by
  cases ph <;> first | rfl | cases h

/-- The status of a session and the engine's record of its pipeline fit together. -/
structure Coupled (st : Status) (p : Pipeline) : Prop where
  idle : st.phase ≠ .playing → p.playing = false ∧ p.playRequested = false
  loaded : p.playing = true ∨ p.playRequested = true → p.loaded = true
  encoder : st.direction = some .encoding → st.phase.isConfigured = true →
    p.direction = some .encoding ∧ p.loaded = true ∧ p.endSent = false
  running : st.direction = some .encoding → st.phase = .playing → p.playing = true

/-- What a pipeline's coupling to its session depends on. -/
def Pipeline.gear (p : Pipeline) : Bool × Bool × Bool × Option Direction × Bool :=
  (p.playing, p.playRequested, p.loaded, p.direction, p.endSent)

/-- A pipeline whose media is released, if there is any. -/
def Pipeline.cleared (p : Pipeline) : Pipeline := if p.loaded || p.playing then p.close else p

/-- A pipeline after an operation; the volume is set again with every play. -/
def Pipeline.moved (volume : Double) (p : Pipeline) : Transport → Pipeline
  | .play => { p with volume := volume }.play
  | .pause => p.pause
  | .stop => p.stop
  | .close => p.close

namespace Coupled
variable {st : Status} {p : Pipeline}

/-- Whatever else is changed about the pipeline does not matter. -/
theorem of_gear {q : Pipeline} (h : Coupled st p) (hq : q.gear = p.gear) : Coupled st q := by
  simp only [Pipeline.gear, Prod.mk.injEq] at hq
  obtain ⟨h₁, h₂, h₃, h₄, h₅⟩ := hq
  obtain ⟨idle, loaded, encoder, running⟩ := h
  constructor
  · rwa [h₁, h₂]
  · rwa [h₁, h₂, h₃]
  · rwa [h₃, h₄, h₅]
  · rwa [h₁]

/-- A pipeline that does nothing fits any status that is not encoding. -/
theorem of_idle (hd : st.direction ≠ some .encoding) (h₁ : p.playing = false)
    (h₂ : p.playRequested = false) : Coupled st p where
  idle _ := ⟨h₁, h₂⟩
  loaded h := by simp [h₁, h₂] at h
  encoder h _ := absurd h hd
  running h _ := absurd h hd

/-- Releasing the media leaves nothing playing. -/
theorem cleared (h : Coupled st p) :
    p.cleared.playing = false ∧ p.cleared.playRequested = false := by
  simp only [Pipeline.cleared]
  split
  · exact ⟨rfl, rfl⟩
  · next hm =>
      simp only [Bool.or_eq_true, not_or, Bool.not_eq_true] at hm
      refine ⟨hm.2, ?_⟩
      cases hr : p.playRequested with
      | false => rfl
      | true => exact absurd (h.loaded (.inr hr)) (by simp [hm.1])

/-- Media to encode is loaded, and waits. -/
theorem setupEncoding (enc : Encoding) (looping : Bool) :
    Coupled ⟨.configured, some .encoding, looping⟩ (p.setupEncoding enc) where
  idle _ := ⟨rfl, rfl⟩
  loaded h := by simp [Pipeline.setupEncoding] at h
  encoder _ _ := ⟨rfl, rfl, rfl⟩
  running _ h := by cases h

theorem after_eq_target {ph next : Phase} {op : Transport} (h : ph.after op = some next) :
    next = op.target := by
  simp only [Phase.after] at h
  split at h
  · exact (Option.some.inj h).symm
  · cases h

/-- Operations apply only to phases in which media is set up. -/
theorem isConfigured_of_after {ph next : Phase} {op : Transport} (h : ph.after op = some next) :
    ph.isConfigured = true := by
  cases ph <;> cases op <;> first | rfl | cases h

/-- An operation that a phase allows moves both machines together. -/
theorem moved (h : Coupled st p) {op : Transport} {next : Phase}
    (ha : st.phase.after op = some next) (volume : Double) :
    Coupled { st with phase := next } (p.moved volume op) := by
  obtain rfl := after_eq_target ha
  have hc := isConfigured_of_after ha
  cases op with
  | play =>
      constructor
      · exact fun hn => absurd rfl hn
      · intro hr
        simp only [Pipeline.moved, Pipeline.play] at hr ⊢
        split at hr
        · exact hr.elim id id
        · exact hr.elim (fun hp => h.loaded (.inl hp)) id
      · exact fun hd _ => h.encoder hd hc
      · -- an encoder needs no frame to start
        intro hd _
        obtain ⟨hdir, hl, -⟩ := h.encoder hd hc
        simp [Pipeline.moved, Pipeline.play, hdir, hl]
  | pause =>
      constructor
      · exact fun _ => ⟨rfl, rfl⟩
      · intro hr
        simp [Pipeline.moved, Pipeline.pause] at hr
      · exact fun hd _ => h.encoder hd hc
      · exact fun _ hp => by cases hp
  | stop =>
      constructor
      · exact fun _ => ⟨rfl, rfl⟩
      · intro hr
        simp [Pipeline.moved, Pipeline.stop] at hr
      · exact fun hd _ => ⟨(h.encoder hd hc).1, (h.encoder hd hc).2.1, rfl⟩
      · exact fun _ hp => by cases hp
  | close =>
      constructor
      · exact fun _ => ⟨rfl, rfl⟩
      · intro hr
        simp [Pipeline.moved, Pipeline.close] at hr
      · exact fun _ hp => by cases hp
      · exact fun _ hp => by cases hp

/-- An error stops both machines. -/
theorem stopFailed (h : Coupled st p) (hc : st.phase.isConfigured = true) :
    Coupled { st with phase := .stopped } p.stop where
  idle _ := ⟨rfl, rfl⟩
  loaded hr := by simp [Pipeline.stop] at hr
  encoder hd _ := ⟨(h.encoder hd hc).1, (h.encoder hd hc).2.1, rfl⟩
  running _ hp := by cases hp

theorem setPosition (h : Coupled st p) (seconds : Double) : Coupled st (p.setPosition seconds) where
  idle := h.idle
  loaded := h.loaded
  encoder hd hc := ⟨(h.encoder hd hc).1, (h.encoder hd hc).2.1, rfl⟩
  running := h.running

theorem setLooping (h : Coupled st p) (looping : Bool) : Coupled { st with looping := looping } p :=
  ⟨h.idle, h.loaded, h.encoder, h.running⟩

/-- What a grab does to a pipeline, as far as its coupling goes: media that was asked to play
plays. -/
theorem gear_grab (p : Pipeline) (auto : Option AutoFrames) :
    (p.grab auto).1.playing = p.begin.playing ∧
      (p.grab auto).1.playRequested = p.playRequested ∧ (p.grab auto).1.loaded = p.loaded := by
  obtain ⟨_, _, _, _, _, _, hq⟩ := p.looked_grab auto
  rw [hq]
  exact ⟨rfl, rfl, rfl⟩

/-- A frame is grabbed only of media being decoded. -/
theorem grab (h : Coupled st p) (hd : st.direction = some .decoding) (auto : Option AutoFrames) :
    Coupled st (p.grab auto).1 := by
  obtain ⟨h₁, h₂, h₃⟩ := gear_grab p auto
  have hne : st.direction ≠ some .encoding := by simp [hd]
  constructor
  · intro hp
    rw [h₁, h₂]
    obtain ⟨hi, hr⟩ := h.idle hp
    exact ⟨by simp [Pipeline.begin, hi, hr], hr⟩
  · rw [h₁, h₂, h₃]
    rintro (hp | hr)
    · simp only [Pipeline.begin, Bool.or_eq_true, Bool.and_eq_true] at hp
      exact hp.elim (fun hp => h.loaded (.inl hp)) (·.2)
    · exact h.loaded (.inr hr)
  · exact fun hd' => absurd hd' hne
  · exact fun hd' => absurd hd' hne

end Coupled
end MediaHost
