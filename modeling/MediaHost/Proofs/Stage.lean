import MediaHost.Session.Teardown
import MediaHost.Proofs.Coupling

/-!
# Proofs — Stage

What each operation of a session does to the session's own pipeline (`Works`), and that it
changes nothing else that the session or its host holds: every operation but bringing a session
up and destroying it keeps the wiring of the session, the ledger of the host, all other
pipelines, and the coupling of the session to its pipeline (`Keeps`).
-/

namespace MediaHost

/-- What ties a session to its host. -/
structure Wiring where
  pipeline : Option Handle
  token : Option Nat
  lease : Option Lease
  destroyed : Bool

/-- What connects a session with its pipeline. -/
def Session.wiring (s : Session) : Wiring where
  pipeline := s.pipeline
  token := s.token
  lease := s.lease
  destroyed := s.phase.isDestroyed

namespace Stage
variable {s : Stage} {h : Handle}

/-- From `s` to `s'` no pipeline changed, and the session held on to what it has. -/
structure Same (s s' : Stage) : Prop where
  index : s'.index = s.index
  wiring : s'.session.wiring = s.session.wiring
  host : Host.Same s.host s'.host

/-- From `s` to `s'` the session worked on its pipeline `h` by `f`. -/
structure Works (h : Handle) (f : Pipeline → Pipeline) (s s' : Stage) : Prop where
  index : s'.index = s.index
  wiring : s'.session.wiring = s.session.wiring
  host : Host.Alters h.id f s.host s'.host

/-- The session is coupled to its pipeline. -/
def Coupled (s : Stage) : Prop :=
  ∀ h p, s.session.pipeline = some h → s.host.engine.pipelines.get? h.id = some p →
    MediaHost.Coupled s.session.status p

/-- From `s` to `s'` the session held on to what it has, took nothing else, and stayed coupled
to its pipeline. -/
structure Keeps (s s' : Stage) : Prop where
  index : s'.index = s.index
  wiring : s'.session.wiring = s.session.wiring
  ledger : s'.host.ledger = s.host.ledger
  others : ∀ k, (∀ h, s.session.pipeline = some h → h.id ≠ k) →
    s'.host.engine.pipelines.get? k = s.host.engine.pipelines.get? k
  coupled : s.Coupled → s'.Coupled

theorem Keeps.refl (s : Stage) : Keeps s s := ⟨rfl, rfl, rfl, fun _ _ => rfl, id⟩

theorem pipeline_of_wiring {a b : Session} (h : a.wiring = b.wiring) : a.pipeline = b.pipeline :=
  congrArg Wiring.pipeline h

theorem Keeps.trans {a b c : Stage} (h₁ : Keeps a b) (h₂ : Keeps b c) : Keeps a c where
  index := h₂.index.trans h₁.index
  wiring := h₂.wiring.trans h₁.wiring
  ledger := h₂.ledger.trans h₁.ledger
  others k hk := (h₂.others k (by rwa [pipeline_of_wiring h₁.wiring])).trans (h₁.others k hk)
  coupled hc := h₂.coupled (h₁.coupled hc)

/-- Work on the session's pipeline that keeps the two coupled. -/
theorem Works.keeps {s' : Stage} {f : Pipeline → Pipeline} (hw : Works h f s s')
    (hp : s.session.pipeline = some h)
    (hc : ∀ p, MediaHost.Coupled s.session.status p →
      MediaHost.Coupled s'.session.status (f p)) : Keeps s s' where
  index := hw.index
  wiring := hw.wiring
  ledger := hw.host.ledger
  others k hk := hw.host.other (hk h hp)
  coupled hs := by
    intro h' p' hp' hget
    rw [pipeline_of_wiring hw.wiring, hp] at hp'
    cases hp'
    rw [hw.host.pipeline, if_pos rfl] at hget
    obtain ⟨p, hp₀, rfl⟩ := Option.map_eq_some_iff.mp hget
    exact hc p (hs h p hp hp₀)

/-- Changes that the session's pipeline takes no part in. -/
theorem Same.keeps {s' : Stage} (hs : Same s s')
    (hc : ∀ p, MediaHost.Coupled s.session.status p → MediaHost.Coupled s'.session.status p) :
    Keeps s s' where
  index := hs.index
  wiring := hs.wiring
  ledger := hs.host.ledger
  others k _ := by rw [hs.host.pipelines]
  coupled hcs := by
    intro h p hp hget
    rw [pipeline_of_wiring hs.wiring] at hp
    rw [hs.host.pipelines] at hget
    exact hc p (hcs h p hp hget)

theorem Same.refl (s : Stage) : Same s s := ⟨rfl, rfl, .refl _⟩

/-- Work on one pipeline adds up. -/
theorem Works.trans {f g : Pipeline → Pipeline} {a b c : Stage} (h₁ : Works h f a b)
    (h₂ : Works h g b c) : Works h (g ∘ f) a c :=
  ⟨h₂.index.trans h₁.index, h₂.wiring.trans h₁.wiring, h₁.host.trans h₂.host⟩

theorem Works.thenSame {f : Pipeline → Pipeline} {a b c : Stage} (h₁ : Works h f a b)
    (h₂ : Same b c) : Works h f a c :=
  ⟨h₂.index.trans h₁.index, h₂.wiring.trans h₁.wiring, h₁.host.thenSame h₂.host⟩

theorem Same.thenWorks {f : Pipeline → Pipeline} {a b c : Stage} (h₁ : Same a b)
    (h₂ : Works h f b c) : Works h f a c :=
  ⟨h₂.index.trans h₁.index, h₂.wiring.trans h₁.wiring, h₁.host.thenAlters h₂.host⟩

/-- A change of the session that leaves its wiring. -/
theorem same_modify {f : Session → Session} (hf : (f s.session).wiring = s.session.wiring) :
    Same s (s.modify f) := ⟨rfl, hf, .refl _⟩

theorem same_onHost {f : Host → Host} (hf : Host.Same s.host (f s.host)) :
    Same s (s.onHost f) := ⟨rfl, rfl, hf⟩

/-- Work of the host on the session's pipeline. -/
theorem works_onHost {f : Host → Host} {g : Pipeline → Pipeline}
    (hf : Host.Alters h.id g s.host (f s.host)) : Works h g s (s.onHost f) := ⟨rfl, rfl, hf⟩

/-- A session is live if it was brought up and not destroyed. -/
theorem live_eq_ok {x : Session} :
    x.live = .ok h ↔ x.phase.isDestroyed = false ∧ x.pipeline = some h := by
  simp only [Session.live]
  split
  · next hd => simp [hd]
  · next hd => cases x.pipeline <;> simp [hd]

/-- What the body of an operation on the live pipeline leaves alone. -/
theorem reading_withLive {α β : Type} {v : Stage → β} {f : Handle → Stage → Stage × α}
    (hf : ∀ h, s.session.live = .ok h → v (f h s).1 = v s) : v (s.withLive f).1 = v s := by
  simp only [withLive]
  split
  · rfl
  · next h hl => exact hf h hl

theorem reading_orFalse {β : Type} {v : Stage → β} {x : Stage × Except Error Bool}
    (hx : v x.1 = v s) : v (orFalse x).1 = v s := by
  rcases x with ⟨s', _ | _⟩ <;> exact hx

/-- An operation on the live pipeline keeps what its body keeps. -/
theorem Keeps.withLive {α : Type} {f : Handle → Stage → Stage × α}
    (hf : ∀ h, s.session.live = .ok h → Keeps s (f h s).1) : Keeps s (s.withLive f).1 := by
  simp only [Stage.withLive]
  split
  · exact .refl s
  · next h hl => exact hf h hl

/-- Without a pipeline a session is kept anyway. -/
theorem Keeps.changeLive {f : Handle → Stage → Stage}
    (hf : ∀ h, s.session.live = .ok h → Keeps s (f h s)) : Keeps s (s.changeLive f).1 :=
  Keeps.withLive fun h hl => hf h hl

/-! ### New media -/

/-- Asking for media costs requests, and answers by the engine's own view. -/
theorem hasMedia_spec (h : Handle) (s : Stage) :
    (hasMedia h s).1.index = s.index ∧ (hasMedia h s).1.session = s.session ∧
      Host.Same s.host (hasMedia h s).1.host ∧
      (hasMedia h s).2 =
        ((s.host.engine.pipelines.get? h.id).map fun p => p.loaded || p.playing).getD false := by
  have hask : ∀ (a : Host) (c : Call) (f : Pipeline → Bool),
      (Request.call h.id c).isMilestone = false →
        Host.Same a (a.setEngine (a.engine.ask h.id c f).1) :=
    fun a c f hc => Host.same_setEngine (Engine.inventory_asked hc) rfl
  have h₁ := hask s.host .isLoaded (·.loaded) rfl
  by_cases hl : ((s.host.engine.pipelines.get? h.id).map (·.loaded)).getD false = true
  · simp only [hasMedia, Engine.isLoaded, Engine.ask, hl, if_true]
    refine ⟨rfl, rfl, h₁, ?_⟩
    cases hp : s.host.engine.pipelines.get? h.id <;> simp_all
  · simp only [hasMedia, Engine.isLoaded, Engine.ask, hl]
    refine ⟨rfl, rfl, h₁.trans (hask _ .isPlaying (·.playing) rfl), ?_⟩
    change ((s.host.engine.pipelines.get? h.id).map (·.playing)).getD false = _
    cases hp : s.host.engine.pipelines.get? h.id <;> simp_all

theorem session_closeMedia (h : Handle) (s : Stage) : (closeMedia h s).session = s.session := by
  have hs := (hasMedia_spec h s).2.1
  simp only [closeMedia]
  split <;> exact hs

/-- Media that the engine has is cleared; where it has none, nothing is to be cleared. -/
theorem works_closeMedia (h : Handle) (s : Stage) : Works h (·.cleared) s (closeMedia h s) := by
  obtain ⟨hi, hs, hh, hm⟩ := hasMedia_spec h s
  refine ⟨?_, by rw [session_closeMedia], ?_⟩
  · simp only [closeMedia]
    split <;> exact hi
  · have hcleared : ∀ p, s.host.engine.pipelines.get? h.id = some p →
        p.cleared = if (hasMedia h s).2 = true then p.close else p := by
      intro p hp
      rw [hm, hp]
      rfl
    simp only [closeMedia]
    by_cases hf : (hasMedia h s).2 = true
    · have ha := hh.thenAlters (Host.alters_tell (g := (·.close h.id)) Engine.alters_close)
      rw [if_pos hf]
      exact ha.congr fun p hp => ((hcleared p hp).trans (if_pos hf)).symm
    · rw [if_neg hf]
      exact hh.alters.congr fun p hp => ((hcleared p hp).trans (if_neg hf)).symm

/-- Starting the stream over takes nothing and tells the engine nothing. -/
theorem same_resetStream (s : Stage) : Same s s.resetStream := by
  simp only [resetStream]
  cases ht : s.session.token with
  | none => exact same_modify rfl
  | some t =>
      refine ⟨rfl, rfl, ?_⟩
      simp only [onHost, modify]
      split
      · exact Host.same_modifyArena fun _ => rfl
      · exact .refl _

theorem status_resetStream (s : Stage) : s.resetStream.session.status = s.session.status := by
  simp only [resetStream]
  cases s.session.token <;> rfl

/-- A setup of media to decode, once the old media is released. -/
def decode (h : Handle) (d : Decoding) (s : Stage) : Stage :=
  let s := s.modify fun x =>
    { x with status := ⟨.configured, some .decoding, x.config.playback.looping⟩ }
  let s := if isUsable d.uri then s.onHost (·.request (·.setupDecoding h.id d)) else s
  (s.modify fun x => { x with encoding := none }).resetStream

/-- A text that the engine would not take is reported. -/
def report (d : Decoding) (s : Stage) : Stage :=
  match isUsable d.uri, s.session.token with
  | false, some token => s.onHost (·.signal ⟨token, .failed ("Invalid URI " ++ quoted d.uri)⟩)
  | _, _ => s

/-- A setup to decode: release, decode, report. -/
theorem setupWith_eq (s : Stage) (d : Decoding) :
    s.setupWith d = s.changeLive fun h s => report d (decode h d (closeMedia h s)) := rfl

/-- A setup of media that the engine takes, once the old media is released. -/
def accept (h : Handle) (d : Decoding) (s : Stage) : Stage :=
  let s := s.modify fun x =>
    { x with status := ⟨.configured, some .decoding, x.config.playback.looping⟩ }
  let s := s.onHost (·.request (·.setupDecoding h.id d))
  (s.modify fun x => { x with encoding := none }).resetStream

theorem setupWith_of_usable (s : Stage) {d : Decoding} (hd : isUsable d.uri = true) :
    s.setupWith d = s.changeLive fun h s => accept h d (closeMedia h s) := by
  rw [setupWith_eq]
  refine congrArg s.changeLive (funext fun h => funext fun x => ?_)
  simp only [report, decode, hd, if_true]
  rfl

/-- The pipeline after a setup of media to decode. -/
def decoded (d : Decoding) (p : Pipeline) : Pipeline :=
  if isUsable d.uri then p.setupDecoding d else p

/-- A session whose phase is not `destroyed` may change its phase for another such. -/
theorem wiring_status {x : Session} {st : Status} (h₁ : x.phase.isDestroyed = false)
    (h₂ : st.phase.isDestroyed = false) : { x with status := st }.wiring = x.wiring := by
  have h₂' : Session.phase { x with status := st } = st.phase := rfl
  simp only [Session.wiring, h₂', h₁, h₂]

/-- A live session stays live. -/
theorem same_setPhase {p : Phase} (h₁ : s.session.phase.isDestroyed = false)
    (h₂ : p.isDestroyed = false) : Same s (s.setPhase p) := by
  have hw : { s.session with status := { s.session.status with phase := p } }.wiring =
      s.session.wiring := wiring_status h₁ h₂
  exact ⟨rfl, hw, .refl _⟩

/-- The engine decodes, unless the session refuses the text itself. -/
theorem works_decode (hd : s.session.phase.isDestroyed = false) (h : Handle) (d : Decoding) :
    Works h (decoded d) s (decode h d s) := by
  have hs : Same s (s.modify fun x =>
      { x with status := ⟨.configured, some .decoding, x.config.playback.looping⟩ }) :=
    same_modify (wiring_status hd rfl)
  unfold decode decoded
  split
  · have hw : Works h (·.setupDecoding d) (s.modify fun x =>
        { x with status := ⟨.configured, some .decoding, x.config.playback.looping⟩ }) _ :=
      works_onHost (f := (·.request (·.setupDecoding h.id d)))
        (Host.alters_request (Engine.alters_setupDecoding d))
    exact ((hs.thenWorks hw).thenSame (same_modify rfl)).thenSame (same_resetStream _)
  · have hi : Works h id s s := ⟨rfl, rfl, (Host.Same.refl _).alters⟩
    exact ((hi.thenSame hs).thenSame (same_modify rfl)).thenSame (same_resetStream _)

theorem status_decode (h : Handle) (d : Decoding) (s : Stage) :
    (decode h d s).session.status =
      ⟨.configured, some .decoding, s.session.config.playback.looping⟩ := by
  simp only [decode]
  rw [status_resetStream]
  split <;> rfl

/-- A refusal is a callback like any. -/
theorem same_report (d : Decoding) (s : Stage) : Same s (report d s) := by
  simp only [report]
  split
  · exact same_onHost (Host.same_signal _)
  · exact .refl s

theorem status_report (d : Decoding) (s : Stage) :
    (report d s).session.status = s.session.status := by
  simp only [report]
  split <;> rfl

/-- New media to decode is waiting, whatever was there before. -/
theorem coupled_decoded {st : Status} {p : Pipeline} (hc : MediaHost.Coupled st p) (d : Decoding)
    (looping : Bool) :
    MediaHost.Coupled ⟨.configured, some .decoding, looping⟩ (decoded d p.cleared) := by
  have hne : (some Direction.decoding) ≠ some .encoding := by simp
  simp only [decoded]
  split
  · exact .of_idle hne rfl rfl
  · exact .of_idle hne hc.cleared.1 hc.cleared.2

/-- What a setup to decode does to the live pipeline. -/
theorem works_setupWith (hl : s.session.live = .ok h) (d : Decoding) :
    Works h (decoded d ∘ (·.cleared)) s (report d (decode h d (closeMedia h s))) := by
  have hcs := session_closeMedia h s
  have hd : (closeMedia h s).session.phase.isDestroyed = false := by
    rw [hcs]
    exact (live_eq_ok.mp hl).1
  exact ((works_closeMedia h s).trans (works_decode hd h d)).thenSame (same_report d _)

/-- A setup to decode keeps the session's wiring, failed or not. -/
theorem keeps_setupWith (s : Stage) (d : Decoding) : Keeps s (s.setupWith d).1 := by
  rw [setupWith_eq]
  refine Keeps.changeLive fun h hl => ?_
  -- the text may be one that the engine never sees; the old media is released all the same
  refine (works_setupWith hl d).keeps (live_eq_ok.mp hl).2 fun p hc => ?_
  rw [status_report, status_decode]
  exact coupled_decoded hc d _

/-- A setup of a file to encode into. -/
def encode (h : Handle) (enc : Encoding) (s : Stage) : Stage :=
  (((closeMedia h s).onHost (·.tell (·.setupEncoding h.id enc))).modify fun x =>
    { x with status := ⟨.configured, some .encoding, false⟩, encoding := some enc }).resetStream

/-- A size that is not empty is set up. -/
theorem setupEncoding_eq (s : Stage) {enc : Encoding} (he : enc.size.isEmpty = false) :
    s.setupEncoding enc = s.changeLive fun h s => encode h enc s := by
  simp only [setupEncoding, he]
  rfl

/-- What a setup to encode does to the live pipeline. -/
theorem works_encode (hl : s.session.live = .ok h) (enc : Encoding) :
    Works h ((·.setupEncoding enc) ∘ (·.cleared)) s (encode h enc s) := by
  have hcs := session_closeMedia h s
  have he : Works h (·.setupEncoding enc) (closeMedia h s)
      ((closeMedia h s).onHost (·.tell (·.setupEncoding h.id enc))) :=
    works_onHost (Host.alters_tell (Engine.alters_setupEncoding enc))
  have hm := same_modify (s := (closeMedia h s).onHost (·.tell (·.setupEncoding h.id enc)))
    (f := fun x => { x with status := ⟨.configured, some .encoding, false⟩, encoding := some enc })
    (wiring_status (by
      change (closeMedia h s).session.phase.isDestroyed = false
      rw [hcs]
      exact (live_eq_ok.mp hl).1) rfl)
  exact (((works_closeMedia h s).trans he).thenSame hm).thenSame (same_resetStream _)

/-- A setup to encode keeps the wiring as well. -/
theorem keeps_setupEncoding (s : Stage) (enc : Encoding) : Keeps s (s.setupEncoding enc).1 := by
  by_cases he : enc.size.isEmpty = true
  · simp only [setupEncoding, he, if_true]
    exact .refl s
  rw [setupEncoding_eq s (Bool.eq_false_iff.mpr he)]
  refine Keeps.changeLive fun h hl => ?_
  refine (works_encode hl enc).keeps (live_eq_ok.mp hl).2 fun p _ => ?_
  simp only [encode]
  rw [status_resetStream]
  exact .setupEncoding enc false

end Stage
end MediaHost
