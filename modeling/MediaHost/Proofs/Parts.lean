import Mathlib.Data.List.Chain
import MediaHost.Proofs.Reel

/-!
# Proofs — Parts

Three commands make several changes one after another: a close of active media, a start, and a
picture of another size than the encoder has.  Each is put together from other commands
(`Command.parts`, `Stage.exec_parts`), of which every one moves the phase as it may
(`Stage.edges_parts`); and so every command keeps the session and the engine of one mind about
the media (`Stage.shows_exec`).
-/

namespace MediaHost

/-- The commands that a command carries out one after another, as long as they succeed. -/
def Command.parts (c : Command) (s : Stage) : List Command :=
  match c with
  | .close => if s.session.phase.isActive then [.stop, .close] else [.close]
  | .start =>
      let playback := s.session.config.playback
      if playback.uri.isEmpty then [.bringUp]
      else [.bringUp, .setup playback.uri playback.videoIndex playback.audioIndex, .play]
  | .consumeSized size data =>
      match size.check data.size with
      | .error _ => []
      | .ok () =>
        match s.session.encoding with
        | none => [.consume data]
        | some enc =>
          if enc.size = size then [.consume data]
          else [.setupEncoding { enc with size := size }, .play, .consume data]
  | c => [c]

theorem Command.parts_of_isSingle {c : Command} {s : Stage} (h : c.isSingle s = true) :
    c.parts s = [c] := by
  cases c with
  | close => exact if_neg (by simpa [isSingle] using h)
  | start | consumeSized => cases h
  | _ => rfl

namespace Stage
variable {s s' : Stage} {h : Handle} {c : Command} {cs : List Command} {e : Error}

/-- The stages that commands lead through one after another, as long as they succeed. -/
def through : List Command → Stage → List Stage
  | [], _ => []
  | c :: cs, s =>
    (c.exec s).1 ::
      match (c.exec s).2 with
      | .ok () => through cs (c.exec s).1
      | .error _ => []

theorem through_error (he : c.exec s = (s', .error e)) : through (c :: cs) s = [s'] := by
  simp only [through, he]

theorem through_ok (hok : c.exec s = (s', .ok ())) :
    through (c :: cs) s = s' :: through cs s' := by
  simp only [through, hok]

theorem through_one (c : Command) (s : Stage) : through [c] s = [(c.exec s).1] := by
  simp only [through]
  split <;> rfl

/-! ### Closing active media -/

theorem after_stop_of_isActive {ph : Phase} (h : ph.isActive = true) :
    ph.after .stop = some .stopped := by
  rcases Phase.eq_of_isActive h with rfl | rfl <;> rfl

/-- Active media of a live session is stopped, and then closed. -/
theorem close_of_active (hl : s.session.live = .ok h) (ha : s.session.phase.isActive = true) :
    ∃ s₁, s.stop = (s₁, .ok ()) ∧ s₁.session.phase = .stopped ∧ s₁.session.live = .ok h ∧
      s.close = s₁.close := by
  have hafter := after_stop_of_isActive ha
  refine ⟨s.stop.1, ?_, ?_, ?_, ?_⟩
  · simp only [stop, done, transport, withLive_of_live hl, hafter]
    rfl
  · simp only [stop, done, transport, withLive_of_live hl, hafter]
    rfl
  · exact (Session.live_of_wiring (keeps_transport s .stop).wiring).trans hl
  · simp only [stop, done, close, ha, transport, withLive_of_live hl, hafter, if_true]
    rfl

/-- Active media that cannot be stopped is not closed either. -/
theorem close_of_error (he : s.session.live = .error e) : s.close = (s, .error e) := by
  have hop : ∀ op, s.transport op = (s, .error e) := fun op => by
    simp only [transport, withLive, he]
  simp only [close, hop, done]
  split <;> rfl

/-! ### Starting -/

theorem config_bringUp (s : Stage) : s.bringUp.1.session.config = s.session.config := by
  simp only [bringUp]
  split
  · rfl
  split
  · rfl
  split
  · rfl
  split <;> rfl

/-- What a start comes to is what its parts come to. -/
theorem start_parts (s : Stage) :
    s.start.1 = ((through (Command.start.parts s) s).getLast?).getD s := by
  have hconfig := config_bringUp s
  rcases hb : s.bringUp with ⟨s₁, e | u⟩
  · have hstart : s.start.1 = s₁ := by simp only [start, hb]
    have hbring : ∀ cs, through (.bringUp :: cs) s = [s₁] := fun cs => through_error hb
    simp only [Command.parts]
    split <;> rw [hbring, hstart] <;> rfl
  rw [hb] at hconfig
  have hbring : ∀ cs, through (.bringUp :: cs) s = s₁ :: through cs s₁ := fun cs => through_ok hb
  simp only [Command.parts, start, hb, ← hconfig]
  split
  · rw [hbring]
    rfl
  · generalize hset : s₁.setup s₁.session.config.playback.uri
      s₁.session.config.playback.videoIndex s₁.session.config.playback.audioIndex = x
    have hexec : (Command.setup s₁.session.config.playback.uri
        s₁.session.config.playback.videoIndex s₁.session.config.playback.audioIndex).exec s₁ = x :=
      hset
    rcases x with ⟨s₂, e | u⟩
    · rw [hbring, through_error hexec]
      rfl
    · rw [hbring, through_ok hexec, through_one]
      rfl

/-! ### Pictures of a given size -/

/-- A picture of another size than the encoder has: the encoder is set up anew and plays before
it takes the picture. -/
theorem consumeSized_renewed (hl : s.session.live = .ok h) {enc : Encoding} {size : Size}
    {data : Array UInt8} (henc : s.session.encoding = some enc) (hne : enc.size ≠ size)
    (hempty : size.isEmpty = false) (hsize : size.check data.size = .ok ()) :
    ∃ s₂ s₃, (encode h { enc with size := size } s).play = (s₂, .ok ()) ∧
      s₂.consume data = (s₃, .ok ()) ∧ s.consumeSized size data = (s₃, .ok ()) := by
  have hset : s.setupEncoding { enc with size := size } =
      (encode h { enc with size := size } s, .ok ()) := setupEncoding_of_live hl hempty
  obtain ⟨s₂, s₃, hplay, hconsume⟩ := consume_of_setupEncoding hset hsize
  refine ⟨s₂, s₃, hplay, hconsume, ?_⟩
  simp only [consumeSized, hsize, henc, if_false, hne, hset, hplay, hconsume]

/-- A picture of a given size fails and changes nothing, or is handed over like any other, or has
another size than the encoder. -/
theorem consumeSized_cases (s : Stage) (size : Size) (data : Array UInt8) :
    (∃ e, s.consumeSized size data = (s, .error e)) ∨
    (size.check data.size = .ok () ∧ s.session.encoding.any (·.size ≠ size) = false ∧
      s.consumeSized size data = s.consume data) ∨
    ∃ h enc, s.session.live = .ok h ∧ s.session.encoding = some enc ∧ enc.size ≠ size ∧
      size.isEmpty = false ∧ size.check data.size = .ok () := by
  cases hsize : size.check data.size with
  | error e => exact .inl ⟨e, by simp only [consumeSized, hsize]⟩
  | ok u =>
      cases henc : s.session.encoding with
      | none => exact .inr (.inl ⟨rfl, rfl, by simp only [consumeSized, hsize, henc]⟩)
      | some enc =>
          by_cases hsame : enc.size = size
          · refine .inr (.inl ⟨rfl, by simp [hsame], ?_⟩)
            simp only [consumeSized, hsize, henc, hsame, if_true]
          rcases setupEncoding_cases s { enc with size := size } with
            ⟨e, -, he⟩ | ⟨h, hl, hempty, -⟩
          · refine .inl ⟨e, ?_⟩
            simp only [consumeSized, hsize, henc, if_false, hsame, he]
          · exact .inr (.inr ⟨h, enc, hl, rfl, hsame, hempty, rfl⟩)

theorem consumeSized_parts (s : Stage) (size : Size) (data : Array UInt8) :
    (s.consumeSized size data).1 =
      ((through ((Command.consumeSized size data).parts s) s).getLast?).getD s := by
  cases hsize : size.check data.size with
  | error e =>
      simp only [consumeSized, Command.parts, hsize]
      rfl
  | ok u =>
      cases henc : s.session.encoding with
      | none =>
          simp only [Command.parts, consumeSized, hsize, henc, through_one]
          rfl
      | some enc =>
          by_cases hsame : enc.size = size
          · simp only [Command.parts, consumeSized, hsize, henc, hsame, if_true, through_one]
            rfl
          simp only [Command.parts, consumeSized, hsize, henc, if_false, hsame]
          generalize hset : s.setupEncoding { enc with size := size } = x
          have hexec : (Command.setupEncoding { enc with size := size }).exec s = x := hset
          rcases x with ⟨s₁, e | u⟩
          · rw [through_error hexec]
            rfl
          rw [through_ok hexec]
          generalize hplay : s₁.play = y
          have hexec : Command.play.exec s₁ = y := hplay
          rcases y with ⟨s₂, e | u⟩
          · simp only [hplay, through_error hexec]
            rfl
          · simp only [hplay, through_ok hexec, through_one]
            rfl

/-- What a command comes to is what its parts come to. -/
theorem exec_parts (s : Stage) (c : Command) :
    (c.exec s).1 = ((through (c.parts s) s).getLast?).getD s := by
  by_cases hc : c.isSingle s = true
  · rw [Command.parts_of_isSingle hc, through_one]
    rfl
  cases c with
  | start => exact start_parts s
  | consumeSized size data => exact consumeSized_parts s size data
  | close =>
      have ha : s.session.phase.isActive = true := by simpa [Command.isSingle] using hc
      have hparts : Command.close.parts s = [.stop, .close] := if_pos ha
      rw [hparts]
      change s.close.1 = _
      cases hl : s.session.live with
      | error e =>
          have hstop : Command.stop.exec s = (s, .error e) := by
            simp only [Command.exec, stop, transport, withLive, hl]
            rfl
          rw [close_of_error hl, through_error hstop]
          rfl
      | ok h =>
          obtain ⟨s₁, hstop, -, -, hclose⟩ := close_of_active hl ha
          have hstop : Command.stop.exec s = (s₁, .ok ()) := hstop
          rw [hclose, through_ok hstop, through_one]
          rfl
  | _ => exact absurd rfl hc

/-! ### Moves of the phase -/

theorem edges_error (hedge : s.session.phase.Edge s'.session.phase)
    (he : c.exec s = (s', .error e)) :
    (s :: through (c :: cs) s).IsChain fun a b => a.session.phase.Edge b.session.phase := by
  rw [through_error he]
  exact .cons_cons hedge (.singleton _)

/-- The phase moves as it may with a command, and on from there if the command succeeds. -/
theorem edges_cons (hedge : s.session.phase.Edge (c.exec s).1.session.phase)
    (hrest : (c.exec s).2 = .ok () → ((c.exec s).1 :: through cs (c.exec s).1).IsChain
      fun a b => a.session.phase.Edge b.session.phase) :
    (s :: through (c :: cs) s).IsChain fun a b => a.session.phase.Edge b.session.phase := by
  rcases hc : c.exec s with ⟨s', e | u⟩
  · rw [hc] at hedge
    exact edges_error hedge hc
  · rw [hc] at hedge hrest
    rw [through_ok hc]
    exact .cons_cons hedge (hrest rfl)

theorem edges_one (hedge : s.session.phase.Edge (c.exec s).1.session.phase) :
    (s :: through [c] s).IsChain fun a b => a.session.phase.Edge b.session.phase :=
  edges_cons hedge fun _ => .singleton _

/-- With every part of a command the phase moves as it may. -/
theorem edges_parts (ha : Books.Attached s.host.ledger s.index s.session.wiring) (hc : s.Coupled)
    (hd : s.reel.isUp = false → s.reel.phase = .unloaded ∨ s.reel.phase = .destroyed)
    (c : Command) : (s :: through (c.parts s) s).IsChain
      fun a b => a.session.phase.Edge b.session.phase := by
  by_cases hsingle : c.isSingle s = true
  · rw [Command.parts_of_isSingle hsingle]
    exact edges_one (step_exec ha hc hd hsingle).edge
  cases c with
  | start =>
      have hup := (step_bringUp ha hd).edge
      simp only [Command.parts]
      split
      · exact edges_one hup
      · refine edges_cons hup fun _ => edges_cons (step_setupWith _ _).edge fun _ => ?_
        exact edges_one (step_play _).edge
  | consumeSized size data =>
      simp only [Command.parts]
      split
      · exact .singleton _
      · split
        · exact edges_one (step_consume s data).edge
        · split
          · exact edges_one (step_consume s data).edge
          · refine edges_cons (step_setupEncoding s _).edge fun _ => ?_
            exact edges_cons (step_play _).edge fun _ => edges_one (step_consume _ data).edge
  | close =>
      have hact : s.session.phase.isActive = true := by simpa [Command.isSingle] using hsingle
      have hparts : Command.close.parts s = [.stop, .close] := if_pos hact
      rw [hparts]
      refine edges_cons (step_transport s .stop).edge fun hok => edges_one ?_
      -- once it is stopped the media is not active any more
      cases hl : s.session.live with
      | error e =>
          simp only [Command.exec, stop, transport, withLive, hl] at hok
          cases hok
      | ok h =>
          obtain ⟨s₁, hstop, hph, -, -⟩ := close_of_active hl hact
          have hs₁ : (Command.stop.exec s).1 = s₁ := congrArg Prod.fst hstop
          rw [hs₁]
          change s₁.session.phase.Edge s₁.close.1.session.phase
          rw [close_of_idle (by rw [hph]; rfl)]
          exact (step_transport s₁ .close).edge
  | _ => exact absurd rfl hsingle

/-! ### Pictures -/

/-- Every command leaves the session and the engine of one mind about the media. -/
theorem shows_exec {l : List (Array UInt8)}
    (ha : Books.Attached s.host.ledger s.index s.session.wiring) (hc : s.Coupled)
    (hr : s.reel.Shows l) (c : Command) :
    (c.exec s).1.reel.Shows ((c.feeds s).foldl Feed.after l) := by
  by_cases hsingle : c.isSingle s = true
  · exact (step_exec ha hc hr.down hsingle).shows hr
  cases c with
  | start =>
      have hup := (step_bringUp ha hr.down).shows hr
      rw [feeds_of_offers (c := .start) rfl]
      change s.start.1.reel.Shows l
      rcases start_cases s with ⟨-, hs⟩ | ⟨uri, video, audio, -, hs⟩
      · rw [hs]
        exact hup
      · rw [hs]
        exact (step_play _).shows ((step_setupWith _ _).shows hup)
  | consumeSized size data =>
      change (s.consumeSized size data).1.reel.Shows _
      rcases consumeSized_cases s size data with ⟨e, he⟩ | ⟨-, hsame, hs⟩ |
        ⟨h, enc, hl, henc, hne, hempty, hsize⟩
      · rw [feeds_of_error (c := .consumeSized size data) (congrArg Prod.snd he), he]
        exact hr
      · have hfeeds :
            (Command.consumeSized size data).feeds s = (Command.consume data).feeds s := by
          simp only [Command.feeds, Command.exec, hs, Command.offers, hsame]
          rfl
        rw [hfeeds, hs]
        exact (step_consume s data).shows hr
      · obtain ⟨s₂, s₃, hplay, hconsume, hs⟩ := consumeSized_renewed hl henc hne hempty hsize
        have hfeeds : (Command.consumeSized size data).feeds s = [.anew, .picture data] := by
          rw [feeds_of_ok (c := .consumeSized size data) (congrArg Prod.snd hs)]
          simp [Command.offers, henc, hne]
        have hset : Reel.Step s.reel [.anew] (encode h { enc with size := size } s).reel :=
          step_encode hl hempty
        have h₁ := hset.shows hr
        have h₂ := (step_play _).shows h₁
        rw [hplay] at h₂
        have h₃ := (step_consume s₂ data).shows h₂
        rw [feeds_of_ok (c := .consume data) (congrArg Prod.snd hconsume), hconsume] at h₃
        rw [hfeeds, hs]
        exact h₃
  | close =>
      have hact : s.session.phase.isActive = true := by simpa [Command.isSingle] using hsingle
      rw [feeds_of_offers (c := .close) rfl]
      change s.close.1.reel.Shows l
      cases hl : s.session.live with
      | error e =>
          rw [close_of_error hl]
          exact hr
      | ok h =>
          obtain ⟨s₁, hstop, hph, -, hclose⟩ := close_of_active hl hact
          have h₁ := (step_transport s .stop).shows hr
          have hs₁ : (s.transport .stop).1 = s₁ := congrArg Prod.fst hstop
          rw [hs₁] at h₁
          rw [hclose, close_of_idle (by rw [hph]; rfl)]
          exact (step_transport s₁ .close).shows h₁
  | _ => exact absurd rfl hsingle

end Stage
end MediaHost
