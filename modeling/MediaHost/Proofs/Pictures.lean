import MediaHost.Proofs.Screen

/-!
# Proofs — Pictures

The pictures that a session is handed.  A call fails and changes nothing, or the engine takes one
picture of the size it was set up for (`Stage.consume_taken`, `Stage.consumeSized_taken`); it has
counted those that it took since then (`World.filmed`, `pictures_in_step`).  A session without
media takes none, unless the picture has another size than the encoder had that the session still
remembers: then the encoder is set up anew, closed or not (`closed_encoder_refuses_iff`).
-/

namespace MediaHost

/-- The engine is handed a picture. -/
def Request.isPicture : Request → Bool
  | .call _ .consumeImage => true
  | _ => false

/-- The picture that a command hands over. -/
def Command.picture? : Command → Option (Array UInt8)
  | .consume data | .consumeSized _ data => some data
  | _ => none

namespace Engine

/-- How many pictures the engine was handed. -/
def pictureCount (e : Engine) : Nat := e.history.countP Request.isPicture

theorem pictureCount_asked {e e' : Engine} {r : Request} (hr : r.isPicture = false)
    (he : e'.history = r :: e.history) : e'.pictureCount = e.pictureCount := by
  rw [pictureCount, he, List.countP_cons_of_neg (by simp [hr])]
  rfl

theorem pictureCount_consume (e : Engine) (k : Nat) (data : Array UInt8) :
    (e.consume k data).pictureCount = e.pictureCount + 1 :=
  List.countP_cons_of_pos rfl

end Engine

theorem Size.ne_zero_of_isEmpty {size : Size} (h : size.isEmpty = false) :
    size.width ≠ 0 ∧ size.height ≠ 0 := by
  simpa [Size.isEmpty] using h

namespace Stage
variable {s s' : Stage} {h : Handle} {size : Size} {data : Array UInt8}

/-! ### What a picture costs -/

theorem pictureCount_closeMedia (h : Handle) (s : Stage) :
    (closeMedia h s).host.engine.pictureCount = s.host.engine.pictureCount := by
  have hmedia : (hasMedia h s).1.host.engine.pictureCount = s.host.engine.pictureCount := by
    have hloaded : (s.host.engine.isLoaded h.id).1.pictureCount = s.host.engine.pictureCount :=
      Engine.pictureCount_asked (r := .call h.id .isLoaded) rfl rfl
    simp only [hasMedia]
    split
    · exact hloaded
    · exact (Engine.pictureCount_asked (r := .call h.id .isPlaying) rfl rfl).trans hloaded
  simp only [closeMedia]
  split
  · exact (Engine.pictureCount_asked (r := .call h.id .close) rfl rfl).trans hmedia
  · exact hmedia

theorem pictureCount_encode (h : Handle) (enc : Encoding) (s : Stage) :
    (encode h enc s).host.engine.pictureCount = s.host.engine.pictureCount := by
  rw [← pictureCount_closeMedia h s, encode, engine_resetStream]
  exact Engine.pictureCount_asked (r := .call h.id .setupEncoding) rfl rfl

theorem pictureCount_play (s : Stage) :
    s.play.1.host.engine.pictureCount = s.host.engine.pictureCount := by
  rw [host_play]
  rcases s.transport_cases .play with ⟨e, -, hs⟩ | ⟨g, -, -, hs⟩ | ⟨g, -, -, hs⟩ <;> rw [hs]
  have hvolume : (g.setVolume s.host.engine s.session.config.playback.volume).pictureCount =
      s.host.engine.pictureCount :=
    Engine.pictureCount_asked (r := .call g.id .setVolume) rfl rfl
  exact (Engine.pictureCount_asked (r := .call g.id .play) rfl rfl).trans hvolume

/-! ### Calls that succeed -/

/-- A picture that is handed over is one more for the engine, and nothing else changes. -/
theorem consume_taken (hok : s.consume data = (s', .ok ())) :
    ∃ h enc, s.session.live = .ok h ∧ s.session.phase.isConfigured = true ∧
      s.session.encoding = some enc ∧ data.size = enc.size.bytes ∧ s'.session = s.session ∧
      s'.host.engine.pictureCount = s.host.engine.pictureCount + 1 := by
  rcases s.consume_cases data with ⟨e, he⟩ | ⟨h, enc, hl, hconf, -, henc, hsize, hs⟩
  · cases he.symm.trans hok
  · obtain rfl := congrArg Prod.fst (hs.symm.trans hok)
    exact ⟨h, enc, hl, hconf, henc, hsize, rfl, Engine.pictureCount_consume _ _ _⟩

/-- An encoder that is set up anew for a picture keeps its file, and plays. -/
theorem consumeSized_taken (hok : s.consumeSized size data = (s', .ok ())) :
    (s.consume data = (s', .ok ()) ∧ data.size = size.bytes ∧
      s.session.encoding.any (·.size ≠ size) = false) ∨
    ∃ h old, s.session.live = .ok h ∧ s.session.encoding = some old ∧ old.size ≠ size ∧
      data.size = size.bytes ∧ s'.session.live = .ok h ∧ s'.session.phase = .playing ∧
      s'.session.encoding = some { old with size := size } ∧
      s'.host.engine.pictureCount = s.host.engine.pictureCount + 1 := by
  rcases s.consumeSized_cases size data with ⟨e, he⟩ | ⟨hsize, hsame, hs⟩ |
    ⟨h, old, hl, hold, hne, hempty, hsize⟩
  · cases he.symm.trans hok
  · exact .inl ⟨hs.symm.trans hok, (Size.check_eq_ok.mp hsize).1, hsame⟩
  · obtain ⟨s₂, s₃, hplay, hconsume, hs⟩ := consumeSized_renewed hl hold hne hempty hsize
    obtain rfl := congrArg Prod.fst (hs.symm.trans hok)
    have hsession := session_encode h { old with size := size } s
    have hl₁ : (encode h { old with size := size } s).session.live = .ok h := by
      rw [hsession]
      exact live_eq_ok.mpr ⟨rfl, (live_eq_ok.mp hl).2⟩
    obtain ⟨z, hz, hzs⟩ := play_of_configured hl₁ (by rw [hsession]; rfl)
    obtain rfl := congrArg Prod.fst (hplay.symm.trans hz)
    obtain ⟨g, -, hg, -, -, -, hsame, hcount⟩ := consume_taken hconsume
    have hplays := pictureCount_play (encode h { old with size := size } s)
    rw [hplay, pictureCount_encode] at hplays
    refine .inr ⟨h, old, hl, hold, hne, (Size.check_eq_ok.mp hsize).1, ?_, ?_, ?_,
      hcount.trans (congrArg (· + 1) hplays)⟩
    · rw [hsame, hzs, hsession]
      exact live_eq_ok.mpr ⟨rfl, (live_eq_ok.mp hl).2⟩
    · rw [hsame, hzs]
      rfl
    · rw [hsame, hzs, hsession]

/-- Without media that is set up, a picture of a given size makes the call panic, or is refused, or
the encoder that the session remembers is set up anew for it. -/
theorem consumeSized_idle (hs : s.session.phase.isConfigured = false) (size : Size)
    (data : Array UInt8) :
    (UInt64.size ≤ size.bytes ∧ s.consumeSized size data = (s, .error .overflow)) ∨
    (size.bytes < UInt64.size ∧
      ∃ e, e.isReturned = true ∧ s.consumeSized size data = (s, .error e)) ∨
    ∃ h old, s.session.live = .ok h ∧ s.session.encoding = some old ∧ old.size ≠ size ∧
      size.isEmpty = false ∧ size.check data.size = .ok () := by
  cases hcheck : size.check data.size with
  | error e =>
      have hres : s.consumeSized size data = (s, .error e) := by simp only [consumeSized, hcheck]
      have hover : size.check data.size = .error .overflow ↔ UInt64.size ≤ size.bytes :=
        Size.check_eq_overflow
      rw [hcheck, Except.error.injEq] at hover
      by_cases he : e = .overflow
      · exact .inl ⟨hover.mp he, he ▸ hres⟩
      · exact .inr (.inl ⟨Nat.not_le.mp fun hlarge => he (hover.mpr hlarge), e,
          decide_eq_true he, hres⟩)
  | ok u =>
      have hsmall := (Size.check_eq_ok.mp hcheck).2
      obtain ⟨e, hr, he⟩ := consume_idle hs data
      cases hold : s.session.encoding with
      | none => exact .inr (.inl ⟨hsmall, e, hr, by simp only [consumeSized, hcheck, hold, he]⟩)
      | some old =>
          by_cases hsame : old.size = size
          · refine .inr (.inl ⟨hsmall, e, hr, ?_⟩)
            simp only [consumeSized, hcheck, hold, hsame, if_true, he]
          rcases setupEncoding_cases s { old with size := size } with
            ⟨e, hr, he⟩ | ⟨h, hl, hempty, -⟩
          · refine .inr (.inl ⟨hsmall, e, hr, ?_⟩)
            simp only [consumeSized, hcheck, hold, if_false, hsame, he]
          · exact .inr (.inr ⟨h, old, hl, rfl, hsame, hempty, rfl⟩)

/-- The engine took a picture as the last one, and the session and the engine have the encoder set
up alike, for pictures of this size. -/
structure Fed (s : Stage) (p : Pipeline) (enc : Encoding) (data : Array UInt8) : Prop where
  pipeline : ∃ h, s.session.live = .ok h ∧ s.host.engine.pipelines.get? h.id = some p
  settings : s.session.encoding = some enc ∧ p.encoding = some enc
  direction : s.session.status.direction = some .encoding ∧ p.direction = some .encoding
  pixels : enc.size.width ≠ 0 ∧ enc.size.height ≠ 0
  size : data.size = 4 * enc.size.width.toNat * enc.size.height.toNat
  last : p.lastConsumed = some data

end Stage

namespace World
variable {w w₀ : World} {i : Nat} {s : Stage} {h : Handle} {as : List Action}

/-! ### Sessions without media -/

/-- In every reachable world, for every session whose media was released or never set up, and
every picture: a picture of no given size is refused, and changes nothing.  One of a given size
whose bytes are too many to be counted changes nothing either, and the call panics.  Any other is
refused and changes nothing, except if the session remembers an encoder of another size, and the
size is not empty and that of the picture.  An encoder is only remembered where it was released,
and then the picture starts it again. -/
theorem closed_encoder_refuses_iff (hw : w.Reachable) (hs : w.stage? i = some s)
    (hp : s.session.phase = .closed ∨ s.session.phase = .unloaded) (size : Size)
    (data : Array UInt8) :
    (∃ e, e.isReturned = true ∧ s.consume data = (s, .error e)) ∧
    (s.consumeSized size data = (s, .error .overflow) ↔ UInt64.size ≤ size.bytes) ∧
    ((∃ e, e.isReturned = true ∧ s.consumeSized size data = (s, .error e)) ↔
      size.bytes < UInt64.size ∧
        ¬∃ old, s.session.encoding = some old ∧ old.size ≠ size ∧ size.isEmpty = false ∧
          data.size = size.bytes) ∧
    (s.session.phase = .unloaded → s.session.encoding = none) ∧
    ∀ s', s.consumeSized size data = (s', .ok ()) →
      s.session.phase = .closed ∧ s'.session.phase = .playing ∧
        s'.host.engine.pictureCount = s.host.engine.pictureCount + 1 := by
  obtain ⟨l, hreel⟩ := hw.shows hs
  have hnone : s.session.phase = .unloaded → s.session.encoding = none := fun hu =>
    (hreel.unloaded hu).2.1
  have hidle : s.session.phase.isConfigured = false := by
    rcases hp with hp | hp <;> (rw [hp]; rfl)
  have hconsume := Stage.consume_idle hidle data
  have hclosed : ∀ {old}, s.session.encoding = some old → s.session.phase = .closed :=
    fun hold => hp.resolve_right fun hu => by cases hold.symm.trans (hnone hu)
  -- a session with released media is still up, so the encoder is set up anew
  have hrenewed : ∀ {old}, s.session.encoding = some old → old.size ≠ size →
      size.isEmpty = false → size.check data.size = .ok () →
        ∃ s', s.consumeSized size data = (s', .ok ()) := by
    intro old hold hne hempty hcheck
    have hph := hclosed hold
    have hup : s.reel.isUp = true := by
      refine Bool.not_eq_false _ ▸ fun hd => ?_
      rcases hreel.down hd with hd | hd <;> cases hd.symm.trans hph
    obtain ⟨h, hpipe⟩ := Option.isSome_iff_exists.mp hup
    have hl : s.session.live = .ok h := Stage.live_eq_ok.mpr ⟨by rw [hph]; rfl, hpipe⟩
    obtain ⟨s₂, s₃, -, -, hok⟩ := Stage.consumeSized_renewed hl hold hne hempty hcheck
    exact ⟨s₃, hok⟩
  have htaken : ∀ s', s.consumeSized size data = (s', .ok ()) →
      s.session.phase = .closed ∧ s'.session.phase = .playing ∧
        s'.host.engine.pictureCount = s.host.engine.pictureCount + 1 := by
    intro s' hok
    rcases Stage.consumeSized_taken hok with ⟨hok, -⟩ |
      ⟨h, old, -, hold, -, -, -, hplays, -, hcount⟩
    · obtain ⟨e, -, he⟩ := hconsume
      cases (congrArg Prod.snd he).symm.trans (congrArg Prod.snd hok)
    · exact ⟨hclosed hold, hplays, hcount⟩
  rcases Stage.consumeSized_idle hidle size data with ⟨hlarge, hres⟩ | ⟨hsmall, e, hr, hres⟩ |
    ⟨-, old, -, hold, hne, hempty, hcheck⟩
  · refine ⟨hconsume, iff_of_true hres hlarge, iff_of_false ?_ ?_, hnone, htaken⟩
    · rintro ⟨e, hr, he⟩
      obtain rfl := Except.error.inj ((congrArg Prod.snd hres).symm.trans (congrArg Prod.snd he))
      cases hr
    · rintro ⟨hsmall, -⟩
      exact Nat.not_le.mpr hsmall hlarge
  · refine ⟨hconsume, iff_of_false ?_ (Nat.not_le.mpr hsmall),
      iff_of_true ⟨e, hr, hres⟩ ⟨hsmall, ?_⟩, hnone, htaken⟩
    · intro hpanics
      obtain rfl := Except.error.inj
        ((congrArg Prod.snd hres).symm.trans (congrArg Prod.snd hpanics))
      cases hr
    · rintro ⟨old, hold, hne, hempty, hsize⟩
      obtain ⟨s', hok⟩ := hrenewed hold hne hempty (Size.check_eq_ok.mpr ⟨hsize, hsmall⟩)
      cases (congrArg Prod.snd hres).symm.trans (congrArg Prod.snd hok)
  · obtain ⟨hsize, hsmall⟩ := Size.check_eq_ok.mp hcheck
    obtain ⟨s', hok⟩ := hrenewed hold hne hempty hcheck
    refine ⟨hconsume, iff_of_false ?_ (Nat.not_le.mpr hsmall), iff_of_false ?_ ?_, hnone, htaken⟩
    · intro hpanics
      cases (congrArg Prod.snd hok).symm.trans (congrArg Prod.snd hpanics)
    · rintro ⟨e, -, he⟩
      cases (congrArg Prod.snd hok).symm.trans (congrArg Prod.snd he)
    · rintro ⟨-, hn⟩
      exact hn ⟨old, hold, hne, hempty, hsize⟩

/-- An encoder that was closed after it had played. -/
def closedEncoder : List Action :=
  encoderSetUp ++ [.command 0 .play, .command 0 .close]

theorem closed_encoder_refuses_its_size :
    ∃ s, (slow.run closedEncoder).stage? 0 = some s ∧
      ∃ e, e.isReturned = true ∧ s.consumeSized ⟨4, 2⟩ (.replicate 32 0) = (s, .error e) := by
  obtain ⟨s, hs⟩ := Option.isSome_iff_exists.mp (by decide :
    ((slow.run closedEncoder).stage? 0).isSome = true)
  have hknown : ((slow.run closedEncoder).stage? 0).map (fun s =>
      (s.session.phase, s.session.encoding)) =
        some (.closed, some ⟨"out.mp4", ⟨4, 2⟩⟩) := by decide
  rw [hs] at hknown
  obtain ⟨hphase, henc⟩ := Prod.mk.inj (Option.some.inj hknown)
  obtain ⟨-, -, hiff, -⟩ := closed_encoder_refuses_iff ⟨slow, closedEncoder, fresh_slow, rfl⟩ hs
    (.inl hphase) ⟨4, 2⟩ (.replicate 32 0)
  refine ⟨s, hs, hiff.mpr ⟨by decide, ?_⟩⟩
  rintro ⟨old, hold, hne, -⟩
  obtain rfl := Option.some.inj (henc.symm.trans hold)
  exact hne rfl

/-- A picture of another size starts the closed encoder again. -/
theorem resized_picture_reopens :
    ((slow.run closedEncoder).stage? 0).map (fun s =>
      (s.session.phase, s.host.engine.pictureCount,
        (s.consumeSized ⟨2, 2⟩ (.replicate 16 0)).2.isOk,
        (s.consumeSized ⟨2, 2⟩ (.replicate 16 0)).1.session.phase,
        (s.consumeSized ⟨2, 2⟩ (.replicate 16 0)).1.host.engine.pictureCount)) =
      some (.closed, 0, true, .playing, 1) := by decide

/-! ### Pictures in step -/

/-- The engine's pipeline of a session has counted the pictures that it was fed since the last
setup of the encoder, and is set up as the session remembers it. -/
theorem filmed (h₀ : Fresh w₀) (as : List Action) (hs : (w₀.run as).stage? i = some s)
    (hp : s.session.pipeline = some h) :
    ∃ p, s.host.engine.pipelines.get? h.id = some p ∧
      p.consumed = (w₀.pictures i [] as).length ∧
      p.lastConsumed = (w₀.pictures i [] as).getLast? ∧
      ∀ enc, s.session.encoding = some enc →
        s.session.status.direction = some .encoding ∧ enc.size.isEmpty = false ∧
          p.direction = some .encoding ∧ p.encoding = some enc := by
  have hw := h₀.sound.run as
  have hreel := (h₀.screens i).run h₀.sound as s hs
  obtain ⟨t, hwir⟩ := hw.wiring_of_pipeline hs hp
  obtain ⟨⟨p, hget, -⟩, -⟩ := Stage.attached_up hwir (hw.attached hs)
  have hstrip : s.reel.strip = some p.strip := by
    simp only [Stage.reel, hp, Option.bind_some, Host.stripOf, hget, Option.map_some]
  have hup : s.reel.isUp = true := by simp [Stage.reel, Session.isUp, hp]
  obtain ⟨hcount, hlast⟩ := hreel.pictures p.strip hstrip
  refine ⟨p, hget, hcount, hlast, fun enc henc => ?_⟩
  obtain ⟨hempty, hset⟩ := hreel.settings hup enc henc
  obtain ⟨hdir, hpenc⟩ := hset p.strip hstrip
  refine ⟨(hreel.direction hup).mpr ?_, hempty, hdir, hpenc⟩
  exact Option.isSome_of_eq_some henc

/-- What a command of a session feeds to the encoder comes last. -/
theorem pictures_command (hs : (w.run as).stage? i = some s) (c : Command) :
    w.pictures i [] (as ++ [.command i c]) =
      (c.feeds s).foldl Feed.after (w.pictures i [] as) := by
  rw [pictures_append]
  change (w.run as).shown i _ _ = _
  rw [shown_of_stage hs, feeds_command hs]

theorem stage_command (hs : (w.run as).stage? i = some s) (hw : (w.run as).Sound) {c : Command}
    {s' : Stage} (hc : (c.exec s).1 = s') :
    (w.run (as ++ [.command i c])).stage? i = some s' := by
  have hindex := (Stage.turns_exec (hw.attached hs) (hw.coupled hs) c).index
  rw [run_append]
  change ((w.run as).act i c.exec).1.stage? i = _
  rw [act_eq hs, stage?_put, if_pos (hindex.trans (stage?_eq_some.mp hs).1), hc]

/-- After a call that the engine took a picture from, the picture is the last one that it
counted. -/
theorem fed_exec (h₀ : Fresh w₀) (hs : (w₀.run as).stage? i = some s) {c : Command} {s' : Stage}
    (hok : c.exec s = (s', .ok ())) (hl : s'.session.live = .ok h) {enc : Encoding}
    (henc : s'.session.encoding = some enc) {data : Array UInt8} (before : List Feed)
    (hoffers : c.offers s.session = before ++ [.picture data])
    (hsize : data.size = enc.size.bytes) :
    ∃ p, s'.Fed p enc data ∧
      p.consumed = (before.foldl Feed.after (w₀.pictures i [] as)).length + 1 := by
  have hs' := stage_command hs (h₀.sound.run as) (congrArg Prod.fst hok)
  have hfed := pictures_command hs c
  rw [Stage.feeds_of_ok (congrArg Prod.snd hok), hoffers, List.foldl_append] at hfed
  obtain ⟨p, hget, hcount, hlast, hset⟩ :=
    filmed h₀ (as ++ [.command i c]) hs' (Stage.live_eq_ok.mp hl).2
  rw [hfed] at hcount hlast
  obtain ⟨hdir, hempty, hpdir, hpenc⟩ := hset enc henc
  refine ⟨p, ⟨⟨h, hl, hget⟩, ⟨henc, hpenc⟩, ⟨hdir, hpdir⟩, Size.ne_zero_of_isEmpty hempty, ?_, ?_⟩,
    ?_⟩
  · rw [hsize, Size.bytes, Nat.mul_comm _ 4, Nat.mul_assoc]
  · simpa [Feed.after] using hlast
  · simpa [Feed.after] using hcount

/-- In every run, for every session.  The engine's pipeline has counted the pictures that the
engine took since the last setup of the encoder, knows the last of them, and is set up as the
session remembers it.  Every call that hands over a picture fails and changes nothing, or
succeeds, and then the engine took one picture, of four bytes for every pixel of the size that the
session and the engine have the encoder set up for; it is the next one of them, or, if the call
came with another size, the first one since the encoder was set up anew with the same file. -/
theorem pictures_in_step (h₀ : Fresh w₀) (as : List Action)
    (hs : (w₀.run as).stage? i = some s) :
    (∀ h, s.session.pipeline = some h → ∃ p, s.host.engine.pipelines.get? h.id = some p ∧
      p.consumed = (w₀.pictures i [] as).length ∧
      p.lastConsumed = (w₀.pictures i [] as).getLast? ∧
      ∀ enc, s.session.encoding = some enc →
        s.session.status.direction = some .encoding ∧ enc.size.isEmpty = false ∧
          p.direction = some .encoding ∧ p.encoding = some enc) ∧
    ∀ (c : Command) data, c.picture? = some data →
      (∃ e, c.exec s = (s, .error e)) ∨
      ∃ s' p enc, c.exec s = (s', .ok ()) ∧ s'.Fed p enc data ∧
        s'.host.engine.pictureCount = s.host.engine.pictureCount + 1 ∧
        (∀ size, c = .consumeSized size data → enc.size = size) ∧
        (s.session.encoding = some enc ∧ p.consumed = (w₀.pictures i [] as).length + 1 ∨
          ∃ old, s.session.encoding = some old ∧ old.size ≠ enc.size ∧ enc.path = old.path ∧
            p.consumed = 1) := by
  refine ⟨fun h hp => filmed h₀ as hs hp, fun c data hc => ?_⟩
  rcases hexec : c.exec s with ⟨s', e | u⟩
  · refine .inl ⟨e, ?_⟩
    have hsame : (c.exec s).1 = s := by
      refine Stage.unchanged_exec ?_ ?_ (congrArg Prod.snd hexec) <;> (rintro rfl; cases hc)
    rw [← hsame, hexec]
  refine .inr ?_
  -- a picture that is handed over as it is
  have hplain : s.consume data = (s', .ok ()) → c.offers s.session = [.picture data] →
      ∃ p enc, s'.Fed p enc data ∧
        s'.host.engine.pictureCount = s.host.engine.pictureCount + 1 ∧
        s.session.encoding = some enc ∧ p.consumed = (w₀.pictures i [] as).length + 1 := by
    intro hok hoffers
    obtain ⟨h, enc, hl, -, henc, hsize, hsession, hcount⟩ := Stage.consume_taken hok
    obtain ⟨p, hfed, hp⟩ := fed_exec h₀ hs hexec (hsession ▸ hl) (hsession ▸ henc) [] hoffers
      hsize
    exact ⟨p, enc, hfed, hcount, henc, hp⟩
  cases c with
  | consume data' =>
      obtain rfl := Option.some.inj hc
      obtain ⟨p, enc, hfed, hcount, henc, hp⟩ := hplain hexec rfl
      exact ⟨s', p, enc, rfl, hfed, hcount, nofun, .inl ⟨henc, hp⟩⟩
  | consumeSized size data' =>
      obtain rfl := Option.some.inj hc
      rcases Stage.consumeSized_taken hexec with ⟨hok, hsize, hsame⟩ |
        ⟨h, old, -, hold, hne, hsize, hl, -, henc, hcount⟩
      · obtain ⟨p, enc, hfed, hcount, henc, hp⟩ :=
          hplain hok (by simpa [Command.offers] using hsame)
        refine ⟨s', p, enc, rfl, hfed, hcount, fun size' heq => ?_, .inl ⟨henc, hp⟩⟩
        obtain ⟨rfl, -⟩ := Command.consumeSized.inj heq
        simpa [henc] using hsame
      · obtain ⟨p, hfed, hp⟩ := fed_exec h₀ hs hexec hl henc [.anew]
          (by simp [Command.offers, hold, hne]) hsize
        refine ⟨s', p, _, rfl, hfed, hcount, fun size' heq => ?_, .inr ⟨old, hold, hne, rfl, hp⟩⟩
        exact (Command.consumeSized.inj heq).1
  | _ => cases hc

/-- An encoder that plays, and has taken two pictures. -/
def filmingEncoder : List Action :=
  encoderSetUp ++ [.command 0 .play, .command 0 (.consume (.replicate 32 1)),
    .command 0 (.consumeSized ⟨4, 2⟩ (.replicate 32 2))]

/-- A picture of another size is the first one of the same file. -/
theorem resized_picture_counts_anew :
    ∃ s s' p, (slow.run filmingEncoder).stage? 0 = some s ∧
      slow.pictures 0 [] filmingEncoder = [.replicate 32 1, .replicate 32 2] ∧
      s.consumeSized ⟨2, 2⟩ (.replicate 16 3) = (s', .ok ()) ∧
      s'.Fed p ⟨"out.mp4", ⟨2, 2⟩⟩ (.replicate 16 3) ∧ p.consumed = 1 := by
  obtain ⟨s, hs⟩ := Option.isSome_iff_exists.mp (by decide :
    ((slow.run filmingEncoder).stage? 0).isSome = true)
  have hknown : ((slow.run filmingEncoder).stage? 0).map (fun s =>
      (s.session.encoding, (s.consumeSized ⟨2, 2⟩ (.replicate 16 3)).2.isOk)) =
        some (some ⟨"out.mp4", ⟨4, 2⟩⟩, true) := by decide
  rw [hs] at hknown
  obtain ⟨henc, hok⟩ := Prod.mk.inj (Option.some.inj hknown)
  obtain ⟨-, hcalls⟩ := pictures_in_step fresh_slow filmingEncoder hs
  rcases hcalls (.consumeSized ⟨2, 2⟩ (.replicate 16 3)) _ rfl with
    ⟨e, he⟩ | ⟨s', p, enc, hs', hfed, -, hsize, hcount⟩
  · have herror : (s.consumeSized ⟨2, 2⟩ (.replicate 16 3)).2 = .error e := congrArg Prod.snd he
    rw [herror] at hok
    cases hok
  · have hsize := hsize ⟨2, 2⟩ rfl
    rcases hcount with ⟨hsame, -⟩ | ⟨old, hold, -, hpath, hone⟩
    · obtain rfl := Option.some.inj (henc.symm.trans hsame)
      cases hsize
    · obtain rfl := Option.some.inj (henc.symm.trans hold)
      obtain rfl : enc = ⟨"out.mp4", ⟨2, 2⟩⟩ := by
        cases enc
        cases hsize
        cases hpath
        rfl
      exact ⟨s, s', p, hs, by decide, hs', hfed, hone⟩

end World
end MediaHost
