import MediaHost.Proofs.Mailbox
import MediaHost.Proofs.Refusal
import MediaHost.Proofs.Stale

/-!
# Proofs — Renewal

What the binding of a session says after a setup.  The binding forgets what it was told only
when the engine was asked for the new media, so it also forgets what a prompt thread of the engine
said of that media by then (`Stage.resolve_exec`).  What the session says itself comes later and
stays, and so does what threads say that are still on their way.  The flags are therefore those of
the new media exactly if no thread that speaks of it came before the binding was rearmed
(`World.flags_after_setup_iff`).
-/

namespace MediaHost

namespace Binding
variable {Target : Type} {b : Binding Target}

/-- A binding after any number of reports. -/
def markAll (b : Binding Target) (es : List Event) : Binding Target := es.foldl mark b

theorem queue_mark (b : Binding Target) (e : Event) : (b.mark e).queue = b.queue := by
  cases e <;> rfl

theorem queue_markAll (b : Binding Target) (es : List Event) : (b.markAll es).queue = b.queue := by
  simp only [markAll]
  induction es generalizing b with
  | nil => rfl
  | cons e es ih => exact (ih _).trans (queue_mark b e)

theorem rearm_mark (b : Binding Target) (e : Event) : (b.mark e).rearm = b.rearm := by
  cases e <;> rfl

theorem rearm_markAll (es : List Event) : (b.markAll es).rearm = b.rearm := by
  simp only [markAll]
  induction es generalizing b with
  | nil => rfl
  | cons e es ih => exact ih.trans (rearm_mark b e)

/-- The flags say that these events were reported, and no others. -/
structure Shows (b : Binding Target) (es : List Event) : Prop where
  ends : b.endSeen = true ↔ .finished ∈ es
  errors : b.errorSeen = true ↔ ∃ message, .failed message ∈ es

theorem shows_mark {es : List Event} (hb : b.Shows es) (e : Event) :
    (b.mark e).Shows (es ++ [e]) := by
  obtain ⟨h₁, h₂⟩ := hb
  cases e with
  | finished => exact ⟨by simp [mark, markEnd], by simp [mark, markEnd, h₂]⟩
  | failed message =>
      refine ⟨by simp [mark, markError, h₁], ?_⟩
      simp only [mark, markError, true_iff]
      exact ⟨message, by simp⟩
  | quality report => exact ⟨by simp [mark, h₁], by simp [mark, h₂]⟩

theorem shows_markAll {es : List Event} (hb : b.Shows es) (fs : List Event) :
    (b.markAll fs).Shows (es ++ fs) := by
  simp only [markAll]
  induction fs generalizing b es with
  | nil => simpa using hb
  | cons f fs ih => simpa using ih (shows_mark hb f)

/-- What a binding shows that was told of some events since it was rearmed. -/
theorem shows_rearm (b : Binding Target) (es : List Event) : (b.rearm.markAll es).Shows es := by
  have hnone : b.rearm.Shows [] := ⟨by simp [rearm], by simp [rearm]⟩
  exact shows_markAll hnone es

/-- A binding that has forgotten an error shows it only if it was told of another since. -/
theorem shows_failed_cons {es : List Event} (hb : b.Shows es) (message : String) :
    b.Shows (.failed message :: es) ↔ ∃ other, .failed other ∈ es := by
  constructor
  · intro hlost
    exact hb.errors.mp (hlost.errors.mpr ⟨message, List.mem_cons_self⟩)
  · intro hother
    refine ⟨by simpa using hb.ends, iff_of_true (hb.errors.mpr hother) ?_⟩
    exact ⟨message, List.mem_cons_self⟩

end Binding

/-! ### What is said of new media -/

/-- What the engine says of media while it is being set up. -/
def Decoding.engineReports (d : Decoding) : List Event :=
  if Stage.isUsable d.uri && !Pipeline.namesResource d.uri.toList then
    [Pipeline.openFailure d.uri]
  else []

/-- What the session says itself, of a text that the engine would not take. -/
def Decoding.ownReports (d : Decoding) : List Event :=
  if Stage.isUsable d.uri then [] else [.failed ("Invalid URI " ++ quoted d.uri)]

namespace Command

/-- The media that a command sets up to decode. -/
def decoding? (c : Command) (x : Session) : Option Decoding :=
  match c with
  | .setup uri video audio => some (x.config.decoding uri video audio)
  | .setupWith d => some d
  | _ => none

def engineReports (c : Command) (x : Session) : List Event :=
  ((c.decoding? x).map Decoding.engineReports).getD []

def ownReports (c : Command) (x : Session) : List Event :=
  ((c.decoding? x).map Decoding.ownReports).getD []

/-- The engine has something to say only of media that the session has not refused. -/
theorem reports_apart (c : Command) (x : Session) : c.engineReports x = [] ∨
    ∃ message, c.engineReports x = [.failed message] ∧ c.ownReports x = [] := by
  simp only [engineReports, ownReports]
  cases c.decoding? x with
  | none => exact .inl rfl
  | some d =>
      by_cases hd : Stage.isUsable d.uri = true
      · by_cases hn : Pipeline.namesResource d.uri.toList = true
        · exact .inl (by simp [Decoding.engineReports, hn])
        · have hsaid : d.engineReports = [Pipeline.openFailure d.uri] := by
            simp [Decoding.engineReports, hd, hn]
          exact .inr ⟨_, hsaid, by simp [Decoding.ownReports, hd]⟩
      · exact .inl (by simp [Decoding.engineReports, hd])

end Command

/-- Events as callbacks to the number `t`. -/
def callbacks (t : Nat) (es : List Event) : List Callback := es.map fun e => ⟨t, e⟩

/-- The events that callbacks bring to the number `t`. -/
def reportsTo (t : Nat) (cs : List Callback) : List Event :=
  (cs.filter (·.userdata = t)).map (·.event)

theorem reportsTo_callbacks (t : Nat) (es : List Event) : reportsTo t (callbacks t es) = es := by
  simp [reportsTo, callbacks, List.filter_map, Function.comp_def]

namespace Engine

/-- Of what the engine reports, what has arrived when whoever made it report goes on. -/
def atOnce (e : Engine) (es : List Event) : List Event := if e.prompt then es else []

/-- Of what the engine reports, what is still on its way then. -/
def onTheWay (e : Engine) (es : List Event) : List Event := if e.prompt then [] else es

end Engine

namespace Host
variable {h : Host} {t : Nat} {b : Binding Target}

theorem resolve_signalAll (t : Nat) (cs : List Callback) :
    (h.signalAll cs).arena.resolve t =
      (h.arena.resolve t).map (·.markAll (reportsTo t cs)) := by
  simp only [signalAll]
  induction cs generalizing h with
  | nil => simp [reportsTo, Binding.markAll]
  | cons c cs ih =>
      rw [List.foldl_cons, ih, resolve_signal]
      by_cases hc : c.userdata = t
      · rw [if_pos hc, Option.map_map]
        simp only [reportsTo, hc, decide_true, List.filter_cons_of_pos]
        rfl
      · rw [if_neg hc]
        simp only [reportsTo, hc, decide_false, Bool.false_eq_true, not_false_eq_true,
          List.filter_cons_of_neg]

/-- Reports to one number arrive on one queue, in order. -/
theorem queue_signalAll (hb : h.arena.resolve t = some b) (es : List Event) :
    (h.signalAll (callbacks t es)).queue b.queue =
      (es.map (.deliver t)).foldl EventQueue.submit (h.queue b.queue) := by
  simp only [signalAll, callbacks]
  induction es generalizing h b with
  | nil => rfl
  | cons e es ih =>
      have hb₁ : (h.signal ⟨t, e⟩).arena.resolve t = some (b.mark e) := by
        rw [resolve_signal, if_pos rfl, hb]
        rfl
      have hq : (h.signal ⟨t, e⟩).queue b.queue =
          (h.queue b.queue).submit (.deliver t e) := by
        simp only [signal, hb, submit]
        rw [queue_modifyQueue]
        rfl
      have hes := ih hb₁
      rw [Binding.queue_mark, hq] at hes
      exact hes

/-- Of the reports to one number, those of prompt threads are marked and queued at once. -/
theorem resolve_launch (t : Nat) (es : List Event) :
    (h.launch (callbacks t es)).arena.resolve t =
      (h.arena.resolve t).map (·.markAll (h.engine.atOnce es)) := by
  simp only [launch, Engine.atOnce]
  split
  · rw [resolve_signalAll, reportsTo_callbacks]
  · cases h.arena.resolve t <;> rfl

theorem queue_launch (hb : h.arena.resolve t = some b) (es : List Event) :
    (h.launch (callbacks t es)).queue b.queue =
      ((h.engine.atOnce es).map (.deliver t)).foldl EventQueue.submit (h.queue b.queue) := by
  simp only [launch, Engine.atOnce]
  split
  · exact queue_signalAll hb es
  · rfl

/-- The others are in flight. -/
theorem inFlight_launch (t : Nat) (es : List Event) :
    (h.launch (callbacks t es)).inFlight =
      h.inFlight ++ callbacks t (h.engine.onTheWay es) := by
  simp only [launch, Engine.onTheWay]
  split
  · rw [inFlight_signalAll]
    exact (List.append_nil _).symm
  · rfl

end Host

namespace Stage
variable {s : Stage} {h : Handle} {t : Nat} {b : Binding Target} {p : Pipeline}

/-- Releasing the old media is between the session and the engine: nobody is told of it. -/
theorem host_closeMedia (h : Handle) (s : Stage) :
    (closeMedia h s).host.arena = s.host.arena ∧
    (closeMedia h s).host.inFlight = s.host.inFlight ∧
    (closeMedia h s).host.engine.prompt = s.host.engine.prompt := by
  have hm : (hasMedia h s).1.host.arena = s.host.arena ∧
      (hasMedia h s).1.host.inFlight = s.host.inFlight ∧
      (hasMedia h s).1.host.engine.prompt = s.host.engine.prompt := by
    simp only [hasMedia]
    split <;> exact ⟨rfl, rfl, rfl⟩
  simp only [closeMedia]
  split <;> exact hm

theorem inFlight_resetStream (s : Stage) : s.resetStream.host.inFlight = s.host.inFlight := by
  simp only [resetStream]
  cases s.session.token with
  | none => rfl
  | some t =>
      simp only [onHost, modify]
      split <;> rfl

/-- Starting the stream over makes the session's own binding forget. -/
theorem resolve_resetStream (s : Stage) (u : Nat) :
    s.resetStream.host.arena.resolve u =
      if s.session.token = some u then (s.host.arena.resolve u).map (·.rearm)
      else s.host.arena.resolve u := by
  cases ht : s.session.token with
  | none =>
      simp only [resetStream, ht]
      rfl
  | some t =>
      simp only [resetStream, ht, onHost, modify, Option.some.injEq]
      split
      · exact Arena.resolve_modify (f := (·.rearm)) (fun _ => rfl) t
      · next hn =>
          split
          · next htu => rw [← htu, Option.not_isSome_iff_eq_none.mp hn]; rfl
          · rfl

/-- Media that the engine cannot open is reported to the owner of the pipeline. -/
theorem setupDecoding_callbacks {e : Engine} {k : Nat} (hp : e.pipelines.get? k = some p)
    (hw : p.wire = (t, .all)) (d : Decoding) (hd : isUsable d.uri = true) :
    (e.setupDecoding k d).2 = callbacks t d.engineReports := by
  obtain ⟨hu, hc⟩ := Prod.mk.injEq .. ▸ hw
  have hcall : (p.setupDecoding d).callback (Pipeline.openFailure d.uri) =
      some ⟨t, Pipeline.openFailure d.uri⟩ := by
    have hall : Callbacks.all.accepts (Pipeline.openFailure d.uri) = true := rfl
    simp only [Pipeline.callback, Pipeline.setupDecoding, hu, hc, hall, if_true]
  simp only [Engine.setupDecoding, Decoding.engineReports, hd, Bool.true_and]
  by_cases hn : Pipeline.namesResource d.uri.toList = true
  · simp [hn, callbacks]
  · simp [hn, callbacks, Engine.callbackOf, Engine.change, hp, hcall]

/-- The host after the engine's part of a setup to decode. -/
def requested (h : Handle) (d : Decoding) (a : Host) : Host :=
  if isUsable d.uri then a.request (·.setupDecoding h.id d) else a

theorem decode_eq (h : Handle) (d : Decoding) (s : Stage) :
    decode h d s = Stage.resetStream
      { index := s.index
        session :=
          { s.session with
            status := ⟨.configured, some .decoding, s.session.config.playback.looping⟩
            encoding := none }
        host := requested h d s.host } := by
  simp only [decode, requested]
  split <;> rfl

/-- What the engine says in its part of a setup to decode. -/
theorem binding_requested {a : Host} (hb : a.arena.resolve t = some b)
    (hp : a.engine.pipelines.get? h.id = some p) (hw : p.wire = (t, .all)) (d : Decoding) :
    (requested h d a).arena.resolve t =
      some (b.markAll (a.engine.atOnce d.engineReports)) ∧
    (requested h d a).queue b.queue =
      ((a.engine.atOnce d.engineReports).map (.deliver t)).foldl EventQueue.submit
        (a.queue b.queue) ∧
    (requested h d a).inFlight =
      a.inFlight ++ callbacks t (a.engine.onTheWay d.engineReports) := by
  by_cases hd : isUsable d.uri = true
  · have hb' : (a.setEngine (a.engine.setupDecoding h.id d).1).arena.resolve t = some b := hb
    simp only [requested, hd, if_true, Host.request]
    rw [setupDecoding_callbacks hp hw d hd]
    refine ⟨?_, Host.queue_launch hb' _, Host.inFlight_launch t _⟩
    rw [Host.resolve_launch, hb']
    rfl
  · simp [requested, hd, Decoding.engineReports, hb, Binding.markAll, Engine.atOnce,
      Engine.onTheWay, callbacks]

/-- What a setup to decode makes of a binding, its queue and what is in flight, before the session
says anything itself. -/
theorem binding_decode (ht : s.session.token = some t) (hb : s.host.arena.resolve t = some b)
    (hp : s.host.engine.pipelines.get? h.id = some p) (hw : p.wire = (t, .all)) (d : Decoding) :
    (decode h d s).host.arena.resolve t = some b.rearm ∧
    (decode h d s).host.queue b.queue =
      ((s.host.engine.atOnce d.engineReports).map (.deliver t)).foldl EventQueue.submit
        (s.host.queue b.queue) ∧
    (decode h d s).host.inFlight =
      s.host.inFlight ++ callbacks t (s.host.engine.onTheWay d.engineReports) := by
  obtain ⟨hres, hqueue, hflight⟩ := binding_requested hb hp hw d
  rw [decode_eq]
  refine ⟨?_, by simpa only [Host.queue, queues_resetStream] using hqueue,
    (inFlight_resetStream _).trans hflight⟩
  rw [resolve_resetStream, if_pos ht, hres]
  exact congrArg some (Binding.rearm_markAll _)

theorem report_eq (ht : s.session.token = some t) (d : Decoding) :
    report d s = s.onHost (·.signalAll (callbacks t d.ownReports)) := by
  simp only [report, Decoding.ownReports, ht]
  cases isUsable d.uri <;> rfl

/-- A setup that succeeds had a live pipeline. -/
theorem live_of_setup {c : Command} (hc : c.isSetup = true) (hok : (c.exec s).2 = .ok ()) :
    ∃ h, s.session.live = .ok h := by
  have hlive : ∀ f, (s.changeLive f).2 = .ok () → ∃ h, s.session.live = .ok h := by
    intro f hf
    cases hl : s.session.live with
    | error e => simp [changeLive, withLive, hl] at hf
    | ok h => exact ⟨h, rfl⟩
  cases c with
  | setup uri video audio => exact hlive _ hok
  | setupWith d => exact hlive _ hok
  | setupEncoding enc =>
      change (s.setupEncoding enc).2 = _ at hok
      have heq : s.setupEncoding enc = ((s.setupEncoding enc).1, .ok ()) := Prod.ext rfl hok
      obtain ⟨h, hl, -⟩ := setupEncoding_spec heq
      exact ⟨h, hl⟩
  | _ => cases hc

section
variable (hup : s.session.wiring = .up h t)
include hup

theorem live_up : s.session.live = .ok h :=
  live_eq_ok.mpr ⟨(live_of_up hup).1, (live_of_up hup).2.1⟩

variable (hb : s.host.arena.resolve t = some b)
include hb

/-- Releasing the old media leaves the binding and its queue alone. -/
theorem binding_closeMedia : (closeMedia h s).session.token = some t ∧
    (closeMedia h s).host.arena.resolve t = some b ∧
    (closeMedia h s).host.queue b.queue = s.host.queue b.queue := by
  refine ⟨?_, by rwa [(host_closeMedia h s).1], by simp only [Host.queue, queues_closeMedia]⟩
  rw [session_closeMedia]
  exact (live_of_up hup).2.2.1

theorem binding_setupWith (hp : s.host.engine.pipelines.get? h.id = some p)
    (hw : p.wire = (t, .all)) (d : Decoding) :
    (s.setupWith d).1.host.arena.resolve t = some (b.rearm.markAll d.ownReports) ∧
    (s.setupWith d).1.host.queue b.queue =
      ((s.host.engine.atOnce d.engineReports ++ d.ownReports).map (.deliver t)).foldl
        EventQueue.submit (s.host.queue b.queue) ∧
    (s.setupWith d).1.host.inFlight =
      s.host.inFlight ++ callbacks t (s.host.engine.onTheWay d.engineReports) := by
  obtain ⟨htok, hb₁, hq₁⟩ := binding_closeMedia hup hb
  obtain ⟨-, hfl₁, hpr₁⟩ := host_closeMedia h s
  have hp₁ := (works_closeMedia h s).host.at hp
  have hw₁ : p.cleared.wire = (t, .all) := by
    simp only [Pipeline.cleared]
    split <;> exact hw
  obtain ⟨hres, hqueue, hflight⟩ := binding_decode htok hb₁ hp₁ hw₁ d
  simp only [Engine.atOnce, Engine.onTheWay, hpr₁, hq₁, hfl₁] at hqueue hflight
  have htok₂ : (decode h d (closeMedia h s)).session.token = some t := by
    rw [decode_eq, session_resetStream]
    exact htok
  simp only [setupWith_eq, changeLive, withLive_of_live (live_up hup), report_eq htok₂]
  refine ⟨?_, ?_, (Host.inFlight_signalAll _).trans hflight⟩
  · refine (Host.resolve_signalAll t _).trans ?_
    rw [hres, reportsTo_callbacks]
    rfl
  · rw [List.map_append, List.foldl_append]
    refine (Host.queue_signalAll hres d.ownReports).trans ?_
    exact congrArg (List.foldl EventQueue.submit · _) hqueue

theorem binding_setupEncoding {enc : Encoding} (he : enc.size.isEmpty = false) :
    (s.setupEncoding enc).1.host.arena.resolve t = some b.rearm ∧
    (s.setupEncoding enc).1.host.queue b.queue = s.host.queue b.queue ∧
    (s.setupEncoding enc).1.host.inFlight = s.host.inFlight := by
  obtain ⟨htok, hb₁, hq₁⟩ := binding_closeMedia hup hb
  simp only [setupEncoding_eq s he, changeLive, withLive_of_live (live_up hup), encode]
  refine ⟨?_, ?_, (inFlight_resetStream _).trans (host_closeMedia h s).2.1⟩
  · refine (resolve_resetStream _ t).trans ((if_pos htok).trans ?_)
    change ((closeMedia h s).host.arena.resolve t).map _ = _
    rw [hb₁]
    rfl
  · rw [← hq₁]
    simp only [Host.queue, queues_resetStream]
    rfl

/-- After a setup the binding has forgotten everything but what the session said itself.  The
queue has got what was said of the new media by then, and the rest is in flight. -/
theorem resolve_exec (hp : s.host.engine.pipelines.get? h.id = some p) (hw : p.wire = (t, .all))
    {c : Command} (hc : c.isSetup = true) (hok : (c.exec s).2 = .ok ()) :
    (c.exec s).1.host.arena.resolve t = some (b.rearm.markAll (c.ownReports s.session)) ∧
    (c.exec s).1.host.queue b.queue =
      ((s.host.engine.atOnce (c.engineReports s.session) ++ c.ownReports s.session).map
        (.deliver t)).foldl EventQueue.submit (s.host.queue b.queue) ∧
    (c.exec s).1.host.inFlight =
      s.host.inFlight ++ callbacks t (s.host.engine.onTheWay (c.engineReports s.session)) := by
  cases c with
  | setup uri video audio => exact binding_setupWith hup hb hp hw _
  | setupWith d => exact binding_setupWith hup hb hp hw d
  | setupEncoding enc =>
      have he : enc.size.isEmpty = false := by
        change (s.setupEncoding enc).2 = _ at hok
        simp only [setupEncoding] at hok
        split at hok
        · cases hok
        · next he => exact Bool.eq_false_iff.mpr he
      obtain ⟨hres, hqueue, hflight⟩ := binding_setupEncoding hup hb he
      have hnone : (Command.setupEncoding enc).engineReports s.session = [] := rfl
      have hnone' : (Command.setupEncoding enc).ownReports s.session = [] := rfl
      simp only [hnone, hnone', Engine.atOnce, Engine.onTheWay, ite_self, callbacks, List.map_nil,
        List.append_nil]
      exact ⟨hres, hqueue, hflight⟩
  | _ => cases hc

end

end Stage

namespace World
variable {w : World} {i : Nat} {s : Stage}

/-- When a setup has succeeded, what a prompt thread of the engine said of the new media is on the
queue; what other threads are to say of it is in flight.  From then on, whatever calls back (`cs`,
late threads among it), the binding shows what the session said of the new media itself and what
has come since, and nothing that was said before.  So it shows all that was reported of the new
media exactly if no prompt thread spoke of it before the binding was rearmed, or an error has come
since. -/
theorem flags_after_setup_iff (hw : w.Reachable) (hs : w.stage? i = some s) {c : Command}
    (hc : c.isSetup = true) (hok : (w.act i c.exec).2 = some (.ok ())) :
    ∃ s' t b, (w.act i c.exec).1.stage? i = some s' ∧ s'.session.token = some t ∧
      s'.host.arena.resolve t = some b ∧
      s'.host.queue b.queue =
        ((s.host.engine.atOnce (c.engineReports s.session) ++ c.ownReports s.session).map
          (.deliver t)).foldl EventQueue.submit (s.host.queue b.queue) ∧
      s'.host.inFlight =
        s.host.inFlight ++ callbacks t (s.host.engine.onTheWay (c.engineReports s.session)) ∧
      ∀ cs, ∃ b', (s'.host.signalAll cs).arena.resolve t = some b' ∧
        b'.Shows (c.ownReports s.session ++ reportsTo t cs) ∧
        (b'.Shows (s.host.engine.atOnce (c.engineReports s.session) ++ c.ownReports s.session ++
            reportsTo t cs) ↔
          s.host.engine.atOnce (c.engineReports s.session) = [] ∨
            ∃ message, .failed message ∈ reportsTo t cs) := by
  obtain ⟨hi, -, -⟩ := stage?_eq_some.mp hs
  have hatt := hw.sound.attached hs
  have hact : w.act i c.exec = (w.put (c.exec s).1, some (c.exec s).2) := act_eq hs _
  rw [hact] at hok ⊢
  have hok : (c.exec s).2 = .ok () := Option.some.inj hok
  obtain ⟨h, hl⟩ := Stage.live_of_setup hc hok
  obtain ⟨t, hup⟩ := hatt.of_pipeline (Stage.live_eq_ok.mp hl).2
  obtain ⟨⟨p, hp, hpw⟩, hres⟩ := Stage.attached_up hup hatt
  obtain ⟨b, hb⟩ := Option.isSome_iff_exists.mp hres
  have hkeep : Stage.Keeps s (c.exec s).1 := by
    refine Stage.keeps_exec s c ?_ ?_ ?_ <;> (rintro rfl; cases hc)
  obtain ⟨hres', hqueue, hflight⟩ := Stage.resolve_exec hup hb hp hpw hc hok
  have hbq : (b.rearm.markAll (c.ownReports s.session)).queue = b.queue := Binding.queue_markAll _ _
  refine ⟨(c.exec s).1, t, _, ?_, ?_, hres', by rw [hbq]; exact hqueue, hflight, fun cs => ?_⟩
  · rw [stage?_put, if_pos (hkeep.index.trans hi)]
  · rw [← (Stage.live_of_up hup).2.2.1]
    exact congrArg Wiring.token hkeep.wiring
  · obtain ⟨b', hb', hshows⟩ : ∃ b',
        ((c.exec s).1.host.signalAll cs).arena.resolve t = some b' ∧
          b'.Shows (c.ownReports s.session ++ reportsTo t cs) := by
      refine ⟨_, ?_, Binding.shows_markAll (b.shows_rearm _) _⟩
      rw [Host.resolve_signalAll, hres']
      rfl
    refine ⟨b', hb', hshows, ?_⟩
    -- the session did not refuse what the engine speaks of, so only a later error can say it
    rcases c.reports_apart s.session with hnone | ⟨message, hsaid, hnone⟩
    · have hearly : s.host.engine.atOnce (c.engineReports s.session) = [] := by
        simp [Engine.atOnce, hnone]
      rw [hearly]
      exact iff_of_true hshows (.inl rfl)
    · rw [hnone] at hshows
      rw [hsaid, hnone, List.append_nil]
      by_cases hprompt : s.host.engine.prompt = true
      · have hearly : s.host.engine.atOnce [.failed message] = [.failed message] := if_pos hprompt
        rw [hearly]
        simpa using Binding.shows_failed_cons hshows message
      · have hearly : s.host.engine.atOnce [.failed message] = [] := if_neg hprompt
        rw [hearly]
        exact iff_of_true hshows (.inl rfl)

/-- An encoder whose end was reported. -/
def endedEncoder : World :=
  slow.run (encoderSetUp ++ [.command 0 .play, .callback ⟨1, .finished⟩])

/-- Media that the session refuses itself. -/
def refusedMedia : Command := .setup "\x00" 0 0

/-- The old end is forgotten, and the session's own refusal is not. -/
theorem refused_media_flagged : ∃ s' b,
    (endedEncoder.act 0 refusedMedia.exec).1.stage? 0 = some s' ∧ s'.binding = some b ∧
    b.endSeen = false ∧ b.errorSeen = true := by
  obtain ⟨s, hs⟩ :=
    Option.isSome_iff_exists.mp (by decide : (endedEncoder.stage? 0).isSome = true)
  have hown : refusedMedia.ownReports s.session =
      [.failed ("Invalid URI " ++ quoted "\x00")] := by
    simp [Command.ownReports, refusedMedia, Command.decoding?, Decoding.ownReports,
      Config.decoding, Stage.isUsable]
  obtain ⟨s', t, b, hs', ht, hb, -, -, hcs⟩ := flags_after_setup_iff (w := endedEncoder)
    ⟨slow, _, fresh_slow, rfl⟩ hs (c := refusedMedia) rfl rfl
  obtain ⟨b', hb', hshow, -⟩ := hcs []
  obtain rfl : b = b' := Option.some.inj (hb.symm.trans hb')
  rw [hown] at hshow
  refine ⟨s', b, hs', by simp [Stage.binding, ht, hb], ?_, ?_⟩
  · exact Bool.eq_false_iff.mpr fun h => by simpa [reportsTo] using hshow.ends.mp h
  · exact hshow.errors.mpr ⟨_, List.mem_cons_self⟩

/-- A session that is up. -/
def broughtUp : World :=
  slow.run [.newSession 0 1 {} (.outline ⟨1, 1⟩), .command 0 .bringUp]

/-- The same on an engine whose threads are prompt, or are not. -/
def paced (prompt : Bool) : World := broughtUp.run [.pace prompt]

/-- A file that the engine cannot open. -/
def unnamedResource : Command := .setup "clip.mp4" 0 0

/-- What the engine says of it. -/
def unopened : Event := .failed "Could not open resource clip.mp4"

/-- The setup succeeds and leaves no flag; the engine's error is on the queue or in flight. -/
theorem host_unnamedResource (prompt : Bool) :
    ((paced prompt).act 0 unnamedResource.exec).2 = some (.ok ()) ∧
    ((paced prompt).act 0 unnamedResource.exec).1.host.arena.resolve 1 =
      some { queue := 1, target := .session 0 } ∧
    (((paced prompt).act 0 unnamedResource.exec).1.host.queue 1).pending =
      (if prompt then [.deliver 1 unopened] else []) ∧
    ((paced prompt).act 0 unnamedResource.exec).1.host.inFlight =
      (if prompt then [] else [⟨1, unopened⟩]) := by
  obtain ⟨s, hs⟩ := Option.isSome_iff_exists.mp
    (by cases prompt <;> decide : ((paced prompt).stage? 0).isSome = true)
  obtain ⟨-, -, hh⟩ := stage?_eq_some.mp hs
  have husable : Stage.isUsable "clip.mp4" = true := by simp [Stage.isUsable]
  have hengine : unnamedResource.engineReports s.session = [unopened] := by
    simp [Command.engineReports, unnamedResource, Command.decoding?, Decoding.engineReports,
      Config.decoding, husable, Pipeline.namesResource, Pipeline.openFailure, unopened]
  have hown : unnamedResource.ownReports s.session = [] := by
    simp [Command.ownReports, unnamedResource, Command.decoding?, Decoding.ownReports,
      Config.decoding, husable]
  have hok : ((paced prompt).act 0 unnamedResource.exec).2 = some (.ok ()) := rfl
  have hup : ((paced prompt).stage? 0).map (·.session.wiring) =
      some (.up ⟨"session", 1⟩ 1) := rfl
  have hwire : ((paced prompt).host.engine.pipelines.get? 1).map Pipeline.wire =
      some (1, .all) := rfl
  have hb : (paced prompt).host.arena.resolve 1 =
      some { queue := 1, target := .session 0 } := rfl
  obtain ⟨p, hp, hpw⟩ := Option.map_eq_some_iff.mp hwire
  rw [hs] at hup
  rw [act_eq hs] at hok ⊢
  obtain ⟨hflags, hqueue, hflight⟩ := Stage.resolve_exec (Option.some.inj hup) (hh ▸ hb) (hh ▸ hp)
    hpw rfl (Option.some.inj hok)
  rw [hengine, hown] at hqueue
  rw [hengine] at hflight
  refine ⟨hok, ?_, ?_, ?_⟩
  · change (unnamedResource.exec s).1.host.arena.resolve 1 = _
    rw [hflags, hown]
    rfl
  · change ((unnamedResource.exec s).1.host.queue 1).pending = _
    rw [hqueue, hh]
    cases prompt <;> rfl
  · change (unnamedResource.exec s).1.host.inFlight = _
    rw [hflight, hh]
    cases prompt <;> rfl

/-- The setup succeeds.  If the engine's thread was prompt, its error is on the queue, and no flag
says it; if the thread comes later, the same error is flagged when it arrives. -/
theorem opening_failure_forgotten :
    (((paced true).act 0 unnamedResource.exec).2 = some (.ok ()) ∧
      (((paced true).act 0 unnamedResource.exec).1.host.queue 1).pending =
        [.deliver 1 unopened] ∧
      (((paced true).act 0 unnamedResource.exec).1.host.arena.resolve 1).map (·.errorSeen) =
        some false) ∧
    ((paced false).act 0 unnamedResource.exec).2 = some (.ok ()) ∧
    ((((paced false).act 0 unnamedResource.exec).1.apply (.arrive 0)).host.arena.resolve 1).map
      (·.errorSeen) = some true := by
  obtain ⟨hok, hb, hq, -⟩ := host_unnamedResource true
  obtain ⟨hok', hb', -, hflight⟩ := host_unnamedResource false
  refine ⟨⟨hok, hq, by rw [hb]; rfl⟩, hok', ?_⟩
  generalize ((paced false).act 0 unnamedResource.exec).1 = w at hb' hflight
  have harrive : (w.apply (.arrive 0)).host =
      { w.host with inFlight := w.host.inFlight.eraseIdx 0 }.signal ⟨1, unopened⟩ := by
    simp only [World.apply, onHost, Host.arrive, hflight]
    rfl
  rw [harrive, Host.resolve_signal, if_pos rfl]
  change ((w.host.arena.resolve 1).map _).map _ = _
  rw [hb']
  rfl

end World
end MediaHost
