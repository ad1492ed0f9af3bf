import MediaHost.Proofs.Course
import MediaHost.Proofs.Deeds

/-!
# Proofs — FirstFrame

With which frames the start observers are called.  Only ticks call them (`World.starts_apply`),
and a tick does so with a frame that counts as the first one; that is one before which the last
cue was no frame (`World.Remembers`).  So they are called with the first frame after every start,
and with the first frame after every setup as well, whether or not the new media was started
(`World.starts_owed_iff`).
-/

namespace MediaHost

/-- The observer's label and the number of its call, if the call is for a first frame. -/
def Happening.start? : Happening → Option (String × Nat)
  | .observed label n .started => some (label, n)
  | _ => none

theorem Happening.start?_of_isStart {x : Happening} (h : x.isStart = false) : x.start? = none := by
  cases x with
  | observed label n occasion =>
      cases occasion with
      | started => cases h
      | event e => rfl
  | _ => rfl

/-- The calls of start observers so far, oldest first. -/
def Host.starts (a : Host) : List (String × Nat) := a.happenings.toList.filterMap Happening.start?

namespace Host
variable {r : Reach} {a b : Host}

theorem starts_record (a : Host) (x : Happening) :
    (a.record x).starts = a.starts ++ x.start?.toList := by
  simp only [starts, record, Array.toList_push, List.filterMap_append]
  cases hx : x.start? <;> simp [hx]

theorem happenings_signal (a : Host) (x : Callback) : (a.signal x).happenings = a.happenings := by
  simp only [signal]
  split <;> rfl

/-- What sessions do to the host is no happening. -/
theorem Deed.happenings (hd : Deed r a b) : b.happenings = a.happenings := by
  cases hd with
  | signal x _ => exact happenings_signal a x
  | _ => rfl

/-- Nothing that a command does is recorded. -/
theorem Deeds.starts (hd : Deeds r a b) : b.starts = a.starts :=
  hd.preserves (P := fun c => c.starts = a.starts)
    (fun _ _ h hc => by rw [Host.starts, h.happenings]; exact hc) rfl

end Host

/-- A frame that counts as the first one. -/
def Poll.isFirst : Poll → Bool
  | .idle | .overflow => false
  | .frame _ first _ => first

theorem Stage.observers_pull (h : Handle) (s : Stage) :
    (pull h s).1.session.observers = s.session.observers := by
  obtain ⟨_, _, _, hs⟩ := session_pull h s
  rw [hs]

namespace Flow
variable {f f' : Flow} {l ls : List Cue}

/-- The next frame does not count as the first one exactly if the last cue was a frame. -/
def Recalls (f : Flow) (l : List Cue) : Prop :=
  f.frames.awaitingFirst = false ↔ l.getLast? = some .frame

/-- A step remembers the cue that it gives. -/
theorem Step.recalls (h : Step f ls f') (hf : f.Recalls l) : f'.Recalls (l ++ ls) := by
  cases h with
  | setup => simp [Recalls]
  | play hp => simp [Recalls, Acquisition.rearm]
  | frame size => simp [Recalls, Acquisition.record]
  | rest hp e => simpa [Recalls] using hf
  | limitLater limit hlater => simpa [Recalls] using hf
  | limitNow limit => simpa [Recalls] using hf

theorem Course.recalls (h : Course f ls f') (hf : f.Recalls l) : f'.Recalls (l ++ ls) := by
  induction h generalizing l with
  | refl => simpa using hf
  | more h _ ih =>
      rw [← List.append_assoc]
      exact ih (h.recalls hf)

end Flow

/-! ### Queued work -/

namespace World
variable {w w' w₀ : World} {i : Nat} {s : Stage} {l : List Cue}

/-- The same calls of start observers. -/
def Hushed (w w' : World) : Prop := w'.host.starts = w.host.starts

theorem hushed_modifySession (w : World) (j : Nat) (f : Session → Session) :
    Hushed w (w.modifySession j f) := rfl

/-- Programs start no clip. -/
theorem lenient_hushed : Lenient Hushed where
  refl _ := rfl
  trans h₁ h₂ := h₂.trans h₁
  record w x hx := by
    refine (Host.starts_record w.host x).trans ?_
    rw [Happening.start?_of_isStart hx]
    exact List.append_nil _
  note _ _ _ := rfl
  submit _ _ _ := rfl
  close _ _ := rfl

/-- Nor do events. -/
theorem reacts_hushed (j : Nat) : Reacts Hushed j where
  observers w _ := hushed_modifySession w j _
  account w _ := hushed_modifySession w j _
  loopBack w := by
    simp only [loopBack]
    split
    · rfl
    · split
      · split <;> rfl
      · rfl
  stopFailed w := by
    simp only [stopFailed]
    split
    · rfl
    · split
      · split <;> exact hushed_modifySession _ j _
      · rfl

/-- So a drain starts none. -/
theorem hushed_drain (w : World) (q : Nat) : Hushed w (drain w q).1 :=
  lenient_hushed.drain reacts_hushed (fun _ _ _ => rfl) w q

/-- What calling the start observers of a session leaves behind. -/
def startCalls (i : Nat) (w : World) : List (String × Nat) :=
  (observersOf i w).start.map fun o => (o.label, o.calls + 1)

/-- Every observer of the start is called, and recorded with its label. -/
theorem starts_callAll (os : List Observer) (w : World) :
    (Observers.callAll (callObserver drain .started) os w).2.host.starts =
      w.host.starts ++ os.map fun o => (o.label, o.calls + 1) := by
  induction os generalizing w with
  | nil => exact (List.append_nil _).symm
  | cons o os ih =>
      have hcalled : (callObserver drain .started o w).2.host.starts = _ :=
        lenient_hushed.called hushed_drain .started o w
      have hrecord := Host.starts_record w.host (.observed o.label (o.calls + 1) .started)
      change (Observers.callAll _ os (callObserver drain .started o w).2).2.host.starts = _
      rw [ih, hcalled]
      change (w.host.record _).starts ++ _ = _
      rw [hrecord, List.append_assoc]
      rfl

/-- All that are registered when it starts are called. -/
theorem starts_notify (i : Nat) (w : World) :
    (notify drain i .started w).host.starts = w.host.starts ++ startCalls i w := by
  change (Observers.callAll (callObserver drain .started)
    (observersOf i w).start _).2.host.starts = _
  exact starts_callAll _ _

/-! ### Ticks -/

/-- After its look for a frame a tick calls the start observers if the frame is the first one, and
then runs the queue, which calls none. -/
theorem starts_of_look {frame : Poll}
    (hlook : w.act i (·.withLive Stage.pull) = (w', some (.ok frame))) :
    (w.advance i).1.host.starts =
      w'.host.starts ++ if frame.isFirst then startCalls i w' else [] := by
  cases frame with
  | overflow =>
      simp only [advance, hlook]
      exact (List.append_nil _).symm
  | idle =>
      simp only [advance, hlook]
      exact (hushed_drain _ _).trans (List.append_nil _).symm
  | frame size first resized =>
      cases first with
      | false =>
          simp only [advance, hlook]
          exact (hushed_drain _ _).trans (List.append_nil _).symm
      | true =>
          simp only [advance, hlook]
          exact (hushed_drain _ _).trans (starts_notify i _)

/-- A tick calls the start observers with a frame that is the first one, and not otherwise. -/
theorem starts_tick (hw : w.Sound) (hs : w.stage? i = some s) :
    (∃ e, w.advance i = (w, some (.error e))) ∨
    ∃ h, s.session.live = .ok h ∧
      (w.advance i).1.host.starts =
        w.host.starts ++ if (Stage.pull h s).2.isFirst then startCalls i w else [] := by
  rcases look_cases hs with ⟨e, hlook⟩ | ⟨h, hl, hlook⟩
  · exact .inl ⟨e, by simp only [advance, hlook]⟩
  · obtain ⟨hi, hget, hh⟩ := stage?_eq_some.mp hs
    have hp := (Stage.live_eq_ok.mp hl).2
    have hput : (w.put (Stage.pull h s).1).host.starts = w.host.starts := by
      have hd := (Stage.deeds_pull (Stage.within_reach (hw.attached hs)) hp).starts
      rwa [hh] at hd
    have hcalls : startCalls i (w.put (Stage.pull h s).1) = startCalls i w := by
      have hindex := (Stage.keeps_pull s hp).index.trans hi
      simp only [startCalls, observersOf, put, Table.get?_set, hindex, if_true, hget,
        Option.map_some, Option.getD_some, Stage.observers_pull]
    have hstarts := starts_of_look hlook
    rw [hput, hcalls] at hstarts
    exact .inr ⟨h, hl, hstarts⟩

/-! ### What was seen of the media -/

/-- What an observer of the actions `as` has seen of the media of session `i`, if he saw `l` before;
a session that is made anew has no past. -/
def story (w : World) (i : Nat) (l : List Cue) : List Action → List Cue
  | [] => l
  | a :: as =>
    story (w.apply a) i (if (w.sessions.get? i).isNone then [] else l ++ w.cues i a) as

/-- The story of a run is that of its parts. -/
theorem story_append (w : World) (i : Nat) (l : List Cue) (as bs : List Action) :
    w.story i l (as ++ bs) = (w.run as).story i (w.story i l as) bs := by
  induction as generalizing w l with
  | nil => rfl
  | cons a as ih => exact ih _ _

/-- What was seen of the media says whether the next frame counts as the first one. -/
def Remembers (w : World) (i : Nat) (l : List Cue) : Prop :=
  ∀ s, w.stage? i = some s → s.flow.Recalls l

/-- Every action adds its cues to what is remembered. -/
theorem Remembers.apply (hw : w.Sound) (hr : w.Remembers i l) (a : Action) :
    (w.apply a).Remembers i (if (w.sessions.get? i).isNone then [] else l ++ w.cues i a) := by
  intro s' hs'
  rcases stage_of_apply hw hs' with ⟨s, hs, hcourse⟩ | ⟨q, config, image, hn, -, hnew⟩
  · have hget := (stage?_eq_some.mp hs).2.1
    rw [hget]
    exact hcourse.recalls (hr s hs)
  · rw [hn]
    simp [Flow.Recalls, Stage.flow, hnew, Session.new]

/-- A run adds those of all its actions. -/
theorem Remembers.run (hw : w.Sound) (hr : w.Remembers i l) (as : List Action) :
    (w.run as).Remembers i (w.story i l as) := by
  induction as generalizing w l with
  | nil => exact hr
  | cons a as ih => exact ih (hw.apply a).sound (hr.apply hw a)

theorem Fresh.remembers (hw : w.Fresh) (i : Nat) : w.Remembers i [] := by
  intro s hs
  have hget := (stage?_eq_some.mp hs).2.1
  rw [hw.sessions] at hget
  cases hget

/-! ### Runs -/

/-- Only ticks call the start observers. -/
theorem starts_apply (hw : w.Sound) {a : Action} (ha : ∀ j, a ≠ .tick j) :
    (w.apply a).host.starts = w.host.starts := by
  have hexec : ∀ {j : Nat} {x : Stage}, w.stage? j = some x → ∀ c : Command,
      (c.exec x).1.host.starts = w.host.starts := by
    intro j x hx c
    have hd := (Stage.deeds_exec (hw.attached hx) (Stage.within_reach (hw.attached hx))
      (hw.late hx) c).starts
    rwa [(stage?_eq_some.mp hx).2.2] at hd
  cases a with
  | newSession j q config image =>
      simp only [apply]
      split <;> rfl
  | command j c =>
      simp only [apply, act]
      split
      · rfl
      · next x hx => exact hexec hx c
  | tick j => exact absurd rfl (ha j)
  | drop j =>
      simp only [apply, drop]
      split
      · rfl
      · next x hx => exact hexec hx .destroy
  | drain q => exact hushed_drain w q
  | callback c => exact (Host.Deeds.one (.signal (r := Reach.all) w.host c (.inl trivial))).starts
  | arrive n => exact (Host.deeds_arrive (r := .all) w.host fun _ _ => trivial).starts
  | settle => exact (Host.deeds_settle w.host).starts
  | addRef => exact (Host.deeds_addRef (r := .all) w.host).starts
  | releaseRef => exact (Host.deeds_releaseRef (r := .all) w.host).starts
  | _ => rfl

/-- A tick calls the start observers with a frame, unless the last thing seen of the media is a
frame already. -/
theorem starts_advance (hw : w.Sound) (hr : w.Remembers i l) :
    (w.advance i).1.host.starts = w.host.starts ++
      if w.cues i (.tick i) ≠ [] ∧ l.getLast? ≠ some .frame then startCalls i w else [] := by
  cases hs : w.stage? i with
  | none =>
      have hgone : w.advance i = (w, none) := by simp only [advance, act, hs]
      simp [cues, hgone]
  | some s =>
      rcases starts_tick hw hs with ⟨e, he⟩ | ⟨h, hl, hstarts⟩
      · simp [cues, he]
      · have hcues := cues_tick hs hl
        have hlast : s.session.frames.awaitingFirst = false ↔ l.getLast? = some .frame := hr s hs
        have hcalls : (Stage.pull h s).2.isFirst = true ↔
            w.cues i (.tick i) ≠ [] ∧ l.getLast? ≠ some .frame := by
          rw [hcues]
          cases hframe : (Stage.pull h s).2 with
          | idle | overflow => simp [Poll.isFirst, Poll.cues]
          | frame size first resized =>
              obtain ⟨rfl, -⟩ := Stage.pull_frame hframe
              simp [Poll.isFirst, Poll.cues, ← hlast]
        simp only [hstarts, hcalls]

/-- The calls that a tick owes to the start observers, if they are due with the first frame after
every start of the media and with no other. -/
def owed (w : World) (i : Nat) (l : List Cue) : List (String × Nat) :=
  if w.cues i (.tick i) ≠ [] ∧ l.getLast? = some .play then startCalls i w else []

/-- In every run the start observers are called with the first frame after a setup or a start.
They are called as is due, unless there are any, a frame is delivered, and neither a start nor a
frame came after the last setup. -/
theorem starts_owed_iff (h₀ : Fresh w₀) (as : List Action) :
    (∀ a, (∀ j, a ≠ .tick j) → (w₀.run (as ++ [a])).host.starts = (w₀.run as).host.starts) ∧
    ∀ i, ((w₀.run (as ++ [.tick i])).host.starts = (w₀.run as).host.starts ++
        if (w₀.run as).cues i (.tick i) ≠ [] ∧ (w₀.story i [] as).getLast? ≠ some .frame then
          startCalls i (w₀.run as)
        else []) ∧
      ((w₀.run (as ++ [.tick i])).host.starts =
          (w₀.run as).host.starts ++ (w₀.run as).owed i (w₀.story i [] as) ↔
        (w₀.run as).cues i (.tick i) = [] ∨ (w₀.story i [] as).getLast? = some .play ∨
          (w₀.story i [] as).getLast? = some .frame ∨ startCalls i (w₀.run as) = []) := by
  have hsound := h₀.sound.run as
  have hstep : ∀ a, w₀.run (as ++ [a]) = (w₀.run as).apply a := fun a => run_append w₀ as [a]
  refine ⟨fun a ha => ?_, fun i => ?_⟩
  · rw [hstep]
    exact starts_apply hsound ha
  · have htick := starts_advance hsound ((h₀.remembers i).run h₀.sound as)
    rw [hstep]
    refine ⟨htick, ?_⟩
    change ((w₀.run as).advance i).1.host.starts = _ ↔ _
    rw [htick, List.append_cancel_left_eq, owed]
    generalize (w₀.story i [] as).getLast? = last
    -- what is done and what is owed differ only after a setup that nothing followed
    by_cases hframe : (w₀.run as).cues i (.tick i) = []
    · simp [hframe]
    · by_cases hplay : last = some .play
      · simp [hplay, hframe]
      · by_cases hseen : last = some .frame
        · simp [hseen]
        · simp [hframe, hplay, hseen]

/-- A session with a clip set up, and a start observer. -/
def watchedClip : List Action :=
  [.newSession 0 1 {} (.outline ⟨1, 1⟩), .command 0 .bringUp,
    .command 0 (.setup "file:///clip.mp4" 0 0), .command 0 (.observe .start "picture" [])]

/-- A frame of the clip is ready. -/
def frameReady : Action := .push 1 ⟨⟨1, 1⟩, default⟩

theorem run_watchedClip : slow.run watchedClip =
    clip.run [.command 0 (.observe .start "picture" [])] := rfl

/-- The observer is called with the first frame after the start. -/
theorem started_clip_announced :
    (slow.run (watchedClip ++ [.command 0 .play, frameReady] ++ [.tick 0])).host.starts =
      [("picture", 1)] := by
  have hstory : (slow.story 0 [] (watchedClip ++ [.command 0 .play, frameReady])).getLast? =
      some .play := by
    have hthere : ((slow.run watchedClip).sessions.get? 0).isNone = false ∧
        (((slow.run watchedClip).apply (.command 0 .play)).sessions.get? 0).isNone = false := by
      rw [run_watchedClip, clip_eq]
      decide +kernel
    have hplay : (slow.run watchedClip).cues 0 (.command 0 .play) = [.play] := by
      rw [run_watchedClip, clip_eq]
      decide +kernel
    have hpush : ∀ w : World, w.cues 0 frameReady = [] := fun _ => rfl
    rw [story_append]
    simp [story, hthere.1, hthere.2, hplay, hpush]
  have hnow : (slow.run (watchedClip ++ [.command 0 .play, frameReady])).host.starts = [] ∧
      (slow.run (watchedClip ++ [.command 0 .play, frameReady])).cues 0 (.tick 0) ≠ [] ∧
      startCalls 0 (slow.run (watchedClip ++ [.command 0 .play, frameReady])) =
        [("picture", 1)] := by
    rw [run_append, run_watchedClip, clip_eq]
    decide +kernel
  obtain ⟨hcalls, -⟩ :=
    (starts_owed_iff fresh_slow (watchedClip ++ [.command 0 .play, frameReady])).2 0
  rw [hcalls, hstory, hnow.1, hnow.2.2]
  simp [hnow.2.1]

/-- The clip is never started, and the observer is called with its first frame all the same. -/
theorem unstarted_clip_announced :
    ((slow.run (watchedClip ++ [frameReady])).stage? 0).map (·.session.phase) =
      some .configured ∧
    (slow.run (watchedClip ++ [frameReady])).host.starts = [] ∧
    (slow.run (watchedClip ++ [frameReady] ++ [.tick 0])).host.starts = [("picture", 1)] := by
  rw [run_append slow (watchedClip ++ [frameReady]), run_append, run_watchedClip, clip_eq]
  decide +kernel

end World
end MediaHost
