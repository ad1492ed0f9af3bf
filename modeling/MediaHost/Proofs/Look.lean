import MediaHost.Engine.Handle

/-!
# Proofs — Look

What a look for a frame comes to.  Whatever the image, the look grabs once and copies once at most,
and it counts a frame exactly if it gets to the end of the copy (`Acquisition.outcome_poll`).
-/

namespace MediaHost

/-- A copy leaves the engine as it is, if there is nothing to copy to, or as the copy leaves it. -/
theorem Image.engine_blit {i i' : Image} {e e' : Engine} {k : Nat}
    (h : i.blit e k = .ok (i', e')) : e' = e ∨ ∃ surface, e' = (e.blit k surface).1 := by
  simp only [blit] at h
  cases hs : i.surface with
  | error o => simp [hs, Except.map] at h
  | ok surface =>
      simp only [hs, Except.map, Except.ok.injEq] at h
      cases surface with
      | none => exact .inl (congrArg Prod.snd h).symm
      | some surface =>
          refine .inr ⟨surface, ?_⟩
          simp only at h
          split at h <;> next hb =>
            rw [hb]
            exact (congrArg Prod.snd h).symm

namespace Acquisition
variable {a : Acquisition} {image : Image} {e : Engine} {k : Nat}

/-- What a look may come to. -/
inductive Outcome (a : Acquisition) (image : Image) (e : Engine) (k : Nat) : PollResult → Prop
  /-- There was no frame, or one without pixels. -/
  | idle : Outcome a image e k ⟨a, image, (e.grab k).1, (e.grab k).2.2, .idle⟩
  /-- The frame was too large, and the image may have its size now. -/
  | overflow (image' : Image) :
      Outcome a image e k ⟨a, image', (e.grab k).1, (e.grab k).2.2, .overflow⟩
  /-- The frame is in the image. -/
  | frame {e' : Engine} (image' : Image) (size : Size) (resized : Bool)
      (copied : e' = (e.grab k).1 ∨ ∃ surface, e' = ((e.grab k).1.blit k surface).1) :
      Outcome a image e k
        ⟨a.record size, image', e', (e.grab k).2.2, .frame size a.awaitingFirst resized⟩

theorem outcome_poll (a : Acquisition) (image : Image) (e : Engine) (k : Nat) :
    Outcome a image e k (a.poll image e k) := by
  rcases hgrab : e.grab k with ⟨e', size, cs⟩
  simp only [poll, hgrab]
  obtain rfl : (e.grab k).1 = e' := congrArg Prod.fst hgrab
  obtain rfl : (e.grab k).2.2 = cs := congrArg (·.2.2) hgrab
  cases size with
  | none => exact .idle
  | some size =>
      simp only
      split
      · exact .idle
      · split
        · exact .overflow image
        · next image' _ =>
            split
            · exact .overflow image'
            · next hblit => exact .frame _ size _ (Image.engine_blit hblit)

theorem callbacks_poll (a : Acquisition) (image : Image) (e : Engine) (k : Nat) :
    (a.poll image e k).callbacks = (e.grab k).2.2 := by
  have h := outcome_poll a image e k
  generalize a.poll image e k = r at h
  cases h <;> rfl

/-- A look that counts no frame leaves the account of frames alone. -/
theorem poll_uncounted (h : ∀ size first resized,
    (a.poll image e k).poll ≠ .frame size first resized) : (a.poll image e k).acquisition = a := by
  have hr := outcome_poll a image e k
  generalize a.poll image e k = r at h hr
  cases hr with
  | idle | overflow => rfl
  | frame image' size resized => exact absurd rfl (h size a.awaitingFirst resized)

theorem poll_frame {size : Size} {first resized : Bool}
    (h : (a.poll image e k).poll = .frame size first resized) :
    first = a.awaitingFirst ∧ (a.poll image e k).acquisition = a.record size := by
  have hr := outcome_poll a image e k
  generalize a.poll image e k = r at h hr
  cases hr with
  | idle | overflow => cases h
  | frame image' size resized =>
      cases h
      exact ⟨rfl, rfl⟩

end Acquisition
end MediaHost
