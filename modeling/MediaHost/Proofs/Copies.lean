import MediaHost.Proofs.Slot

/-!
# Proofs — Copies

A copy of a frame to an image of any size, and the copies that a pipeline remembers.  The rows of
an image follow each other without gaps, so its surface has no byte outside it
(`PixelBuffer.stroke_lt`) and each byte belongs to one pixel: the pixels that frame and image have
in common take the frame's colour, and no other byte changes (`PixelBuffer.getElem?_paint`).  A
pipeline remembers the last 64 copies that had a frame, whatever else it was asked
(`Engine.remembers_after`).
-/

namespace MediaHost

namespace PixelBuffer
variable {b : PixelBuffer} {f : Frame} {s : Surface} {i : Nat} {c : UInt8}

/-- An image hands out a surface of its own size, and only if its rows have a length of 32 bits. -/
theorem of_surface (h : b.surface = .ok (some s)) :
    s = b.size.surface ∧ 4 * b.size.width.toNat < UInt32.size := by
  simp only [surface] at h
  split at h
  · cases h
  · split at h
    · next hwide =>
        cases h
        exact ⟨rfl, hwide⟩
    · cases h

theorem columns_le (f : Frame) (b : PixelBuffer) : f.columns b.size.surface ≤ b.size.width.toNat :=
  Nat.min_le_right _ _

/-- No byte is written outside the image. -/
theorem stroke_lt (hwide : 4 * b.size.width.toNat < UInt32.size)
    (h : (i, c) ∈ f.strokes b.size.surface) : i < b.size.bytes := by
  obtain ⟨y, hy, x, hx, k, hk, rfl, -⟩ := Frame.mem_strokes.mp h
  have hx : x < b.size.width.toNat := Nat.lt_of_lt_of_le hx (columns_le f b)
  have hy : y < b.size.height.toNat := Nat.lt_of_lt_of_le hy (Nat.min_le_right _ _)
  have hrow : (y + 1) * (4 * b.size.width.toNat) ≤ b.size.height.toNat * (4 * b.size.width.toNat) :=
    Nat.mul_le_mul_right _ hy
  rw [Nat.succ_mul] at hrow
  rw [Size.stride_toNat hwide]
  calc y * (4 * b.size.width.toNat) + (4 * x + k)
      < b.size.height.toNat * (4 * b.size.width.toNat) := by omega
    _ = b.size.bytes := by rw [Size.bytes]; ac_rfl

/-- The rectangle in common, in pixels. -/
theorem covers_iff (hwide : 4 * b.size.width.toNat < UInt32.size) :
    f.covers b.size.surface i = true ↔
      i / 4 / b.size.width.toNat < min f.size.height.toNat b.size.height.toNat ∧
        i / 4 % b.size.width.toNat < min f.size.width.toNat b.size.width.toNat := by
  simp only [Frame.covers, Size.stride_toNat hwide, Bool.and_eq_true, decide_eq_true_eq,
    ← Nat.div_div_eq_div_mul, Nat.mod_mul_right_div_self]
  rfl

theorem getElem?_paint (b : PixelBuffer) (f : Frame) (hwide : 4 * b.size.width.toNat < UInt32.size)
    (hi : i < b.size.bytes) : (b.paint f b.size.surface).bytes.toArray[i]? =
      if i / 4 / b.size.width.toNat < min f.size.height.toNat b.size.height.toNat ∧
          i / 4 % b.size.width.toNat < min f.size.width.toNat b.size.width.toNat then
        some (f.colour.channel (i % 4))
      else b.bytes.toArray[i]? := by
  have hstride := Size.stride_toNat hwide
  have hrow : 4 * f.columns b.size.surface ≤ b.size.surface.stride.toNat := by
    have := columns_le f b
    omega
  have hplace : i % b.size.surface.stride.toNat % 4 = i % 4 := by
    rw [hstride]
    exact Nat.mod_mod_of_dvd i (Nat.dvd_mul_right 4 _)
  have hget := Frame.getElem_paint hrow b.bytes hi
  rw [hplace] at hget
  have hsize (v : Vector UInt8 b.size.bytes) : v.toArray[i]? = some v[i] :=
    (Vector.getElem?_toArray ..).trans (Vector.getElem?_eq_getElem hi)
  rw [paint, hsize, hsize, hget]
  by_cases hcovers : f.covers b.size.surface i = true
  · rw [if_pos hcovers, if_pos ((covers_iff hwide).mp hcovers)]
  · rw [if_neg hcovers, if_neg (mt (covers_iff hwide).mpr hcovers)]

/-- One of the four bytes of a pixel. -/
def byteOf (b : PixelBuffer) (x y : UInt32) (k : Nat) : UInt8 :=
  b.bytes.toArray.getD ((y.toNat * b.size.width.toNat + x.toNat) * 4 + k) 0

theorem pixel?_of_lt {x y : UInt32} (h : x < b.size.width ∧ y < b.size.height) :
    b.pixel? x y = some ⟨b.byteOf x y 0, b.byteOf x y 1, b.byteOf x y 2, b.byteOf x y 3⟩ :=
  if_pos (by simpa using h)

theorem pixel?_of_not_lt {x y : UInt32} (h : ¬(x < b.size.width ∧ y < b.size.height)) :
    b.pixel? x y = none :=
  if_neg (by simpa using h)

/-- What a copy leaves of one byte of a pixel. -/
theorem byteOf_paint (b : PixelBuffer) (f : Frame) (hwide : 4 * b.size.width.toNat < UInt32.size)
    {x y : UInt32} (h : x < b.size.width ∧ y < b.size.height) {k : Nat} (hk : k < 4) :
    (b.paint f b.size.surface).byteOf x y k =
      if y.toNat < min f.size.height.toNat b.size.height.toNat ∧
          x.toNat < min f.size.width.toNat b.size.width.toNat then f.colour.channel k
      else b.byteOf x y k := by
  have hx : x.toNat < b.size.width.toNat := UInt32.lt_iff_toNat_lt.mp h.1
  have hpixel : ((y.toNat * b.size.width.toNat + x.toNat) * 4 + k) / 4 =
      b.size.width.toNat * y.toNat + x.toNat := by
    rw [Nat.mul_comm b.size.width.toNat]
    omega
  have hplace : ((y.toNat * b.size.width.toNat + x.toNat) * 4 + k) % 4 = k := by omega
  have hget := b.getElem?_paint f hwide (offset_lt h.1 h.2 hk)
  rw [hpixel, hplace, Nat.mul_add_div (by omega), Nat.div_eq_of_lt hx, Nat.add_zero,
    Nat.mul_add_mod, Nat.mod_eq_of_lt hx] at hget
  refine (Array.getD_eq_getD_getElem? ..).trans ((congrArg (·.getD 0) hget).trans ?_)
  rw [byteOf, Array.getD_eq_getD_getElem?]
  split <;> rfl

/-- What a copy leaves of a pixel. -/
theorem pixel?_paint (b : PixelBuffer) (f : Frame) (hwide : 4 * b.size.width.toNat < UInt32.size)
    (x y : UInt32) : (b.paint f b.size.surface).pixel? x y =
      if y.toNat < min f.size.height.toNat b.size.height.toNat ∧
          x.toNat < min f.size.width.toNat b.size.width.toNat then some f.colour
      else b.pixel? x y := by
  by_cases hin : x < b.size.width ∧ y < b.size.height
  · have hafter : x < (b.paint f b.size.surface).size.width ∧
        y < (b.paint f b.size.surface).size.height := hin
    have hbyte {k : Nat} (hk : k < 4) := b.byteOf_paint f hwide hin hk
    rw [pixel?_of_lt hin, pixel?_of_lt hafter, hbyte (by omega), hbyte (by omega),
      hbyte (by omega), hbyte (by omega)]
    split <;> rfl
  · have hafter : ¬(x < (b.paint f b.size.surface).size.width ∧
        y < (b.paint f b.size.surface).size.height) := hin
    have hout : ¬(y.toNat < min f.size.height.toNat b.size.height.toNat ∧
        x.toNat < min f.size.width.toNat b.size.width.toNat) := by
      rw [UInt32.lt_iff_toNat_lt, UInt32.lt_iff_toNat_lt] at hin
      omega
    rw [if_neg hout, pixel?_of_not_lt hin, pixel?_of_not_lt hafter]

end PixelBuffer

/-! ### The copies that are remembered -/

namespace Pipeline
variable {p : Pipeline} {l : List Blit}

/-- The pipeline remembers the last of these copies, as many as it can. -/
def Remembers (p : Pipeline) (l : List Blit) : Prop := p.blits = l.drop (l.length - blitHistory)

theorem Remembers.copied (h : p.Remembers l) (b : Blit) :
    p.copied b = (l ++ [b]).drop ((l ++ [b]).length - blitHistory) := by
  have hlen : p.blits.length = l.length - (l.length - blitHistory) := by rw [h, List.length_drop]
  have hdrop : (l ++ [b]).drop ((l ++ [b]).length - blitHistory) =
      l.drop (l.length + 1 - blitHistory) ++ [b] := by
    rw [List.length_append, List.length_singleton]
    exact List.drop_append_of_le_length (by simp only [blitHistory]; omega)
  rw [hdrop, Pipeline.copied]
  by_cases hfull : blitHistory ≤ p.blits.length
  · have hnext : l.length + 1 - blitHistory = (l.length - blitHistory) + 1 := by omega
    rw [if_pos hfull, h, List.drop_drop, hnext]
  · have hnone : l.length - blitHistory = 0 ∧ l.length + 1 - blitHistory = 0 := by omega
    rw [if_neg hfull, h, hnone.1, hnone.2]

end Pipeline

namespace Order
variable {o : Order} {p : Pipeline} {auto : Option AutoFrames} {l : List Blit}

/-- The copy that the order makes, if there is a frame to copy. -/
def copy? (p : Pipeline) : Order → Option Blit
  | .blit s => p.grabbed.map fun f => ⟨f.size, s.size⟩
  | _ => none

/-- A copy is remembered, and no order makes a pipeline forget one but to make room. -/
theorem remembers_effect (h : p.Remembers l) (o : Order) :
    (o.effect auto p).Remembers (l ++ (o.copy? p).toList) := by
  have hkept : p.Remembers (l ++ []) := by rwa [List.append_nil]
  cases o with
  | blit s =>
      cases hg : p.grabbed with
      | none =>
          simp only [effect, Pipeline.blit, copy?, hg, Option.map_none, Option.toList_none]
          exact hkept
      | some f =>
          rw [Pipeline.Remembers, effect, (Pipeline.blits_blit hg s).1, h.copied]
          simp only [copy?, hg, Option.map_some, Option.toList_some]
  | grab => exact (p.grab_spec auto).2.1.trans hkept
  | stopEncoding =>
      rcases p.stopEncoding_cases with ⟨-, -, -, hq⟩ | hq <;> simp only [effect, hq] <;>
        exact hkept
  | _ => exact hkept

end Order

/-- The copy of a frame of the pipeline `k` that the call makes, if any. -/
def Ask.copy? (k : Nat) (e : Engine) (a : Ask) : Option Blit :=
  (a.order? k).bind fun o => (e.pipelines.get? k).bind o.copy?

namespace Engine
variable {e : Engine} {a : Ask} {as : List Ask} {k : Nat} {p : Pipeline} {l : List Blit}

/-- The copies of frames of the pipeline `k` that the calls make, in their order. -/
def copies (k : Nat) : Engine → List Ask → List Blit
  | _, [] => []
  | e, a :: as => (a.copy? k e).toList ++ copies k (a.carry e).1 as

/-- A call makes its copy remembered. -/
theorem remembers_carry (hold : k < e.nextId) (hlive : a ≠ .destroy k)
    (hp : e.pipelines.get? k = some p) (h : p.Remembers l) :
    ∃ q, (a.carry e).1.pipelines.get? k = some q ∧ q.Remembers (l ++ (a.copy? k e).toList) := by
  have hcarry := (get?_carry hold hlive).1
  rw [hp, Option.map_some] at hcarry
  refine ⟨_, hcarry, ?_⟩
  rw [Ask.copy?, hp]
  cases a.order? k with
  | none => simpa [Pipeline.ordered] using h
  | some o => exact Order.remembers_effect h o

theorem remembers_after (hold : k < e.nextId) (hlive : .destroy k ∉ as)
    (hp : e.pipelines.get? k = some p) (h : p.Remembers l) :
    ∃ q, (e.after as).pipelines.get? k = some q ∧ q.Remembers (l ++ copies k e as) := by
  induction as generalizing e p l with
  | nil => exact ⟨p, hp, by rwa [copies, List.append_nil]⟩
  | cons a as ih =>
      have ha : a ≠ .destroy k := fun ha => hlive (ha ▸ List.mem_cons_self)
      obtain ⟨q, hq, hl⟩ := remembers_carry hold ha hp h
      rw [copies, ← List.append_assoc]
      exact ih (get?_carry hold ha).2 (fun hmem => hlive (List.mem_cons_of_mem a hmem)) hq hl

/-- A pipeline has no copies to remember when it is made. -/
theorem remembers_create {name : String} {callbacks : Callbacks} {userdata : Nat} {e₀ : Engine}
    (h : e₀.create name callbacks userdata = (e, some k)) :
    k < e.nextId ∧ ∃ p, e.pipelines.get? k = some p ∧ p.Remembers [] := by
  simp only [create] at h
  split at h
  · cases h
  · cases h
    exact ⟨Nat.lt_succ_self _, _, (Table.get?_set ..).trans (if_pos rfl), rfl⟩

/-- A copy of the frame that was grabbed last, to an image that has a surface, so that its rows have
a length of 32 bits: it leaves the engine as the copy leaves it and the image of the size that it
had.  Every byte is
written to where there is one, and what is left is told byte by byte and pixel by pixel: the
rectangle from the top left that frame and image have in common has the frame's colour, and the rest
is as it was.  From the making of a pipeline on, whatever the engine is asked, as long as the
pipeline is not destroyed, the pipeline remembers the last 64 of its copies of a frame in their
order, or all if they are fewer. -/
theorem copies_exact :
    (∀ (e : Engine) (k : Nat) (f : Frame) (b : PixelBuffer) (s : Surface),
      (e.pipelines.get? k).bind (·.grabbed) = some f → b.surface = .ok (some s) →
      (Image.pixels b).blit e k = .ok (.pixels (b.paint f s), (e.blit k s).1) ∧
      (b.paint f s).size = b.size ∧
      f.draw s Frame.write? (some b.bytes) = some (b.paint f s).bytes ∧
      (∀ i < b.size.bytes, (b.paint f s).bytes.toArray[i]? =
        if i / 4 / b.size.width.toNat < min f.size.height.toNat b.size.height.toNat ∧
            i / 4 % b.size.width.toNat < min f.size.width.toNat b.size.width.toNat then
          some (f.colour.channel (i % 4))
        else b.bytes.toArray[i]?) ∧
      ∀ x y : UInt32, (b.paint f s).pixel? x y =
        if y.toNat < min f.size.height.toNat b.size.height.toNat ∧
            x.toNat < min f.size.width.toNat b.size.width.toNat then some f.colour
        else b.pixel? x y) ∧
    ∀ (e₀ e : Engine) (name : String) (callbacks : Callbacks) (userdata k : Nat),
      e₀.create name callbacks userdata = (e, some k) → ∀ as, .destroy k ∉ as →
      ∃ p, (e.after as).pipelines.get? k = some p ∧ p.blits <:+ copies k e as ∧
        p.blits.length = min (copies k e as).length Pipeline.blitHistory := by
  refine ⟨fun e k f b s hf hs => ?_, fun e₀ e name callbacks userdata k hmade as hlive => ?_⟩
  · obtain ⟨rfl, hwide⟩ := PixelBuffer.of_surface hs
    refine ⟨?_, rfl, Frame.draw_write? b.bytes fun w hw => PixelBuffer.stroke_lt hwide hw,
      fun i hi => b.getElem?_paint f hwide hi, b.pixel?_paint f hwide⟩
    have hsurface : (Image.pixels b).surface = .ok (some b.size.surface) := hs
    simp only [Image.blit, hsurface, blit, hf]
    rfl
  · obtain ⟨hold, p, hp, hnew⟩ := remembers_create hmade
    obtain ⟨q, hq, hl⟩ := remembers_after hold hlive hp hnew
    refine ⟨q, hq, hl ▸ List.drop_suffix _ _, ?_⟩
    rw [hl, List.length_drop, List.nil_append]
    omega

/-- A frame that was grabbed, and copies of it. -/
def frameCopied (count : Nat) : List Ask :=
  [.order 1 (.push ⟨⟨3, 1⟩, ⟨255, 0, 0, 255⟩⟩), .order 1 .grab] ++
    List.replicate count (.order 1 (.blit ⟨⟨2, 2⟩, 8⟩))

/-- A frame that is wider and lower than the image gives its upper row the colour; of 70 copies 64
are remembered. -/
theorem frame_copied :
    ∃ e, ({} : Engine).create "clip" .all 1 = (e, some 1) ∧
      (∃ b s, (PixelBuffer.blank ⟨2, 2⟩).surface = .ok (some s) ∧
        (Image.pixels (.blank ⟨2, 2⟩)).blit (e.after (frameCopied 0)) 1 =
          .ok (.pixels b, ((e.after (frameCopied 0)).blit 1 s).1) ∧
        b.pixel? 1 0 = some ⟨255, 0, 0, 255⟩ ∧ b.pixel? 0 1 = some ⟨0, 0, 0, 0⟩) ∧
      ∃ p, (e.after (frameCopied 70)).pipelines.get? 1 = some p ∧ p.blits.length = 64 := by
  have hmade : ({} : Engine).create "clip" .all 1 =
      ((({} : Engine).create "clip" .all 1).1, some 1) := rfl
  have hlive : .destroy 1 ∉ frameCopied 70 := by simp [frameCopied]
  obtain ⟨hcopy, hkept⟩ := copies_exact
  obtain ⟨hblit, -, -, -, hpixel⟩ := hcopy
    ((({} : Engine).create "clip" .all 1).1.after (frameCopied 0)) 1
    ⟨⟨3, 1⟩, ⟨255, 0, 0, 255⟩⟩ (.blank ⟨2, 2⟩) ⟨⟨2, 2⟩, 8⟩ rfl rfl
  obtain ⟨p, hp, -, hlen⟩ := hkept _ _ _ _ _ _ hmade _ hlive
  exact ⟨_, hmade, ⟨_, _, rfl, hblit, (hpixel 1 0).trans rfl, (hpixel 0 1).trans rfl⟩,
    p, hp, hlen.trans rfl⟩

end Engine
end MediaHost
