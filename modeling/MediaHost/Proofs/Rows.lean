import MediaHost.Proofs.Canvas

/-!
# Proofs — Rows

The header that an image hands out, against the image's own reading of its pixels.  An image counts
its bytes in 64 bits, which is enough for all of them (`PixelBuffer.offset_toNat`), and no two
pixels share one (`PixelBuffer.offset_disjoint`).  The header's rows have a length of 32 bits, so
there is one, and it describes the same bytes, exactly if a row fits in that
(`PixelBuffer.surface_describes_iff`).
-/

namespace MediaHost

/-- Where the header puts the bytes of a pixel. -/
def Surface.offset (s : Surface) (x y : UInt32) : UInt64 :=
  y.toUInt64 * s.stride.toUInt64 + 4 * x.toUInt64

theorem Size.pos_of_bytes {s : Size} (h : 0 < s.bytes) :
    0 < s.width.toNat ∧ 0 < s.height.toNat := by
  have hmul := Nat.pos_of_mul_pos_right h
  exact ⟨Nat.pos_of_mul_pos_right hmul, Nat.pos_of_mul_pos_left hmul⟩

namespace PixelBuffer
variable {b : PixelBuffer} {x y x' y' : UInt32} {k k' : Nat}

/-- A pixel of the image. -/
structure Has (b : PixelBuffer) (x y : UInt32) : Prop where
  column : x < b.size.width
  row : y < b.size.height

/-- Where the image reads the bytes of a pixel. -/
def offset (b : PixelBuffer) (x y : UInt32) : UInt64 :=
  (y.toUInt64 * b.size.width.toUInt64 + x.toUInt64) * 4

theorem offset_toNat (hfits : b.size.bytes < UInt64.size) (h : b.Has x y) :
    (b.offset x y).toNat = (y.toNat * b.size.width.toNat + x.toNat) * 4 := by
  have hlt := Nat.lt_trans (offset_lt h.column h.row (k := 0) (by decide)) hfits
  rw [UInt64.size] at hlt
  simp only [offset, UInt64.toNat_mul, UInt64.toNat_add, UInt32.toNat_toUInt64]
  rw [Nat.mod_eq_of_lt (a := y.toNat * _) (by omega),
    Nat.mod_eq_of_lt (a := _ + x.toNat) (by omega)]
  exact Nat.mod_eq_of_lt hlt

theorem offset_lt_size (hfits : b.size.bytes < UInt64.size) (h : b.Has x y) (hk : k < 4) :
    (b.offset x y).toNat + k < b.bytes.toArray.size := by
  rw [offset_toNat hfits h, Vector.size_toArray]
  exact offset_lt h.column h.row hk

/-- The bytes of two pixels are apart. -/
theorem offset_disjoint (hfits : b.size.bytes < UInt64.size) (h : b.Has x y) (h' : b.Has x' y')
    (hne : (x, y) ≠ (x', y')) (hk : k < 4) (hk' : k' < 4) :
    (b.offset x y).toNat + k ≠ (b.offset x' y').toNat + k' := by
  rw [offset_toNat hfits h, offset_toNat hfits h']
  intro heq
  have hplace : y.toNat * b.size.width.toNat + x.toNat =
      y'.toNat * b.size.width.toNat + x'.toNat := by omega
  have hx : x.toNat < b.size.width.toNat := UInt32.lt_iff_toNat_lt.mp h.column
  have hx' : x'.toNat < b.size.width.toNat := UInt32.lt_iff_toNat_lt.mp h'.column
  have hcolumn := congrArg (· % b.size.width.toNat) hplace
  simp only [Nat.mul_add_mod_self_right, Nat.mod_eq_of_lt hx, Nat.mod_eq_of_lt hx'] at hcolumn
  rw [hcolumn] at hplace
  have hrow := Nat.eq_of_mul_eq_mul_right (Nat.zero_lt_of_lt hx') (Nat.add_right_cancel hplace)
  exact hne (Prod.ext (UInt32.toNat_inj.mp hcolumn) (UInt32.toNat_inj.mp hrow))

/-- A pixel is read from its own four bytes. -/
theorem pixel?_eq (hfits : b.size.bytes < UInt64.size) (h : b.Has x y) :
    ∃ c, b.pixel? x y = some c ∧
      ∀ k < 4, b.bytes.toArray[(b.offset x y).toNat + k]? = some (c.channel k) := by
  have hin : (x < b.size.width && y < b.size.height) = true :=
    Bool.and_eq_true_iff.mpr ⟨decide_eq_true h.column, decide_eq_true h.row⟩
  refine ⟨_, if_pos hin, fun k hk => ?_⟩
  have hget : b.bytes.toArray[(b.offset x y).toNat + k]? =
      some (b.bytes.toArray.getD ((b.offset x y).toNat + k) 0) := by
    rw [Array.getD_eq_getD_getElem?, Array.getElem?_eq_getElem (offset_lt_size hfits h hk),
      Option.getD_some]
  rw [hget, offset_toNat hfits h]
  match k with
  | 0 | 1 | 2 | 3 => rfl

/-! ### What the header describes -/

/-- The header and the image agree on the bytes: each pixel is at the same place, apart from all
others and inside, and the rows are all there is. -/
structure Described (b : PixelBuffer) (s : Surface) : Prop where
  offset_eq : ∀ x y, b.Has x y → s.offset x y = b.offset x y
  disjoint : ∀ x y x' y', b.Has x y → b.Has x' y' → (x, y) ≠ (x', y') →
    ∀ k < 4, ∀ k' < 4, (s.offset x y).toNat + k ≠ (s.offset x' y').toNat + k'
  inside : ∀ x y, b.Has x y → ∀ k < 4, (s.offset x y).toNat + k < b.bytes.toArray.size
  rows : s.stride.toNat * s.size.height.toNat = b.bytes.toArray.size

theorem surface_offset_toNat (hfits : b.size.bytes < UInt64.size) (h : b.Has x y)
    (hwide : 4 * b.size.width.toNat < UInt32.size) : b.size.surface.offset x y = b.offset x y := by
  have hplace := offset_toNat hfits h
  have hlt := Nat.lt_trans (offset_lt h.column h.row (k := 0) (by decide)) hfits
  rw [UInt64.size] at hlt
  have hmul : y.toNat * (4 * b.size.width.toNat) = 4 * (y.toNat * b.size.width.toNat) :=
    Nat.mul_left_comm ..
  refine UInt64.toNat_inj.mp ?_
  rw [hplace]
  simp only [Surface.offset, UInt64.toNat_add, UInt64.toNat_mul, UInt32.toNat_toUInt64,
    Size.stride_toNat hwide, hmul, UInt64.toNat_ofNat]
  omega

theorem stride_eq (b : PixelBuffer) :
    b.size.surface.stride.toNat = b.size.width.toNat * 4 % UInt32.size :=
  UInt32.toNat_mul ..

/-- A row length that wraps makes the rows shorter than the image. -/
theorem rows_iff (hpos : 0 < b.size.bytes) :
    b.size.surface.stride.toNat * b.size.height.toNat = b.bytes.toArray.size ↔
      4 * b.size.width.toNat < UInt32.size := by
  obtain ⟨-, hheight⟩ := Size.pos_of_bytes hpos
  rw [Vector.size_toArray, Size.bytes, Nat.mul_right_comm, stride_eq, UInt32.size]
  refine ⟨fun h => ?_, fun h => ?_⟩
  · have := Nat.eq_of_mul_eq_mul_right hheight h
    omega
  · rw [Nat.mod_eq_of_lt (by omega)]

/-- It also moves all rows but the first. -/
theorem offsets_iff (hpos : 0 < b.size.bytes) (hfits : b.size.bytes < UInt64.size) :
    (∀ x y, b.Has x y → b.size.surface.offset x y = b.offset x y) ↔
      4 * b.size.width.toNat < UInt32.size ∨ b.size.height = 1 := by
  refine ⟨fun h => ?_, fun hcase x y hin => ?_⟩
  · by_cases hone : b.size.height = 1
    · exact .inr hone
    · refine .inl ?_
      obtain ⟨hw, hh⟩ := Size.pos_of_bytes hpos
      have hone : b.size.height.toNat ≠ 1 := fun h => hone (UInt32.toNat_inj.mp h)
      have hsecond : b.Has 0 1 :=
        ⟨UInt32.lt_iff_toNat_lt.mpr hw, UInt32.lt_iff_toNat_lt.mpr (by omega : 1 < _)⟩
      have heq := congrArg UInt64.toNat (h 0 1 hsecond)
      rw [offset_toNat hfits hsecond, Surface.offset] at heq
      simp only [UInt64.toNat_add, UInt64.toNat_mul, UInt32.toNat_toUInt64, stride_eq,
        UInt32.toNat_one, UInt32.toNat_zero, UInt64.toNat_ofNat, UInt32.size] at heq ⊢
      omega
  · rcases hcase with hwide | hone
    · exact surface_offset_toNat hfits hin hwide
    · have hy : y.toNat = 0 := by
        have := UInt32.lt_iff_toNat_lt.mp hin.row
        rw [hone] at this
        exact Nat.lt_one_iff.mp this
      have hx := x.toNat_lt
      refine UInt64.toNat_inj.mp ?_
      rw [offset_toNat hfits hin, Surface.offset]
      simp only [UInt64.toNat_add, UInt64.toNat_mul, UInt32.toNat_toUInt64, hy, Nat.zero_mul,
        UInt64.toNat_ofNat]
      omega

/-- The header of an image whose rows have a length of 32 bits describes it. -/
theorem described (hpos : 0 < b.size.bytes) (hfits : b.size.bytes < UInt64.size)
    (hwide : 4 * b.size.width.toNat < UInt32.size) : b.Described b.size.surface := by
  have heq : ∀ {x y}, b.Has x y → b.size.surface.offset x y = b.offset x y := fun h =>
    surface_offset_toNat hfits h hwide
  refine ⟨fun _ _ => heq, fun x y x' y' h h' hne k hk k' hk' => ?_, fun x y h k hk => ?_,
    (rows_iff hpos).mpr hwide⟩
  · rw [heq h, heq h']
    exact offset_disjoint hfits h h' hne hk hk'
  · rw [heq h]
    exact offset_lt_size hfits h hk

theorem surface_of_wide (hpos : 0 < b.size.bytes) (hwide : ¬4 * b.size.width.toNat < UInt32.size) :
    b.surface = .error .overflow :=
  (if_neg (Nat.ne_of_gt hpos)).trans (if_neg hwide)

/-- Every image that has bytes reads its pixels from bytes that are inside it and that no two pixels
share.  It hands out a header, and one that describes the same bytes, exactly if a row has a length
of 32 bits; in a wider image the length of a row overflows.  What would be left of that length makes
the rows too short, and in an image with more than one row puts pixels elsewhere. -/
theorem surface_describes_iff (b : PixelBuffer) (hpos : 0 < b.size.bytes)
    (hfits : b.size.bytes < UInt64.size) :
    (∀ x y, b.Has x y → ∃ c, b.pixel? x y = some c ∧
      ∀ k < 4, b.bytes.toArray[(b.offset x y).toNat + k]? = some (c.channel k)) ∧
    (∀ x y x' y', b.Has x y → b.Has x' y' → (x, y) ≠ (x', y') → ∀ k < 4, ∀ k' < 4,
      (b.offset x y).toNat + k ≠ (b.offset x' y').toNat + k') ∧
    ((∃ s, b.surface = .ok (some s) ∧ s.size = b.size ∧ b.Described s) ↔
      4 * b.size.width.toNat < UInt32.size) ∧
    (b.surface = .error .overflow ↔ UInt32.size ≤ 4 * b.size.width.toNat) ∧
    (b.Described b.size.surface ↔ 4 * b.size.width.toNat < UInt32.size) ∧
    ((∀ x y, b.Has x y → b.size.surface.offset x y = b.offset x y) ↔
      4 * b.size.width.toNat < UInt32.size ∨ b.size.height = 1) := by
  refine ⟨fun _ _ => pixel?_eq hfits,
    fun _ _ _ _ h h' hne _ hk _ hk' => offset_disjoint hfits h h' hne hk hk', ?_, ?_,
    ⟨fun h => (rows_iff hpos).mp h.rows, described hpos hfits⟩, offsets_iff hpos hfits⟩
  · by_cases hwide : 4 * b.size.width.toNat < UInt32.size
    · exact iff_of_true ⟨_, surface_of_narrow hpos hwide, rfl, described hpos hfits hwide⟩ hwide
    · refine iff_of_false ?_ hwide
      rintro ⟨s, hs, -⟩
      cases hs.symm.trans (surface_of_wide hpos hwide)
  · by_cases hwide : 4 * b.size.width.toNat < UInt32.size
    · refine iff_of_false (fun hover => ?_) (Nat.not_le.mpr hwide)
      cases hover.symm.trans (surface_of_narrow hpos hwide)
    · exact iff_of_true (surface_of_wide hpos hwide) (Nat.not_lt.mp hwide)

/-- A small image and its header. -/
theorem small_surface_describes :
    0 < (blank ⟨4, 2⟩).size.bytes ∧ (blank ⟨4, 2⟩).size.bytes < UInt64.size ∧
      ∃ s, (blank ⟨4, 2⟩).surface = .ok (some s) ∧ (blank ⟨4, 2⟩).Described s := by
  have hpos : 0 < (blank ⟨4, 2⟩).size.bytes := by decide
  have hfits : (blank ⟨4, 2⟩).size.bytes < UInt64.size := by decide
  obtain ⟨-, -, hheader, -⟩ := surface_describes_iff (blank ⟨4, 2⟩) hpos hfits
  obtain ⟨s, hs, -, hdescribed⟩ := hheader.mpr (by decide)
  exact ⟨hpos, hfits, s, hs, hdescribed⟩

/-- An image 2 to the power of 30 pixels wide has no header, and with what is left of the length of
a row, which is nothing, there would be no rows. -/
theorem wide_surface_not_described :
    0 < (blank ⟨1073741824, 1⟩).size.bytes ∧ (blank ⟨1073741824, 1⟩).size.bytes < UInt64.size ∧
      (blank ⟨1073741824, 1⟩).surface = .error .overflow ∧
      (¬∃ s, (blank ⟨1073741824, 1⟩).surface = .ok (some s) ∧
        (blank ⟨1073741824, 1⟩).Described s) ∧
      ¬(blank ⟨1073741824, 1⟩).Described ⟨⟨1073741824, 1⟩, 0⟩ := by
  have hpos : 0 < (blank ⟨1073741824, 1⟩).size.bytes := by decide
  have hover : (blank ⟨1073741824, 1⟩).surface = .error .overflow :=
    surface_of_wide hpos (by decide)
  refine ⟨hpos, by decide, hover, ?_, fun h => ?_⟩
  · rintro ⟨s, hs, -⟩
    cases hs.symm.trans hover
  · have hless := (rows_iff hpos).mp h.rows
    exact absurd hless (by decide)

end PixelBuffer
end MediaHost
