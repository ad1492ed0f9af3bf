import MediaHost.Config.Basic

/-!
# Proofs — Cropping

The crop that the engine is given.  Moving a number into bounds leaves a number within them as it
is and brings any other number within them (`Binary.within_clamp`); what is not a number stays
that, and then its sum is not less than anything (`Binary.lt_add_of_isNaN`).  So a crop that is
effective after its sides are moved into `0 .. 1` has them there, whatever bits they had, and
normalizing is done after the first time (`Crop.normalized_settles`).
-/

namespace MediaHost

theorem Size.pos_of_isEmpty {s : Size} (h : s.isEmpty = false) :
    0 < s.width.toNat ∧ 0 < s.height.toNat := by
  simp only [isEmpty, Bool.or_eq_false_iff, beq_eq_false_iff_ne, ne_eq,
    ← UInt32.toNat_inj, UInt32.toNat_zero] at h
  exact h.imp Nat.pos_of_ne_zero Nat.pos_of_ne_zero

namespace Binary
variable {F : Format} {x y z lo hi : Binary F}

/-- A number from `lo` to `hi`. -/
def Within (lo hi x : Binary F) : Prop := lo.le x = true ∧ x.le hi = true

instance : Decidable (Within lo hi x) := inferInstanceAs (Decidable (_ ∧ _))

/-- Both are numbers, and in order. -/
theorem le_iff : x.le y = true ↔ x.isNaN = false ∧ y.isNaN = false ∧ x.key ≤ y.key := by
  simp only [le, Bool.and_eq_true, Bool.not_eq_true', decide_eq_true_eq, and_assoc]

theorem lt_iff : x.lt y = true ↔ x.isNaN = false ∧ y.isNaN = false ∧ x.key < y.key := by
  simp only [lt, Bool.and_eq_true, Bool.not_eq_true', decide_eq_true_eq, and_assoc]

/-- Of two numbers one is less, or the other is at most it. -/
theorem le_of_not_lt (hx : x.isNaN = false) (hy : y.isNaN = false) (h : ¬x.lt y = true) :
    y.le x = true := by
  refine le_iff.mpr ⟨hy, hx, Int.not_lt.mp fun hlt => h ?_⟩
  exact lt_iff.mpr ⟨hx, hy, hlt⟩

/-- The two orders exclude each other. -/
theorem not_lt_of_le (h : y.le x = true) : ¬x.lt y = true := by
  intro hlt
  have hle := (le_iff.mp h).2.2
  have hkey := (lt_iff.mp hlt).2.2
  omega

/-- What is within is kept. -/
theorem clamp_of_within (h : Within lo hi x) : x.clamp lo hi = x := by
  have hraised : (if x.lt lo then lo else x) = x := if_neg (not_lt_of_le h.1)
  simp only [clamp, hraised]
  exact if_neg (not_lt_of_le h.2)

/-- What is not is brought within. -/
theorem within_clamp (hx : x.isNaN = false) (h : lo.le hi = true) :
    Within lo hi (x.clamp lo hi) := by
  obtain ⟨hlo, hhi, -⟩ := le_iff.mp h
  have self : ∀ {w : Binary F}, w.isNaN = false → w.le w = true := fun hw =>
    le_iff.mpr ⟨hw, hw, Int.le_refl _⟩
  simp only [clamp]
  by_cases hless : x.lt lo = true
  · rw [if_pos hless, if_neg (not_lt_of_le h)]
    exact ⟨self hlo, h⟩
  · rw [if_neg hless]
    by_cases hmore : hi.lt x = true
    · rw [if_pos hmore]
      exact ⟨h, self hhi⟩
    · rw [if_neg hmore]
      exact ⟨le_of_not_lt hx hlo hless, le_of_not_lt hhi hx hmore⟩

/-- What is no number stays none. -/
theorem clamp_of_isNaN (h : x.isNaN = true) : x.clamp lo hi = x := by
  have not_lt_left : ∀ w : Binary F, x.lt w = false := fun w => by
    simp only [lt, h, Bool.not_true, Bool.false_and]
  have not_lt_right : hi.lt x = false := by
    simp only [lt, h, Bool.not_true, Bool.and_false, Bool.false_and]
  simp only [clamp, not_lt_left, not_lt_right, Bool.false_eq_true, if_false]

/-- A sum with a term that is not a number is not less than anything. -/
theorem lt_add_of_isNaN (hnan : (nan : Binary F).isNaN = true)
    (h : x.isNaN = true ∨ y.isNaN = true) : (x.add y).lt z = false := by
  have hsum : x.add y = nan := by
    have hone : (x.isNaN || y.isNaN) = true := by rcases h with h | h <;> simp [h]
    simp only [add, hone, if_true]
  simp only [hsum, lt, hnan, Bool.not_true, Bool.false_and]

end Binary

/-- A number from zero to one. -/
abbrev Single.InUnit (x : Single) : Prop := Binary.Within .zero one x

theorem Single.zero_le_one : (Binary.zero : Single).le one = true := by decide

theorem Single.inUnit_clamp {x : Single} (hx : x.isNaN = false) : InUnit (x.clamp .zero one) :=
  Binary.within_clamp hx zero_le_one

namespace Crop
variable {c : Crop}

/-- Every side is a fraction. -/
structure InUnit (c : Crop) : Prop where
  left : c.left.InUnit
  top : c.top.InUnit
  right : c.right.InUnit
  bottom : c.bottom.InUnit

theorem inUnit_none : none.InUnit := ⟨by decide, by decide, by decide, by decide⟩

/-- Leaving out nothing leaves something. -/
theorem isEffective_none : none.isEffective = true := by decide +kernel

/-- Sides that are shares are kept. -/
theorem clamped_of_inUnit (h : c.InUnit) : c.clamped = c := by
  simp only [clamped, Binary.clamp_of_within h.left, Binary.clamp_of_within h.top,
    Binary.clamp_of_within h.right, Binary.clamp_of_within h.bottom]

/-- On each axis the two sides are less than one together. -/
theorem isEffective_iff : c.isEffective = true ↔
    (c.left.add c.right).lt Single.one = true ∧ (c.top.add c.bottom).lt Single.one = true :=
  Bool.and_eq_true_iff

/-- Two sides that leave something between them are numbers. -/
theorem isNaN_of_lt {before after : Single} (h : (before.add after).lt Single.one = true) :
    before.isNaN = false ∧ after.isNaN = false := by
  have hnan : (Binary.nan : Single).isNaN = true := by decide
  refine ⟨?_, ?_⟩ <;> refine Bool.eq_false_iff.mpr fun hside => ?_
  · rw [Binary.lt_add_of_isNaN hnan (.inl hside)] at h
    cases h
  · rw [Binary.lt_add_of_isNaN hnan (.inr hside)] at h
    cases h

/-- A side that was no number would have stayed one. -/
theorem isNaN_of_clamp {x lo hi : Single} (h : (x.clamp lo hi).isNaN = false) :
    x.isNaN = false := by
  refine Bool.eq_false_iff.mpr fun hx => ?_
  rw [Binary.clamp_of_isNaN hx, hx] at h
  cases h

/-- What is no number has no effective sum, so the sides of an effective crop are shares. -/
theorem inUnit_clamped (h : c.clamped.isEffective = true) : c.clamped.InUnit := by
  obtain ⟨hwide, htall⟩ := isEffective_iff.mp h
  obtain ⟨hleft, hright⟩ := isNaN_of_lt hwide
  obtain ⟨htop, hbottom⟩ := isNaN_of_lt htall
  exact ⟨Single.inUnit_clamp (isNaN_of_clamp hleft), Single.inUnit_clamp (isNaN_of_clamp htop),
    Single.inUnit_clamp (isNaN_of_clamp hright), Single.inUnit_clamp (isNaN_of_clamp hbottom)⟩

/-- A normalized crop leaves out nothing, or shares that leave something. -/
theorem normalized_cases (c : Crop) :
    c.normalized = none ∨ c.normalized.InUnit ∧ c.normalized.isEffective = true := by
  by_cases h : c.clamped.isEffective = true
  · have hn : c.normalized = c.clamped := if_pos h
    rw [hn]
    exact .inr ⟨inUnit_clamped h, h⟩
  · exact .inl (if_neg h)

/-- Whatever was configured, the engine gets fractions that leave something. -/
theorem normalized_sound (c : Crop) : c.normalized.InUnit ∧ c.normalized.isEffective = true := by
  rcases c.normalized_cases with h | h
  · rw [h]
    exact ⟨inUnit_none, isEffective_none⟩
  · exact h

/-- A crop that is normalized already is kept. -/
theorem normalized_of_inUnit (h : c.InUnit) (he : c.isEffective = true) : c.normalized = c := by
  have hc := clamped_of_inUnit h
  have he' : c.clamped.isEffective = true := hc.symm ▸ he
  exact (if_pos he').trans hc

/-- A normalized crop is no crop at all, or has fractions on all sides that leave something on both
axes; to normalize it again changes nothing, no more than it changes fractions that leave
something.  So no configuration gives the engine a crop of another kind. -/
theorem normalized_settles (c : Crop) :
    (c.normalized = none ∨ c.normalized.InUnit ∧ c.normalized.isEffective = true) ∧
      c.normalized.normalized = c.normalized ∧
      (c.InUnit → c.isEffective = true → c.normalized = c) ∧
      ∀ (config : Config) (uri : String) (video audio : Int32),
        (config.decoding uri video audio).crop.InUnit ∧
          (config.decoding uri video audio).crop.isEffective = true := by
  obtain ⟨hunit, heffective⟩ := c.normalized_sound
  exact ⟨c.normalized_cases, normalized_of_inUnit hunit heffective, normalized_of_inUnit,
    fun config _ _ _ => config.crop.normalized_sound⟩

/-- A crop with a negative zero on one side is kept to the bit, and one whose left side is no number
is dropped. -/
theorem odd_crops_settle :
    ({ left := ⟨0x80000000⟩, right := ⟨0x3f000000⟩ } : Crop).normalized =
        { left := ⟨0x80000000⟩, right := ⟨0x3f000000⟩ } ∧
      (({ crop := { left := ⟨0x7fc00000⟩ } } : Config).decoding "clip.mp4" 0 0).crop.InUnit := by
  obtain ⟨-, -, hkept, -⟩ := normalized_settles { left := ⟨0x80000000⟩, right := ⟨0x3f000000⟩ }
  obtain ⟨-, -, -, hgiven⟩ := normalized_settles { left := ⟨0x7fc00000⟩ }
  have hunit : InUnit { left := ⟨0x80000000⟩, right := ⟨0x3f000000⟩ } :=
    ⟨by decide, by decide, by decide, by decide⟩
  exact ⟨hkept hunit (by decide +kernel), (hgiven _ "clip.mp4" 0 0).1⟩

end Crop
end MediaHost
