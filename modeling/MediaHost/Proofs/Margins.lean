import MediaHost.Proofs.Cropping
import MediaHost.Proofs.Rounding

/-!
# Proofs — Margins

The size that a crop leaves, against the size it had.  A normalized crop leaves a positive share of
each axis (`Crop.Paired.share_spec`): two fractions whose rounded sum is less than one leave more
than a step between patterns.  But a length is counted in 32-bit numbers and cut to whole pixels, so
a short one can be left without any, and one above 2 to the power of 24 can be rounded up
(`Crop.normalized_reduces_iff`).
-/

namespace MediaHost

/-! ### The 32-bit patterns up to the sizes of pictures -/

namespace Single
variable {x y : Single} {m n q e : Nat}

theorem value_of_fits (hle : q ≤ 2 * 2 ^ 23) (hnormal : e = 0 ∨ 2 ^ 23 ≤ q) :
    Format.single.value (q + e * 2 ^ 23) = q * 2 ^ ((e : Int) - 149) := by
  rw [sub_eq_neg_add]
  exact Format.value_of_fits ⟨hle, hnormal⟩

/-- Every pattern has a significand and an exponent. -/
theorem exists_fits (m : Nat) :
    ∃ q e, m = q + e * 2 ^ 23 ∧ q + 1 ≤ 2 * 2 ^ 23 ∧ (e = 0 ∨ 2 ^ 23 ≤ q) := by
  obtain ⟨q, e, hm, hq, hq'⟩ := Format.exists_fits .single m
  exact ⟨q, e, hm, hq'.le, hq.normal⟩

/-- The step from a pattern to the next. -/
theorem value_succ (hle : q + 1 ≤ 2 * 2 ^ 23) (hnormal : e = 0 ∨ 2 ^ 23 ≤ q) :
    Format.single.value (q + e * 2 ^ 23 + 1) =
      Format.single.value (q + e * 2 ^ 23) + 2 ^ ((e : Int) - 149) := by
  rw [sub_eq_neg_add]
  exact Format.value_succ ⟨(Nat.le_succ q).trans hle, hnormal⟩
    ⟨hle, hnormal.imp_right fun h => h.trans (Nat.le_succ q)⟩

/-- The first pattern of an exponent. -/
theorem value_power (e : Nat) :
    Format.single.value ((e + 1) * 2 ^ 23) = 2 ^ ((e : Int) - 126) := by
  rw [sub_eq_neg_add]
  exact Format.value_power .single e

theorem value_one : Format.single.value (127 * 2 ^ 23) = 1 := by
  rw [value_power 126]
  rfl

theorem value_limit : Format.single.value (159 * 2 ^ 23) = 2 ^ 32 := by
  rw [value_power 158]
  rfl

theorem magnitude_one : one.magnitude = 127 * 2 ^ 23 := by decide

theorem key_one : one.key = (127 * 2 ^ 23 : Nat) := by decide

theorem key_zero : (Binary.zero : Single).key = 0 := by decide

theorem one_value : one.value = 1 := by
  rw [Binary.value, magnitude_one, value_one]
  rfl

/-- Patterns below that of one are at most `1 / 2 ^ 24` apart. -/
theorem value_succ_le (h : m < 127 * 2 ^ 23) :
    Format.single.value (m + 1) ≤ Format.single.value m + 1 / 2 ^ 24 := by
  obtain ⟨q, e, rfl, hq, hnormal⟩ := exists_fits m
  rw [value_succ hq hnormal]
  have hstep : (2 : ℚ) ^ ((e : Int) - 149) ≤ 1 / 2 ^ 24 :=
    calc (2 : ℚ) ^ ((e : Int) - 149) ≤ 2 ^ (-24 : Int) :=
          zpow_le_zpow_right₀ one_le_two (by omega)
      _ = 1 / 2 ^ 24 := by norm_num
  linarith

/-- Patterns are nowhere closer than at zero. -/
theorem value_add_le (h : m < n) :
    Format.single.value m + Format.single.value 1 ≤ Format.single.value n := by
  have hfirst : Format.single.value 1 = 2 ^ (-149 : Int) := by
    have := value_of_fits (q := 1) (e := 0) (by decide) (.inl rfl)
    simpa using this
  obtain ⟨q, e, rfl, hq, hnormal⟩ := exists_fits m
  have hstep : (2 : ℚ) ^ (-149 : Int) ≤ 2 ^ ((e : Int) - 149) :=
    zpow_le_zpow_right₀ one_le_two (by omega)
  have hnext := Format.single.strictMono_value.monotone (Nat.succ_le_of_lt h)
  rw [Nat.succ_eq_add_one, value_succ hq hnormal] at hnext
  linarith

/-- One is preceded by half the step that follows it. -/
theorem value_before_one : Format.single.value (127 * 2 ^ 23 - 1) = 1 - 1 / 2 ^ 24 := by
  have h := value_of_fits (q := 2 ^ 24 - 1) (e := 125) (by decide) (.inr (by decide))
  norm_num at h ⊢
  exact h

theorem middle_before_one : Format.single.middle (127 * 2 ^ 23 - 1) = 1 - 1 / 2 ^ 25 := by
  have hone : Format.single.value (127 * 2 ^ 23 - 1 + 1) = 1 := value_one
  rw [Format.middle, value_before_one, hone]
  norm_num

/-- A normal number by a factor below one does not reach the middle before it. -/
theorem mul_lt_middle {v : ℚ} (hm : 2 ^ 24 < m) (hv : v ≤ 1 - 1 / 2 ^ 24) :
    Format.single.value m * v < Format.single.middle (m - 1) := by
  obtain ⟨q, e, hq, hle, hnormal⟩ := exists_fits (m - 1)
  obtain rfl : m = q + e * 2 ^ 23 + 1 := by omega
  have hlarge : (2 ^ 23 : ℚ) ≤ q := by exact_mod_cast hnormal.resolve_left (by omega)
  have hunit : (0 : ℚ) < 2 ^ ((e : Int) - 149) := by positivity
  have hvalue : Format.single.value (q + e * 2 ^ 23 + 1) = (q + 1) * 2 ^ ((e : Int) - 149) := by
    rw [value_succ hle hnormal, value_of_fits (by omega) hnormal]
    ring
  rw [Nat.add_sub_cancel, Format.middle, hvalue, value_of_fits (by omega) hnormal]
  calc (q + 1) * 2 ^ ((e : Int) - 149) * v
      ≤ (q + 1) * 2 ^ ((e : Int) - 149) * (1 - 1 / 2 ^ 24) := by gcongr
    _ = ((q + 1) * (1 - 1 / 2 ^ 24)) * 2 ^ ((e : Int) - 149) := by ring
    _ < (q + 1 / 2) * 2 ^ ((e : Int) - 149) := by
      refine mul_lt_mul_of_pos_right ?_ hunit
      linarith
    _ = (q * 2 ^ ((e : Int) - 149) + (q + 1) * 2 ^ ((e : Int) - 149)) / 2 := by ring

/-! ### Numbers up to a pattern -/

/-- A number from zero up to that of a pattern. -/
structure UpTo (k : Nat) (x : Single) : Prop where
  magnitude_le : x.magnitude ≤ k
  value_eq : x.value = Format.single.value x.magnitude

namespace UpTo
variable {k : Nat} {v : ℚ}

theorem nonneg (h : UpTo k x) : 0 ≤ x.value := h.value_eq ▸ Format.single.value_nonneg _

theorem value_le (h : UpTo k x) : x.value ≤ Format.single.value k :=
  h.value_eq ▸ Format.single.strictMono_value.monotone h.magnitude_le

theorem le_one (h : UpTo (127 * 2 ^ 23) x) : x.value ≤ 1 := value_one ▸ h.value_le

theorem isFinite (h : UpTo k x) (hk : k ≤ 159 * 2 ^ 23) : x.IsFinite :=
  (h.magnitude_le.trans hk).trans_lt (by decide : 159 * 2 ^ 23 < Format.single.infinity)

/-- What is rounded from between zero and a bound is between them too. -/
theorem of_nearest (h : Binary.IsNearest v x) (hv : 0 ≤ v) (hk : v ≤ Format.single.value k) :
    UpTo k x :=
  ⟨h.rounds.le_of_le ((abs_of_nonneg hv).trans_le hk), h.value_of_nonneg hv⟩

/-- A difference of two numbers in the unit interval is rounded once. -/
theorem nearest_sub (hx : UpTo (127 * 2 ^ 23) x) (hy : UpTo (127 * 2 ^ 23) y) :
    Binary.IsNearest (x.value - y.value) (x.sub y) := by
  refine Binary.isNearest_sub (k := 159 * 2 ^ 23) (by decide) (hx.isFinite (by decide))
    (hy.isFinite (by decide)) (by decide) ?_
  rw [value_limit, abs_le]
  have := hx.nonneg
  have := hx.le_one
  have := hy.nonneg
  have := hy.le_one
  constructor <;> linarith

/-- A difference stays up to one. -/
theorem sub (hx : UpTo (127 * 2 ^ 23) x) (hy : UpTo (127 * 2 ^ 23) y) (h : y.value ≤ x.value) :
    UpTo (127 * 2 ^ 23) (x.sub y) := by
  refine of_nearest (hx.nearest_sub hy) (sub_nonneg.mpr h) ?_
  rw [value_one]
  linarith [hx.le_one, hy.nonneg]

end UpTo

theorem upTo_one : UpTo (127 * 2 ^ 23) one :=
  ⟨magnitude_one.le, by rw [one_value, magnitude_one, value_one]⟩

theorem InUnit.upTo (h : InUnit x) : UpTo (127 * 2 ^ 23) x := by
  have hlow := (Binary.le_iff.mp h.1).2.2
  have hhigh := (Binary.le_iff.mp h.2).2.2
  rw [key_zero, Binary.key] at hlow
  rw [key_one, Binary.key] at hhigh
  split at hlow
  · next hsign =>
      -- a negative zero
      have hmag : x.magnitude = 0 := by omega
      refine ⟨by omega, ?_⟩
      rw [Binary.value, if_pos hsign, hmag, Format.value_zero, neg_zero]
  · next hsign =>
      rw [if_neg hsign] at hhigh
      exact ⟨by omega, if_neg hsign⟩

/-! ### Whole numbers -/

/-- Up to two to the power of 24, every whole number has a pattern. -/
theorem exists_value_eq (h : n ≤ 2 ^ 24) : ∃ m, Format.single.value m = n := by
  obtain ⟨m, hm⟩ := Format.exists_value_eq (F := .single) (x := 0) h (by decide)
  exact ⟨m, by rw [hm, zpow_zero, mul_one]⟩

/-- The patterns from two to the power of 23 on are whole numbers. -/
theorem exists_natCast_eq (h : 150 * 2 ^ 23 ≤ m) : ∃ j : Nat, Format.single.value m = j := by
  obtain ⟨q, e, rfl, hq, hnormal⟩ := exists_fits m
  obtain ⟨s, rfl⟩ : ∃ s, e = 149 + s := ⟨e - 149, by omega⟩
  refine ⟨q * 2 ^ s, ?_⟩
  rw [value_of_fits (by omega) hnormal, show ((149 + s : Nat) : Int) - 149 = s by omega]
  push_cast
  rw [zpow_natCast]

/-- A whole number is rounded to one at least. -/
theorem ofNat_spec (hpos : 0 < n) (h : n ≤ 2 ^ 32) :
    Format.single.Rounds n (Binary.ofNat n : Single).magnitude ∧
      127 * 2 ^ 23 ≤ (Binary.ofNat n : Single).magnitude ∧
      UpTo (159 * 2 ^ 23) (Binary.ofNat n : Single) := by
  have hone : (1 : ℚ) ≤ n := by exact_mod_cast hpos
  have hlimit : (n : ℚ) ≤ Format.single.value (159 * 2 ^ 23) := by
    rw [value_limit]
    exact_mod_cast h
  have hnearest := Binary.isNearest_ofNat (F := .single) (by decide) (by decide) hlimit
  have hrounds := hnearest.rounds
  rw [Nat.abs_cast] at hrounds
  exact ⟨hrounds, hrounds.ge_of_ge (value_one ▸ hone),
    .of_nearest hnearest (Nat.cast_nonneg n) hlimit⟩

/-- Small whole numbers are kept. -/
theorem value_ofNat_of_le (hpos : 0 < n) (h : n ≤ 2 ^ 24) :
    (Binary.ofNat n : Single).value = n := by
  obtain ⟨m, hm⟩ := exists_value_eq h
  obtain ⟨hrounds, -, hupTo⟩ := ofNat_spec hpos (h.trans (by decide))
  rw [← hm] at hrounds
  rw [hupTo.value_eq, hrounds.eq_of_value, hm]

/-- Large whole numbers are rounded to whole numbers. -/
theorem exists_value_ofNat (hpos : 0 < n) (h : n ≤ 2 ^ 32) :
    ∃ j : Nat, (Binary.ofNat n : Single).value = j := by
  rcases Nat.le_total n (2 ^ 24) with hle | hge
  · exact ⟨n, value_ofNat_of_le hpos hle⟩
  · obtain ⟨hrounds, -, hupTo⟩ := ofNat_spec hpos h
    rw [hupTo.value_eq]
    refine exists_natCast_eq (hrounds.ge_of_ge ?_)
    have hn : (2 ^ 24 : ℚ) ≤ n := by exact_mod_cast hge
    rw [value_power 149]
    exact le_trans (by norm_num) hn

theorem magnitude_ofNat_last :
    (Binary.ofNat (2 ^ 32 - 1) : Single).magnitude = 159 * 2 ^ 23 := by decide +kernel

end Single

/-! ### The share that two sides leave -/

namespace Crop
variable {before after : Single}

/-- The share of an axis that is left without `before` and `after`. -/
def share (before after : Single) : Single := (Single.one.sub before).sub after

/-- Two sides as a normalized crop has them on an axis. -/
structure Paired (before after : Single) : Prop where
  before_unit : before.InUnit
  after_unit : after.InUnit
  sum_lt : (before.add after).lt Single.one = true

namespace Paired

/-- A sum that is rounded to less than one is less than one, by half a step at least. -/
theorem sum_lt_middle (h : Paired before after) :
    before.value + after.value < 1 - 1 / 2 ^ 25 := by
  have hb := h.before_unit.upTo
  have ha := h.after_unit.upTo
  have hnonneg := add_nonneg hb.nonneg ha.nonneg
  have hnearest : Binary.IsNearest (before.value + after.value) (before.add after) := by
    refine Binary.isNearest_add (k := 159 * 2 ^ 23) (by decide) (hb.isFinite (by decide))
      (ha.isFinite (by decide)) (by decide) ?_
    rw [Single.value_limit, abs_of_nonneg hnonneg]
    linarith [hb.le_one, ha.le_one]
  by_contra hge
  rw [not_lt] at hge
  -- then the sum is rounded to one at least
  have hpos : before.value + after.value ≠ 0 := fun hzero => by
    rw [hzero] at hge
    norm_num at hge
  have hmag : 127 * 2 ^ 23 - 1 < (before.add after).magnitude := by
    refine hnearest.rounds.gt_of_middle_le ?_ (by decide)
    rw [abs_of_nonneg hnonneg, Single.middle_before_one]
    exact hge
  have hsign : (before.add after).isNegative = false :=
    (hnearest.sign hpos).trans (decide_eq_false hnonneg.not_gt)
  have hkey := (Binary.lt_iff.mp h.sum_lt).2.2
  rw [Single.key_one, Binary.key, hsign, if_neg Bool.false_ne_true] at hkey
  omega

/-- The first side leaves more than the second takes. -/
theorem after_lt_rest (h : Paired before after) :
    after.magnitude < (Single.one.sub before).magnitude := by
  have hb := h.before_unit.upTo
  have ha := h.after_unit.upTo
  have hsum := h.sum_lt_middle
  by_contra hge
  -- the rest would be half a step above the second side at most, and the sum too large
  have hmiddle := (Single.upTo_one.nearest_sub hb).rounds.le_middle_of_le (not_lt.mp hge)
  have hless : after.magnitude < 127 * 2 ^ 23 := by
    refine Format.single.strictMono_value.lt_iff_lt.mp ?_
    rw [Single.value_one, ← ha.value_eq]
    linarith [hb.nonneg]
  have hstep := Single.value_succ_le hless
  rw [Single.one_value, abs_of_nonneg (sub_nonneg.mpr hb.le_one), Format.middle,
    ← ha.value_eq] at hmiddle
  rw [← ha.value_eq] at hstep
  linarith

/-- What both sides leave is a positive share of the axis. -/
theorem share_spec (h : Paired before after) :
    Single.UpTo (127 * 2 ^ 23) (share before after) ∧ 0 < (share before after).value := by
  have hb := h.before_unit.upTo
  have ha := h.after_unit.upTo
  have hrest := Single.upTo_one.sub hb (Single.one_value ▸ hb.le_one)
  have hgap := Single.value_add_le h.after_lt_rest
  rw [← hrest.value_eq, ← ha.value_eq] at hgap
  have hunit : 0 < Format.single.value 1 :=
    (Format.single.value_nonneg 0).trans_lt (Format.single.value_lt_succ 0)
  have hshare : Single.UpTo (127 * 2 ^ 23) (share before after) := hrest.sub ha (by linarith)
  have hrounds := (hrest.nearest_sub ha).rounds
  rw [abs_of_nonneg (by linarith)] at hrounds
  have hmag : 1 ≤ (share before after).magnitude := hrounds.ge_of_ge (by linarith)
  refine ⟨hshare, ?_⟩
  rw [hshare.value_eq, ← Format.single.value_zero]
  exact Format.single.strictMono_value hmag

end Paired

/-- A zero takes nothing from one. -/
theorem sub_zero_side {x y : Single} (hx : Single.UpTo (127 * 2 ^ 23) x) (hx₁ : x.value = 1)
    (hy : y.InUnit) (hy₀ : y.value = 0) :
    Single.UpTo (127 * 2 ^ 23) (x.sub y) ∧ (x.sub y).value = 1 := by
  have hsub := hx.sub hy.upTo (by rw [hx₁, hy₀]; exact zero_le_one)
  have hrounds := (hx.nearest_sub hy.upTo).rounds
  rw [hx₁, hy₀, sub_zero, abs_one, ← Single.value_one] at hrounds
  refine ⟨hsub, ?_⟩
  rw [hsub.value_eq, hrounds.eq_of_value, Single.value_one]

/-- Without margins all of the picture is left. -/
theorem share_eq_one (hb : before.InUnit) (ha : after.InUnit) (hb₀ : before.value = 0)
    (ha₀ : after.value = 0) : (share before after).value = 1 := by
  obtain ⟨hrest, hrest₁⟩ := sub_zero_side Single.upTo_one Single.one_value hb hb₀
  exact (sub_zero_side hrest hrest₁ ha ha₀).2

/-! ### What is left of a side -/

/-- The length that is left is a product, rounded and cut. -/
theorem sideLeft_spec {length : UInt32} (h : Paired before after) (hpos : 0 < length.toNat) :
    ∃ m, Format.single.Rounds
        ((Binary.ofNat length.toNat : Single).value * (share before after).value) m ∧
      (sideLeft length before after).toNat = min (2 ^ 32 - 1) ⌊Format.single.value m⌋₊ := by
  obtain ⟨hshare, hshare₀⟩ := h.share_spec
  obtain ⟨-, hlge, hlength⟩ := Single.ofNat_spec hpos length.toNat_lt.le
  have hlength₀ : 0 < (Binary.ofNat length.toNat : Single).value := by
    rw [hlength.value_eq, ← Format.single.value_zero]
    exact Format.single.strictMono_value (by omega)
  have hprod := mul_pos hlength₀ hshare₀
  have hlimit : (Binary.ofNat length.toNat : Single).value * (share before after).value ≤
      Format.single.value (159 * 2 ^ 23) :=
    (mul_le_of_le_one_right hlength₀.le hshare.le_one).trans hlength.value_le
  have hnearest := Binary.isNearest_mul (F := .single) (by decide)
    (hlength.isFinite (by decide)) (hshare.isFinite (by decide)) (by decide)
    ((abs_of_pos hprod).trans_le hlimit)
  have hupTo := Single.UpTo.of_nearest hnearest hprod.le hlimit
  refine ⟨_, abs_of_pos hprod ▸ hnearest.rounds, ?_⟩
  rw [← hupTo.value_eq]
  have hcut := Binary.truncate_of_finite (UInt32.size - 1) (hupTo.isFinite (by decide))
    ((hnearest.sign hprod.ne').trans (decide_eq_false hprod.not_gt))
  rw [sideLeft, ← share, hcut, UInt32.toNat_ofNat', Nat.mod_eq_of_lt]
  · rfl
  · exact (min_le_left _ _).trans_lt (by decide)

variable {length : UInt32}

/-- A length that 32-bit numbers do not round up, or only beyond the largest length. -/
def Steady (length : UInt32) : Prop :=
  (Binary.ofNat length.toNat : Single).value ≤ length.toNat ∨ length.toNat = 2 ^ 32 - 1

/-- A length that they do not round, or only beyond the largest length. -/
def Exact (length : UInt32) : Prop :=
  (Binary.ofNat length.toNat : Single).value = length.toNat ∨ length.toNat = 2 ^ 32 - 1

/-- A length of at most 24 bits is exact. -/
theorem exact_of_le (hpos : 0 < length.toNat) (h : length.toNat ≤ 2 ^ 24) : Exact length :=
  .inl (Single.value_ofNat_of_le hpos h)

theorem Exact.steady (h : Exact length) : Steady length := h.imp_left le_of_eq

/-- A pixel is left exactly if the product is one at least, or half a step below it. -/
theorem one_le_sideLeft_iff (h : Paired before after) (hpos : 0 < length.toNat) :
    1 ≤ (sideLeft length before after).toNat ↔
      (1 - 1 / 2 ^ 25 : ℚ) ≤
        (Binary.ofNat length.toNat : Single).value * (share before after).value := by
  obtain ⟨m, hrounds, hleft⟩ := sideLeft_spec h hpos
  have hfloor : 1 ≤ ⌊Format.single.value m⌋₊ ↔ 127 * 2 ^ 23 ≤ m := by
    rw [Nat.one_le_floor_iff, ← Single.value_one, Format.single.strictMono_value.le_iff_le]
  have hlimit : 1 ≤ (sideLeft length before after).toNat ↔ 1 ≤ ⌊Format.single.value m⌋₊ := by
    rw [hleft]
    omega
  rw [hlimit, hfloor, ← Single.middle_before_one]
  refine ⟨fun hm => hrounds.middle_le_of_gt (Nat.lt_of_lt_of_le (by decide) hm), fun hv => ?_⟩
  exact hrounds.gt_of_middle_le hv (by decide)

/-- A share below one takes the product below the middle before the length. -/
theorem sideLeft_le_of_share (h : Paired before after) (hpos : 0 < length.toNat)
    (hshare : (share before after).value ≠ 1) :
    (sideLeft length before after).toNat ≤ length.toNat := by
  obtain ⟨m, hrounds, hleft⟩ := sideLeft_spec h hpos
  obtain ⟨hupTo, -⟩ := h.share_spec
  obtain ⟨hlrounds, hlge, hlength⟩ := Single.ofNat_spec hpos length.toNat_lt.le
  rw [hlength.value_eq] at hrounds
  generalize (Binary.ofNat length.toNat : Single) = l at *
  have hless : (share before after).magnitude ≤ 127 * 2 ^ 23 - 1 := by
    have hne : (share before after).magnitude ≠ 127 * 2 ^ 23 := fun heq =>
      hshare (by rw [hupTo.value_eq, heq, Single.value_one])
    have := hupTo.magnitude_le
    omega
  have hle : (share before after).value ≤ 1 - 1 / 2 ^ 24 := by
    rw [hupTo.value_eq, ← Single.value_before_one]
    exact Format.single.strictMono_value.monotone hless
  have hm := hrounds.below _ (Single.mul_lt_middle (by omega) hle)
  have hfloor : ⌊Format.single.value m⌋₊ ≤ length.toNat := by
    refine Nat.floor_le_of_le ?_
    calc Format.single.value m ≤ Format.single.value (l.magnitude - 1) :=
          Format.single.strictMono_value.monotone hm
      _ ≤ Format.single.middle (l.magnitude - 1) := (Format.single.value_lt_middle _).le
      _ ≤ length.toNat := hlrounds.middle_le_of_gt (by omega)
  rw [hleft]
  omega

/-- With a share of one, the length is rounded once. -/
theorem sideLeft_of_share (h : Paired before after) (hpos : 0 < length.toNat)
    (hshare : (share before after).value = 1) :
    ((sideLeft length before after).toNat ≤ length.toNat ↔ Steady length) ∧
      (sideLeft length before after = length ↔ Exact length) := by
  obtain ⟨m, hrounds, hleft⟩ := sideLeft_spec h hpos
  have hlt : length.toNat < 2 ^ 32 := length.toNat_lt
  obtain ⟨-, -, hlength⟩ := Single.ofNat_spec hpos hlt.le
  obtain ⟨j, hj⟩ := Single.exists_value_ofNat hpos hlt.le
  have hlast : length.toNat = 2 ^ 32 - 1 → 2 ^ 32 ≤ j := fun h => by
    rw [hlength.value_eq, h, Single.magnitude_ofNat_last, Single.value_limit] at hj
    exact_mod_cast hj.le
  rw [hshare, mul_one, hlength.value_eq] at hrounds
  rw [Steady, Exact, ← UInt32.toNat_inj, hleft, hrounds.eq_of_value, ← hlength.value_eq, hj,
    Nat.floor_natCast, Nat.cast_le, Nat.cast_inj]
  omega

/-! ### The size that is left -/

variable {c : Crop} {s : Size}

/-- A crop that only takes pixels off a picture: some are left on both sides, none are added, and
leaving out nothing takes off none. -/
structure Reduces (c : Crop) (s : Size) : Prop where
  width_pos : 1 ≤ (c.apply s).width.toNat
  height_pos : 1 ≤ (c.apply s).height.toNat
  width_le : (c.apply s).width.toNat ≤ s.width.toNat
  height_le : (c.apply s).height.toNat ≤ s.height.toNat
  eq_of_isZero : c.isZero = true → c.apply s = s

/-- What it takes for a side to be reduced: the share that is left has a pixel, and a length that
is left whole is steady. -/
structure Spares (length : UInt32) (before after : Single) : Prop where
  pixel : (1 - 1 / 2 ^ 25 : ℚ) ≤
    (Binary.ofNat length.toNat : Single).value * (share before after).value
  whole : (share before after).value = 1 → Steady length

/-- A side grows only if nothing is cut off and its length is rounded up. -/
theorem sideLeft_le_iff (h : Paired before after) (hpos : 0 < length.toNat) :
    (sideLeft length before after).toNat ≤ length.toNat ↔
      ((share before after).value = 1 → Steady length) := by
  by_cases hshare : (share before after).value = 1
  · rw [(sideLeft_of_share h hpos hshare).1]
    exact ⟨fun hs _ => hs, fun hs => hs hshare⟩
  · exact ⟨fun _ heq => absurd heq hshare, fun _ => sideLeft_le_of_share h hpos hshare⟩

/-- A crop spares a side if at least one pixel and at most all of them are left. -/
theorem spares_iff (h : Paired before after) (hpos : 0 < length.toNat) :
    Spares length before after ↔ 1 ≤ (sideLeft length before after).toNat ∧
      (sideLeft length before after).toNat ≤ length.toNat := by
  rw [one_le_sideLeft_iff h hpos, sideLeft_le_iff h hpos]
  exact ⟨fun hs => ⟨hs.pixel, hs.whole⟩, fun hs => ⟨hs.1, hs.2⟩⟩

/-- The margins of a normalized crop pair up on both axes. -/
theorem normalized_paired (c : Crop) :
    Paired c.normalized.left c.normalized.right ∧ Paired c.normalized.top c.normalized.bottom := by
  obtain ⟨hunit, heffective⟩ := c.normalized_sound
  obtain ⟨hwide, htall⟩ := isEffective_iff.mp heffective
  exact ⟨⟨hunit.left, hunit.right, hwide⟩, ⟨hunit.top, hunit.bottom, htall⟩⟩

theorem value_of_same_zero {x : Single} (h : x.same .zero = true) : x.value = 0 := by
  have hkey : x.key = (Binary.zero : Single).key := by
    simp only [Binary.same, Bool.and_eq_true, decide_eq_true_eq] at h
    exact h.2
  have hmag : x.magnitude = 0 := by
    rw [Single.key_zero, Binary.key] at hkey
    split at hkey <;> omega
  rw [Binary.value, hmag, Format.value_zero, neg_zero, ite_self]

/-- Leaving out nothing leaves a share of one on both axes. -/
theorem share_of_isZero (hwide : Paired c.left c.right) (htall : Paired c.top c.bottom)
    (h : c.isZero = true) :
    (share c.left c.right).value = 1 ∧ (share c.top c.bottom).value = 1 := by
  simp only [isZero, Bool.and_eq_true] at h
  obtain ⟨⟨⟨hleft, htop⟩, hright⟩, hbottom⟩ := h
  exact ⟨share_eq_one hwide.before_unit hwide.after_unit (value_of_same_zero hleft)
      (value_of_same_zero hright),
    share_eq_one htall.before_unit htall.after_unit (value_of_same_zero htop)
      (value_of_same_zero hbottom)⟩

/-- A crop that cuts nothing off leaves a size alone if both sides are exact. -/
theorem apply_eq_iff_of_isZero (hwide : Paired c.left c.right) (htall : Paired c.top c.bottom)
    (hw : 0 < s.width.toNat) (hh : 0 < s.height.toNat) (h : c.isZero = true) :
    c.apply s = s ↔ Exact s.width ∧ Exact s.height := by
  obtain ⟨hshare, hshare'⟩ := share_of_isZero hwide htall h
  have hext : c.apply s = s ↔ (c.apply s).width = s.width ∧ (c.apply s).height = s.height := by
    rw [Size.mk.injEq]
  exact hext.trans (and_congr (sideLeft_of_share hwide hw hshare).2
    (sideLeft_of_share htall hh hshare').2)

/-- A normalized crop reduces a picture exactly if each axis has a pixel in the share that is left,
no side that is left whole is rounded up, and no side is rounded if nothing is left out.  Sides up
to 2 to the power of 24 are not rounded, so those are never made longer, and leaving out nothing
leaves them as they are; but any side can be too short to have a pixel left. -/
theorem normalized_reduces_iff (c : Crop) (hs : s.isEmpty = false) :
    (c.normalized.Reduces s ↔
      Spares s.width c.normalized.left c.normalized.right ∧
        Spares s.height c.normalized.top c.normalized.bottom ∧
        (c.normalized.isZero = true → Exact s.width ∧ Exact s.height)) ∧
      (s.width.toNat ≤ 2 ^ 24 → s.height.toNat ≤ 2 ^ 24 →
        (c.normalized.apply s).width.toNat ≤ s.width.toNat ∧
          (c.normalized.apply s).height.toNat ≤ s.height.toNat ∧
          (c.normalized.isZero = true → c.normalized.apply s = s)) := by
  obtain ⟨hwide, htall⟩ := c.normalized_paired
  obtain ⟨hw, hh⟩ := Size.pos_of_isEmpty hs
  refine ⟨?_, fun hw' hh' => ?_⟩
  · rw [spares_iff hwide hw, spares_iff htall hh]
    refine ⟨fun h => ⟨⟨h.width_pos, h.width_le⟩, ⟨h.height_pos, h.height_le⟩, fun hz => ?_⟩,
      fun ⟨hwidth, hheight, hexact⟩ =>
        ⟨hwidth.1, hheight.1, hwidth.2, hheight.2, fun hz => ?_⟩⟩
    · exact (apply_eq_iff_of_isZero hwide htall hw hh hz).mp (h.eq_of_isZero hz)
    · exact (apply_eq_iff_of_isZero hwide htall hw hh hz).mpr (hexact hz)
  · have hexact := exact_of_le hw hw'
    have hexact' := exact_of_le hh hh'
    exact ⟨(sideLeft_le_iff hwide hw).mpr fun _ => hexact.steady,
      (sideLeft_le_iff htall hh).mpr fun _ => hexact'.steady,
      fun hz => (apply_eq_iff_of_isZero hwide htall hw hh hz).mpr ⟨hexact, hexact'⟩⟩

/-- A quarter left out on the left and on the right, and half of the height at the bottom. -/
def quarters : Crop := { left := ⟨0x3e800000⟩, right := ⟨0x3e800000⟩, bottom := ⟨0x3f000000⟩ }

/-- Such a crop of an ordinary picture leaves a part of it. -/
theorem quarters_reduce :
    (⟨400, 200⟩ : Size).isEmpty = false ∧ quarters.normalized.Reduces ⟨400, 200⟩ ∧
      Spares 400 quarters.normalized.left quarters.normalized.right := by
  have hs : (⟨400, 200⟩ : Size).isEmpty = false := by decide
  obtain ⟨hiff, hsmall⟩ := normalized_reduces_iff quarters hs
  obtain ⟨hwidth, hheight, hzero⟩ := hsmall (by decide) (by decide)
  have hreduces : quarters.normalized.Reduces ⟨400, 200⟩ :=
    ⟨by decide +kernel, by decide +kernel, hwidth, hheight, hzero⟩
  exact ⟨hs, hreduces, (hiff.mp hreduces).1⟩

/-- Half of a single pixel is no pixel, and a crop of nothing makes a wide picture wider. -/
theorem crops_not_reducing :
    (¬({ left := ⟨0x3f000000⟩ } : Crop).normalized.Reduces ⟨1, 1⟩ ∧
        ({ left := ⟨0x3f000000⟩ } : Crop).normalized.apply ⟨1, 1⟩ = ⟨0, 1⟩) ∧
      ¬none.normalized.Reduces ⟨16777219, 1⟩ ∧
      none.normalized.apply ⟨16777219, 1⟩ = ⟨16777220, 1⟩ := by
  have hhalf : ({ left := ⟨0x3f000000⟩ } : Crop).normalized.apply ⟨1, 1⟩ = ⟨0, 1⟩ := by
    decide +kernel
  have hwide : none.normalized.apply ⟨16777219, 1⟩ = ⟨16777220, 1⟩ := by decide +kernel
  refine ⟨⟨fun h => ?_, hhalf⟩, fun h => ?_, hwide⟩
  · have hpos := h.width_pos
    rw [hhalf] at hpos
    exact absurd hpos (by decide)
  · have hle := h.width_le
    rw [hwide] at hle
    exact absurd hle (by decide)

end Crop
end MediaHost
