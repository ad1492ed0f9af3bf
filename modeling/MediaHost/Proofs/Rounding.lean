import MediaHost.Numeric.Arithmetic
import Mathlib.Algebra.Order.Field.Power
import Mathlib.Algebra.Order.Floor.Semifield
import Mathlib.Data.Rat.Floor
import Mathlib.Tactic.Linarith
import Mathlib.Tactic.NormNum
import Mathlib.Tactic.Ring

/-!
# Proofs — Rounding

What the patterns of a format stand for, and what rounding makes of an exact number.  The patterns
are in the order of their numbers (`Format.strictMono_value`), so the nearest pattern of a number
is told by the middles between one pattern and the next (`Format.Rounds`): a number below a middle
is rounded to a pattern below it, one above it to a pattern above it, and one that lies in a middle
to the even pattern of the two.  One rounding of a ratio is such a rounding (`Binary.ofRatio_spec`),
and so sums, differences and products are the exact ones, rounded.
-/

namespace MediaHost

/-! ### The number of a pattern -/

namespace Format
variable {F : Format} {q e k m : Nat} {v : ℚ}

/-- What the pattern without its sign stands for, infinity being the number after the largest. -/
def value (F : Format) (m : Nat) : ℚ :=
  (if m / 2 ^ F.fractionBits = 0 then m % 2 ^ F.fractionBits
    else 2 ^ F.fractionBits + m % 2 ^ F.fractionBits : Nat) *
    2 ^ (F.minExponent + ((max (m / 2 ^ F.fractionBits) 1 : Nat) - 1 : Int))

/-- The number half way from a pattern to the next. -/
def middle (F : Format) (m : Nat) : ℚ := (F.value m + F.value (m + 1)) / 2

/-- A significand above the first powers of two, or with the smallest exponent. -/
structure Fits (F : Format) (q e : Nat) : Prop where
  le : q ≤ 2 * 2 ^ F.fractionBits
  normal : e = 0 ∨ 2 ^ F.fractionBits ≤ q

/-- Counted from zero, the patterns of an exponent follow those of the exponent before. -/
theorem value_of_fits (h : F.Fits q e) :
    F.value (q + e * 2 ^ F.fractionBits) = q * 2 ^ (F.minExponent + e) := by
  obtain ⟨hle, hnormal⟩ := h
  have hpos : 0 < 2 ^ F.fractionBits := Nat.two_pow_pos _
  simp only [value]
  generalize 2 ^ F.fractionBits = p at *
  rcases Nat.lt_or_ge q p with hq | hq
  · obtain rfl : e = 0 := by omega
    simp [Nat.div_eq_of_lt hq, Nat.mod_eq_of_lt hq]
  · rcases Nat.lt_or_ge q (2 * p) with hq' | hq'
    · have hsplit : q + e * p = q - p + p * (1 + e) := by
        rw [Nat.mul_add, Nat.mul_one, Nat.mul_comm e]
        omega
      have hdiv : (q + e * p) / p = 1 + e := by
        rw [hsplit, Nat.add_mul_div_left _ _ hpos, Nat.div_eq_of_lt (by omega), Nat.zero_add]
      have hmod : (q + e * p) % p = q - p := by
        rw [hsplit, Nat.add_mul_mod_self_left, Nat.mod_eq_of_lt (by omega)]
      have hwhole : p + (q - p) = q := by omega
      have hexp : ((max (1 + e) 1 : Nat) : Int) - 1 = e := by omega
      rw [hdiv, hmod, if_neg (by omega), hwhole, hexp]
    · obtain rfl : q = 2 * p := by omega
      have hsplit : 2 * p + e * p = p * (2 + e) := by ring
      have hdiv : (2 * p + e * p) / p = 2 + e := by rw [hsplit, Nat.mul_div_cancel_left _ hpos]
      have hmod : (2 * p + e * p) % p = 0 := by rw [hsplit, Nat.mul_mod_right]
      have hexp : ((max (2 + e) 1 : Nat) : Int) - 1 = 1 + e := by omega
      rw [hdiv, hmod, if_neg (by omega), Nat.add_zero, hexp]
      push_cast
      rw [show F.minExponent + (1 + (e : Int)) = 1 + (F.minExponent + e) by ring,
        zpow_add₀ two_ne_zero]
      ring

/-- Every pattern has a significand that fits, and so has the next. -/
theorem exists_fits (F : Format) (m : Nat) :
    ∃ q e, m = q + e * 2 ^ F.fractionBits ∧ F.Fits q e ∧ F.Fits (q + 1) e := by
  have hpos : 0 < 2 ^ F.fractionBits := Nat.two_pow_pos _
  have hdiv := Nat.div_add_mod m (2 ^ F.fractionBits)
  have hmod := Nat.mod_lt m hpos
  refine ⟨m - (m / 2 ^ F.fractionBits - 1) * 2 ^ F.fractionBits, m / 2 ^ F.fractionBits - 1, ?_⟩
  rcases Nat.eq_zero_or_pos (m / 2 ^ F.fractionBits) with hz | hz
  · rw [hz, Nat.mul_zero, Nat.zero_add] at hdiv
    rw [hz, Nat.zero_sub, Nat.zero_mul, Nat.sub_zero]
    exact ⟨rfl, ⟨by omega, .inl rfl⟩, ⟨by omega, .inl rfl⟩⟩
  · have hless : (m / 2 ^ F.fractionBits - 1) * 2 ^ F.fractionBits + 2 ^ F.fractionBits +
        m % 2 ^ F.fractionBits = m := by
      rw [← Nat.succ_mul, Nat.succ_eq_add_one, Nat.sub_add_cancel hz, Nat.mul_comm]
      exact hdiv
    exact ⟨by omega, ⟨by omega, .inr (by omega)⟩, ⟨by omega, .inr (by omega)⟩⟩

theorem value_nonneg (F : Format) (m : Nat) : 0 ≤ F.value m := by
  simp only [value]
  positivity

theorem value_zero (F : Format) : F.value 0 = 0 := by simp [value]

/-- The next pattern stands for one unit of its exponent more. -/
theorem value_succ (h : F.Fits q e) (h' : F.Fits (q + 1) e) :
    F.value (q + e * 2 ^ F.fractionBits + 1) =
      F.value (q + e * 2 ^ F.fractionBits) + 2 ^ (F.minExponent + e) := by
  rw [show q + e * 2 ^ F.fractionBits + 1 = q + 1 + e * 2 ^ F.fractionBits by ring,
    value_of_fits h', value_of_fits h]
  push_cast
  ring

/-- The first pattern of an exponent. -/
theorem value_power (F : Format) (e : Nat) :
    F.value ((e + 1) * 2 ^ F.fractionBits) = 2 ^ (F.minExponent + F.fractionBits + e) := by
  rw [Nat.succ_mul, Nat.add_comm,
    value_of_fits ⟨Nat.le_mul_of_pos_left _ two_pos, .inr le_rfl⟩, add_right_comm,
    zpow_add₀ two_ne_zero _ (F.fractionBits : Int), zpow_natCast, mul_comm]
  push_cast
  rfl

/-- A significand that fits has a pattern with each exponent that leaves room for it. -/
theorem exists_value_eq {x : Int} (hq : q ≤ 2 * 2 ^ F.fractionBits)
    (hx : F.minExponent + F.fractionBits ≤ x) : ∃ m, F.value m = q * 2 ^ x := by
  rcases Nat.eq_zero_or_pos q with rfl | hpos
  · exact ⟨0, by rw [value_zero, Nat.cast_zero, zero_mul]⟩
  -- the significand is shifted to the left until it is normal
  obtain ⟨s, hs, hle, hge⟩ : ∃ s ≤ F.fractionBits,
      q * 2 ^ s ≤ 2 * 2 ^ F.fractionBits ∧ 2 ^ F.fractionBits ≤ q * 2 ^ s := by
    rcases Nat.lt_or_ge q (2 ^ F.fractionBits) with hlt | hge
    · have hlow := Nat.log2_self_le hpos.ne'
      have hhigh : q < 2 ^ (q.log2 + 1) := Nat.lt_log2_self
      have hlog : q.log2 < F.fractionBits := (Nat.log2_lt hpos.ne').mpr hlt
      have hshift : 2 ^ q.log2 * 2 ^ (F.fractionBits - q.log2) = 2 ^ F.fractionBits := by
        rw [← Nat.pow_add, Nat.add_sub_cancel' hlog.le]
      refine ⟨F.fractionBits - q.log2, Nat.sub_le _ _, ?_, hshift ▸ Nat.mul_le_mul_right _ hlow⟩
      rw [← hshift, ← Nat.mul_assoc, ← Nat.pow_succ']
      exact Nat.mul_le_mul_right _ hhigh.le
    · exact ⟨0, Nat.zero_le _, by simpa using hq, by simpa using hge⟩
  refine ⟨q * 2 ^ s + (x - s - F.minExponent).toNat * 2 ^ F.fractionBits, ?_⟩
  rw [value_of_fits ⟨hle, .inr hge⟩,
    show F.minExponent + ((x - s - F.minExponent).toNat : Int) = -s + x by omega,
    zpow_add₀ two_ne_zero, zpow_neg, zpow_natCast]
  push_cast
  rw [mul_assoc, ← mul_assoc (2 ^ s : ℚ), mul_inv_cancel₀ (by positivity), one_mul]

/-- Patterns are in the order of their values. -/
theorem value_lt_succ (F : Format) (m : Nat) : F.value m < F.value (m + 1) := by
  obtain ⟨q, e, rfl, h, h'⟩ := F.exists_fits m
  rw [value_succ h h']
  have : (0 : ℚ) < 2 ^ (F.minExponent + e) := by positivity
  linarith

theorem strictMono_value (F : Format) : StrictMono F.value :=
  strictMono_nat_of_lt_succ F.value_lt_succ

/-- The middle lies between a value and the next one. -/
theorem value_lt_middle (F : Format) (m : Nat) : F.value m < F.middle m := by
  have := F.value_lt_succ m
  simp only [middle]
  linarith

theorem middle_lt_value (F : Format) (m : Nat) : F.middle m < F.value (m + 1) := by
  have := F.value_lt_succ m
  simp only [middle]
  linarith

theorem strictMono_middle (F : Format) : StrictMono F.middle :=
  strictMono_nat_of_lt_succ fun m => (F.middle_lt_value m).trans (F.value_lt_middle (m + 1))

/-- The middle is half a unit of the significand further. -/
theorem middle_of_fits (h : F.Fits q e) (h' : F.Fits (q + 1) e) :
    F.middle (q + e * 2 ^ F.fractionBits) = (q + 1 / 2) * 2 ^ (F.minExponent + e) := by
  rw [middle, value_succ h h', value_of_fits h]
  ring

/-! ### The nearest pattern -/

/-- The pattern is the nearest of the number, and the even one of two. -/
structure Rounds (F : Format) (v : ℚ) (m : Nat) : Prop where
  below : ∀ k, v < F.middle k → m ≤ k
  above : ∀ k, F.middle k < v → k < m
  even : ∀ k, v = F.middle k → m % 2 = 0

namespace Rounds

/-- Rounding does not go past a value that bounds the number. -/
theorem le_of_le (h : F.Rounds v m) (hv : v ≤ F.value k) : m ≤ k :=
  h.below k (hv.trans_lt (F.value_lt_middle k))

theorem ge_of_ge (h : F.Rounds v m) (hv : F.value k ≤ v) : k ≤ m := by
  cases k with
  | zero => exact Nat.zero_le _
  | succ k => exact h.above k ((F.middle_lt_value k).trans_le hv)

/-- A number that a pattern stands for is not changed. -/
theorem eq_of_value (h : F.Rounds (F.value k) m) : m = k :=
  Nat.le_antisymm (h.le_of_le le_rfl) (h.ge_of_ge le_rfl)

/-- A middle after an odd pattern goes up, with all above it. -/
theorem gt_of_middle_le (h : F.Rounds v m) (hv : F.middle k ≤ v) (hodd : k % 2 = 1) : k < m := by
  rcases hv.lt_or_eq with hlt | rfl
  · exact h.above k hlt
  · have hge : k ≤ m := h.ge_of_ge (F.value_lt_middle k).le
    have heven := h.even k rfl
    omega

/-- A number that is rounded up has passed the middle. -/
theorem middle_le_of_gt (h : F.Rounds v m) (hk : k < m) : F.middle k ≤ v :=
  not_lt.mp fun hlt => (h.below k hlt).not_gt hk

theorem le_middle_of_le (h : F.Rounds v m) (hk : m ≤ k) : v ≤ F.middle k :=
  not_lt.mp fun hlt => (h.above k hlt).not_ge hk

theorem zero (F : Format) : F.Rounds 0 0 := by
  have hpos : ∀ k, 0 < F.middle k := fun k => (F.value_nonneg k).trans_lt (F.value_lt_middle k)
  exact ⟨fun k _ => Nat.zero_le k, fun k hk => absurd hk (hpos k).not_gt,
    fun _ _ => rfl⟩

end Rounds
end Format

/-! ### One rounding of a ratio -/

section
variable {num den : Nat}

/-- The integer is at most half away from the number, and even if it is half away. -/
structure Nearest (r : ℚ) (q : Nat) : Prop where
  upper : r ≤ q + 1 / 2
  lower : q ≤ r + 1 / 2
  even : r = q + 1 / 2 ∨ q = r + 1 / 2 → q % 2 = 0

/-- Twice the ratio is at most one from twice the quotient, and an odd quotient is nearer. -/
theorem roundQuotient_spec (num : Nat) {den : Nat} (hden : 0 < den) :
    2 * num ≤ (2 * roundQuotient num den + 1) * den ∧
      2 * (roundQuotient num den * den) ≤ 2 * num + den ∧
      (2 * num = (2 * roundQuotient num den + 1) * den ∨
        2 * (roundQuotient num den * den) = 2 * num + den → roundQuotient num den % 2 = 0) := by
  have hdiv := Nat.div_add_mod' num den
  have hmod := Nat.mod_lt num hden
  have hodd : (2 * (num / den) + 1) * den = 2 * (num / den * den) + den := by ring
  have hodd' : (2 * (num / den + 1) + 1) * den = 2 * (num / den * den) + 3 * den := by ring
  have hnext : (num / den + 1) * den = num / den * den + den := by ring
  simp only [roundQuotient]
  split
  · rw [hodd]
    omega
  · split
    · rw [hodd', hnext]
      omega
    · rcases Nat.mod_two_eq_zero_or_one (num / den) with hq | hq
      · rw [hq]
        simp only [Nat.add_zero, hodd]
        omega
      · rw [hq, hodd', hnext]
        omega

/-- A quotient is rounded to its nearest integer, ties to even. -/
theorem nearest_roundQuotient (num : Nat) (hden : 0 < den) :
    Nearest (num / den) (roundQuotient num den) := by
  have hden' : (0 : ℚ) < den := by exact_mod_cast hden
  obtain ⟨hupper, hlower, heven⟩ := roundQuotient_spec num hden
  generalize roundQuotient num den = q at *
  refine ⟨?_, ?_, fun h => heven ?_⟩
  · rw [div_le_iff₀ hden']
    have : (2 * num : ℚ) ≤ (2 * q + 1) * den := by exact_mod_cast hupper
    linarith
  · rw [← sub_le_iff_le_add, le_div_iff₀ hden']
    have : (2 * (q * den) : ℚ) ≤ 2 * num + den := by exact_mod_cast hlower
    linarith
  · rw [div_eq_iff hden'.ne', eq_comm (a := (q : ℚ)), ← eq_sub_iff_add_eq,
      div_eq_iff hden'.ne'] at h
    refine h.imp (fun h => ?_) fun h => ?_
    · have : (2 * num : ℚ) = (2 * q + 1) * den := by linarith
      exact_mod_cast this
    · have : (2 * (q * den) : ℚ) = 2 * num + den := by linarith
      exact_mod_cast this

/-- A power of two is a ratio of two whole ones. -/
theorem two_zpow_eq (e : Int) :
    (2 : ℚ) ^ e = ((2 ^ e.toNat : Nat) : ℚ) / (2 ^ (-e).toNat : Nat) := by
  push_cast
  rw [← zpow_natCast, ← zpow_natCast, ← zpow_sub₀ two_ne_zero]
  congr 1
  omega

/-- A ratio counted in units of a power of two. -/
theorem ratio_in_units (num den : Nat) (e : Int) :
    ((num * 2 ^ (-e).toNat : Nat) : ℚ) / (den * 2 ^ e.toNat : Nat) = num / den / 2 ^ e := by
  rw [two_zpow_eq]
  push_cast
  rw [div_div_eq_mul_div, div_mul_eq_mul_div, div_div]

/-- The binade of a quotient. -/
theorem ratioLog2_spec (hnum : 0 < num) (hden : 0 < den) :
    (2 : ℚ) ^ ratioLog2 num den ≤ num / den ∧ (num / den : ℚ) < 2 ^ (ratioLog2 num den + 1) := by
  have hden' : (0 : ℚ) < den := by exact_mod_cast hden
  have hlow : (2 : ℚ) ^ (num.log2 : Int) ≤ num := by exact_mod_cast Nat.log2_self_le hnum.ne'
  have hhigh : (num : ℚ) < 2 ^ (num.log2 + 1 : Int) := by exact_mod_cast Nat.lt_log2_self
  have hlow' : (2 : ℚ) ^ (den.log2 : Int) ≤ den := by exact_mod_cast Nat.log2_self_le hden.ne'
  have hhigh' : (den : ℚ) < 2 ^ (den.log2 + 1 : Int) := by exact_mod_cast Nat.lt_log2_self
  -- the difference of the logarithms is right, or one too large
  have htest : den * 2 ^ ((num.log2 : Int) - den.log2).toNat ≤
        num * 2 ^ (-((num.log2 : Int) - den.log2)).toNat ↔
      (2 : ℚ) ^ ((num.log2 : Int) - den.log2) ≤ num / den := by
    rw [two_zpow_eq, div_le_div_iff₀ (by positivity) hden']
    rw [mul_comm (_ : ℚ) (den : ℚ)]
    exact_mod_cast Iff.rfl
  have hupper : (num / den : ℚ) < 2 ^ ((num.log2 : Int) - den.log2 + 1) := by
    rw [div_lt_iff₀ hden']
    calc (num : ℚ) < 2 ^ (num.log2 + 1 : Int) := hhigh
      _ = 2 ^ ((num.log2 : Int) - den.log2 + 1) * 2 ^ (den.log2 : Int) := by
        rw [← zpow_add₀ two_ne_zero]
        congr 1
        ring
      _ ≤ 2 ^ ((num.log2 : Int) - den.log2 + 1) * den := by gcongr
  have hlower : (2 : ℚ) ^ ((num.log2 : Int) - den.log2 - 1) ≤ num / den := by
    rw [le_div_iff₀ hden']
    calc (2 : ℚ) ^ ((num.log2 : Int) - den.log2 - 1) * den
        ≤ 2 ^ ((num.log2 : Int) - den.log2 - 1) * 2 ^ (den.log2 + 1 : Int) := by gcongr
      _ = 2 ^ (num.log2 : Int) := by
        rw [← zpow_add₀ two_ne_zero]
        congr 1
        ring
      _ ≤ num := hlow
  simp only [ratioLog2]
  split
  · next h => exact ⟨htest.mp h, hupper⟩
  · next h =>
      refine ⟨hlower, ?_⟩
      rw [Int.sub_add_cancel]
      exact not_le.mp fun hle => h (htest.mpr hle)

namespace Format
variable {F : Format} {q e k m : Nat} {r v : ℚ}

/-- The middle after a number rounded in units of its exponent, and when the number lies there. -/
theorem le_middle_of_nearest (h : Nearest r q) (hfits : F.Fits q e)
    (hr : r < 2 * 2 ^ F.fractionBits) :
    r * 2 ^ (F.minExponent + e) ≤ F.middle (q + e * 2 ^ F.fractionBits) ∧
      (r * 2 ^ (F.minExponent + e) = F.middle (q + e * 2 ^ F.fractionBits) → r = q + 1 / 2) := by
  have hunit : (0 : ℚ) < 2 ^ (F.minExponent + e) := by positivity
  rcases Nat.lt_or_ge q (2 * 2 ^ F.fractionBits) with hq | hq
  · rw [middle_of_fits hfits ⟨hq, hfits.normal.imp_right fun h => h.trans (Nat.le_succ q)⟩]
    exact ⟨mul_le_mul_of_nonneg_right h.upper hunit.le, mul_right_cancel₀ hunit.ne'⟩
  · have hq' : (2 * 2 ^ F.fractionBits : ℚ) ≤ q := by exact_mod_cast hq
    have hless : r * 2 ^ (F.minExponent + e) < F.middle (q + e * 2 ^ F.fractionBits) :=
      calc r * 2 ^ (F.minExponent + e) < q * 2 ^ (F.minExponent + e) :=
            mul_lt_mul_of_pos_right (hr.trans_le hq') hunit
        _ < _ := value_of_fits hfits ▸ F.value_lt_middle _
    exact ⟨hless.le, fun heq => absurd heq hless.ne⟩

/-- The middle before it. -/
theorem middle_le_of_nearest (h : Nearest r q) (hfits : F.Fits q e)
    (hnormal : e = 0 ∨ (2 : ℚ) ^ F.fractionBits ≤ r) (hk : k + 1 = q + e * 2 ^ F.fractionBits) :
    F.middle k ≤ r * 2 ^ (F.minExponent + e) ∧
      (r * 2 ^ (F.minExponent + e) = F.middle k → q = r + 1 / 2) := by
  have hunit : (0 : ℚ) < 2 ^ (F.minExponent + e) := by positivity
  by_cases hlast : ∃ q', q = q' + 1 ∧ (e = 0 ∨ 2 ^ F.fractionBits ≤ q')
  · obtain ⟨q', rfl, hn⟩ := hlast
    obtain rfl : k = q' + e * 2 ^ F.fractionBits := by omega
    have hlower := h.lower
    push_cast at hlower ⊢
    rw [middle_of_fits ⟨(Nat.le_succ q').trans hfits.le, hn⟩ hfits]
    refine ⟨mul_le_mul_of_nonneg_right (by linarith) hunit.le, fun heq => ?_⟩
    linarith [mul_right_cancel₀ hunit.ne' heq]
  · -- the pattern before is the last one of the exponent before
    have hpos : 0 < 2 ^ F.fractionBits := Nat.two_pow_pos _
    have hfirst : e ≠ 0 ∧ q = 2 ^ F.fractionBits := by
      rcases hfits.normal with rfl | hle
      · exact absurd ⟨q - 1, by omega, .inl rfl⟩ hlast
      · refine ⟨fun he => hlast ⟨q - 1, by omega, .inl he⟩, ?_⟩
        by_contra hne
        exact hlast ⟨q - 1, by omega, .inr (by omega)⟩
    have hq : (q : ℚ) ≤ r := by
      rw [hfirst.2]
      exact_mod_cast hnormal.resolve_left hfirst.1
    have hless : F.middle k < r * 2 ^ (F.minExponent + e) :=
      calc F.middle k < F.value (k + 1) := F.middle_lt_value k
        _ = q * 2 ^ (F.minExponent + e) := by rw [hk, value_of_fits hfits]
        _ ≤ _ := mul_le_mul_of_nonneg_right hq hunit.le
    exact ⟨hless.le, fun heq => absurd heq hless.ne'⟩

/-- A pattern between whose middles the number lies is the nearest. -/
theorem Rounds.of_middles (hafter : v ≤ F.middle m ∧ (v = F.middle m → m % 2 = 0))
    (hbefore : ∀ k, k + 1 = m → F.middle k ≤ v ∧ (v = F.middle k → m % 2 = 0)) :
    F.Rounds v m := by
  have hbelow : ∀ k, v < F.middle k → m ≤ k := by
    intro k hk
    by_contra hlt
    obtain ⟨j, hj⟩ : ∃ j, j + 1 = m := ⟨m - 1, by omega⟩
    exact ((F.strictMono_middle.monotone (by omega : k ≤ j)).trans (hbefore j hj).1).not_gt hk
  have habove : ∀ k, F.middle k < v → k < m := by
    intro k hk
    by_contra hlt
    exact (hafter.1.trans (F.strictMono_middle.monotone (not_lt.mp hlt))).not_gt hk
  refine ⟨hbelow, habove, fun k hk => ?_⟩
  -- the middle in which the number lies is one of the two
  have hle : m ≤ k + 1 := hbelow _ (hk ▸ F.strictMono_middle (Nat.lt_succ_self k))
  rcases Nat.lt_or_ge k m with hlt | hge
  · exact (hbefore k (by omega)).2 hk
  · refine hafter.2 ?_
    rcases hge.lt_or_eq with hlt | rfl
    · exact absurd (hafter.1.trans_lt (F.strictMono_middle hlt)) hk.not_lt
    · exact hk

/-- A number rounded in units of its exponent is rounded to the nearest pattern. -/
theorem rounds_of_nearest (hF : 0 < F.fractionBits) (h : Nearest r q) (hfits : F.Fits q e)
    (hr : r < 2 * 2 ^ F.fractionBits) (hnormal : e = 0 ∨ (2 : ℚ) ^ F.fractionBits ≤ r) :
    F.Rounds (r * 2 ^ (F.minExponent + e)) (q + e * 2 ^ F.fractionBits) := by
  -- the first pattern of an exponent is even, so the parities agree
  have heven : q % 2 = 0 → (q + e * 2 ^ F.fractionBits) % 2 = 0 := by
    obtain ⟨b, hb⟩ : ∃ b, F.fractionBits = b + 1 := ⟨F.fractionBits - 1, by omega⟩
    have htwo : e * 2 ^ F.fractionBits = 2 * (e * 2 ^ b) := by rw [hb, Nat.pow_succ]; ring
    omega
  obtain ⟨hle, htie⟩ := le_middle_of_nearest h hfits hr
  refine .of_middles ⟨hle, fun hv => heven (h.even (.inl (htie hv)))⟩ fun k hk => ?_
  obtain ⟨hge, htie'⟩ := middle_le_of_nearest h hfits hnormal hk
  exact ⟨hge, fun hv => heven (h.even (.inr (htie' hv)))⟩

/-- The exponent in whose units a ratio is rounded. -/
def unit (F : Format) (num den : Nat) : Int :=
  max F.minExponent (ratioLog2 num den - F.fractionBits)

/-- The pattern that a ratio is rounded to, as if there were no infinity. -/
def rounded (F : Format) (num den : Nat) : Nat :=
  let e := F.unit num den
  roundQuotient (num * 2 ^ (-e).toNat) (den * 2 ^ e.toNat) +
    (e - F.minExponent).toNat * 2 ^ F.fractionBits

/-- In units of its exponent a ratio has a significand of the format. -/
theorem ratio_in_unit (F : Format) (hnum : 0 < num) (hden : 0 < den) :
    (num / den / 2 ^ F.unit num den : ℚ) < 2 * 2 ^ F.fractionBits ∧
      ((F.unit num den - F.minExponent).toNat = 0 ∨
        (2 : ℚ) ^ F.fractionBits ≤ num / den / 2 ^ F.unit num den) := by
  obtain ⟨hlow, hhigh⟩ := ratioLog2_spec hnum hden
  have hunit : (0 : ℚ) < 2 ^ F.unit num den := by positivity
  refine ⟨?_, ?_⟩
  · rw [div_lt_iff₀ hunit]
    calc (num / den : ℚ) < 2 ^ (ratioLog2 num den + 1) := hhigh
      _ ≤ 2 ^ (1 + F.fractionBits + F.unit num den) := by
        refine zpow_le_zpow_right₀ one_le_two ?_
        have : ratioLog2 num den - F.fractionBits ≤ F.unit num den := le_max_right _ _
        omega
      _ = 2 * 2 ^ F.fractionBits * 2 ^ F.unit num den := by
        rw [zpow_add₀ two_ne_zero, zpow_add₀ two_ne_zero, zpow_one, zpow_natCast]
  · rcases max_choice F.minExponent (ratioLog2 num den - F.fractionBits) with hmin | hmin
    · exact .inl (by rw [unit, hmin]; omega)
    · refine .inr ?_
      rw [le_div_iff₀ hunit]
      calc (2 : ℚ) ^ F.fractionBits * 2 ^ F.unit num den
          = 2 ^ (F.fractionBits + (ratioLog2 num den - F.fractionBits)) := by
            rw [zpow_add₀ two_ne_zero, zpow_natCast, unit, hmin]
        _ = 2 ^ ratioLog2 num den := by
            congr 1
            ring
        _ ≤ num / den := hlow

/-- Rounding does not take a significand out of the format. -/
theorem fits_of_nearest (h : Nearest r q) (hr : r < 2 * 2 ^ F.fractionBits)
    (hnormal : e = 0 ∨ (2 : ℚ) ^ F.fractionBits ≤ r) : F.Fits q e := by
  refine ⟨?_, hnormal.imp_right fun hle => ?_⟩
  · have : (q : ℚ) < 2 * 2 ^ F.fractionBits + 1 := by linarith [h.lower]
    exact_mod_cast Nat.lt_succ_iff.mp (by exact_mod_cast this)
  · have : (2 : ℚ) ^ F.fractionBits < q + 1 := by linarith [h.upper]
    exact_mod_cast Nat.lt_succ_iff.mp (by exact_mod_cast this)

/-- A quotient is rounded to its nearest value. -/
theorem rounds_rounded (hF : 0 < F.fractionBits) (hnum : 0 < num) (hden : 0 < den) :
    F.Rounds (num / den) (F.rounded num den) := by
  have hunit : (2 : ℚ) ^ F.unit num den ≠ 0 := by positivity
  have hnearest := nearest_roundQuotient (num * 2 ^ (-F.unit num den).toNat)
    (Nat.mul_pos hden (Nat.two_pow_pos (F.unit num den).toNat))
  rw [ratio_in_units] at hnearest
  have hexp : F.minExponent + ((F.unit num den - F.minExponent).toNat : Int) = F.unit num den := by
    have : F.minExponent ≤ F.unit num den := le_max_left _ _
    omega
  obtain ⟨hless, hnormal⟩ := F.ratio_in_unit hnum hden
  have hrounds := rounds_of_nearest hF hnearest (fits_of_nearest hnearest hless hnormal) hless
    hnormal
  rw [hexp, div_mul_cancel₀ _ hunit] at hrounds
  exact hrounds

end Format
end

/-! ### What operations round -/

theorem Format.infinity_lt (F : Format) : F.infinity < 2 ^ (F.width - 1) := by
  have hwidth : F.width - 1 = F.exponentBits + F.fractionBits := by rw [width]; omega
  have hpos : 0 < 2 ^ F.fractionBits := Nat.two_pow_pos _
  have hpos' : 0 < 2 ^ F.exponentBits := Nat.two_pow_pos _
  rw [hwidth, Nat.pow_add, infinity]
  exact Nat.mul_lt_mul_of_pos_right (by omega) hpos

namespace Binary
variable {F : Format} {x y : Binary F} {m k num den : Nat} {v : ℚ} {e : Int}

/-- The number that a pattern stands for. -/
def value (x : Binary F) : ℚ :=
  if x.isNegative then -F.value x.magnitude else F.value x.magnitude

/-- Neither infinite nor what is not a number. -/
def IsFinite (x : Binary F) : Prop := x.magnitude < F.infinity

/-- The pattern is the nearest of the number, and has its sign. -/
structure IsNearest (v : ℚ) (x : Binary F) : Prop where
  rounds : F.Rounds |v| x.magnitude
  sign : v ≠ 0 → x.isNegative = decide (v < 0)

/-- A pattern is put together from its magnitude and its sign. -/
theorem parts_ofParts (negative : Bool) (hm : m ≤ F.infinity) :
    (ofParts negative m : Binary F).magnitude = m ∧
      (ofParts negative m : Binary F).isNegative = negative := by
  have hless := hm.trans_lt F.infinity_lt
  have hwidth : 2 ^ F.width = 2 * 2 ^ (F.width - 1) := by
    rw [← Nat.pow_succ', Nat.succ_eq_add_one, Nat.sub_add_cancel (by rw [Format.width]; omega)]
  have htoNat : (ofParts negative m : Binary F).toNat =
      if negative then 2 ^ (F.width - 1) + m else m := by
    simp only [toNat, ofParts, ofBits, BitVec.toNat_ofNat]
    refine Nat.mod_eq_of_lt ?_
    split <;> omega
  simp only [magnitude, isNegative, htoNat]
  cases negative with
  | false => exact ⟨Nat.mod_eq_of_lt hless, decide_eq_false (by simpa using hless)⟩
  | true =>
      refine ⟨?_, decide_eq_true (Nat.le_add_right _ _)⟩
      rw [if_pos rfl, Nat.add_mod_left, Nat.mod_eq_of_lt hless]

theorem IsFinite.isNaN (h : x.IsFinite) : x.isNaN = false :=
  decide_eq_false (Nat.lt_asymm h)

theorem IsFinite.isInfinite (h : x.IsFinite) : x.isInfinite = false :=
  decide_eq_false (Nat.ne_of_lt h)

theorem abs_value (x : Binary F) : |x.value| = F.value x.magnitude := by
  simp only [value]
  split
  · rw [abs_neg, abs_of_nonneg (F.value_nonneg _)]
  · rw [abs_of_nonneg (F.value_nonneg _)]

theorem value_magnitude (x : Binary F) : F.value x.magnitude = x.significand * 2 ^ x.exponent := rfl

theorem IsNearest.value_of_nonneg (h : IsNearest v x) (hv : 0 ≤ v) :
    x.value = F.value x.magnitude := by
  rcases hv.eq_or_lt with rfl | hpos
  · have hzero : x.magnitude = 0 := by
      refine Nat.le_zero.mp (h.rounds.le_of_le ?_)
      rw [abs_zero, F.value_zero]
    simp only [value, hzero, F.value_zero, neg_zero, ite_self]
  · rw [value, h.sign hpos.ne', decide_eq_false hpos.not_gt, if_neg Bool.false_ne_true]

/-- A number that a pattern stands for is kept. -/
theorem IsNearest.value_eq (h : IsNearest v x) (hm : F.value m = |v|) : x.value = v := by
  have hmag : x.magnitude = m := (hm.symm ▸ h.rounds).eq_of_value
  rcases eq_or_ne v 0 with rfl | hv
  · simp [value, hmag, hm]
  · rw [value, h.sign hv, hmag, hm]
    rcases hv.lt_or_gt with hneg | hpos
    · simp [hneg, abs_of_neg hneg]
    · simp [hpos.not_gt, abs_of_pos hpos]

/-- What lies below a finite bound is rounded to a finite number. -/
theorem IsNearest.isFinite (h : IsNearest v x) (hk : k < F.infinity) (hv : |v| ≤ F.value k) :
    x.IsFinite := (h.rounds.le_of_le hv).trans_lt hk

/-- The sign of a number other than zero. -/
theorem isNegative_eq (h : x.value ≠ 0) : x.isNegative = decide (x.value < 0) := by
  have hpos : 0 < F.value x.magnitude := abs_value x ▸ abs_pos.mpr h
  rcases Bool.eq_false_or_eq_true x.isNegative with hs | hs
  · simp [value, hs, hpos]
  · simp [value, hs, hpos.le]

/-- The sign of a product of such numbers. -/
theorem isNegative_bne (hx : x.value ≠ 0) (hy : y.value ≠ 0) :
    (x.isNegative != y.isNegative) = decide (x.value * y.value < 0) := by
  rw [isNegative_eq hx, isNegative_eq hy]
  rcases hx.lt_or_gt with hx | hx <;> rcases hy.lt_or_gt with hy | hy <;>
    simp [mul_neg_iff, hx, hy, hx.not_gt, hy.not_gt]

/-- The ratio of two integers is rounded once. -/
theorem ofRatio_spec (negative : Bool) (hF : 0 < F.fractionBits) (hden : 0 < den)
    (hk : k < F.infinity) (hv : (num / den : ℚ) ≤ F.value k) :
    F.Rounds (num / den) (ofRatio negative num den : Binary F).magnitude ∧
      (ofRatio negative num den : Binary F).isNegative = negative := by
  rcases Nat.eq_zero_or_pos num with rfl | hnum
  · obtain ⟨hmag, hsign⟩ := parts_ofParts (F := F) negative (Nat.zero_le _)
    have hzero : (ofRatio negative 0 den : Binary F) = ofParts negative 0 := if_pos rfl
    rw [hzero, hmag, Nat.cast_zero, zero_div]
    exact ⟨.zero F, hsign⟩
  · have hrounds := F.rounds_rounded hF hnum hden
    have hfinite : F.rounded num den ≤ F.infinity := (hrounds.le_of_le hv).trans hk.le
    obtain ⟨hmag, hsign⟩ := parts_ofParts negative hfinite
    have hparts : (ofRatio negative num den : Binary F) =
        ofParts negative (min F.infinity (F.rounded num den)) := if_neg hnum.ne'
    rw [hparts, Nat.min_eq_right hfinite, hmag]
    exact ⟨hrounds, hsign⟩

/-- A number that is scaled by a power of two is rounded once. -/
theorem ofScaled_spec (negative : Bool) (hF : 0 < F.fractionBits) (hk : k < F.infinity)
    (hv : (m * 2 ^ e : ℚ) ≤ F.value k) :
    F.Rounds (m * 2 ^ e) (ofScaled negative m e : Binary F).magnitude ∧
      (ofScaled negative m e : Binary F).isNegative = negative := by
  have hratio : ((m * 2 ^ e.toNat : Nat) / (2 ^ (-e).toNat : Nat) : ℚ) = m * 2 ^ e := by
    rw [two_zpow_eq]
    push_cast
    rw [mul_div_assoc]
  rw [← hratio] at hv ⊢
  exact ofRatio_spec negative hF (Nat.two_pow_pos _) hk hv

/-- A natural number is rounded once. -/
theorem isNearest_ofNat {n : Nat} (hF : 0 < F.fractionBits) (hk : k < F.infinity)
    (hv : (n : ℚ) ≤ F.value k) : IsNearest n (ofNat n : Binary F) := by
  have hone : (n / (1 : Nat) : ℚ) = n := by rw [Nat.cast_one, div_one]
  obtain ⟨hrounds, hsign⟩ := ofRatio_spec false hF Nat.one_pos hk (hone.symm ▸ hv)
  refine ⟨?_, fun _ => ?_⟩
  · rw [Nat.abs_cast]
    exact hone ▸ hrounds
  · exact hsign.trans (decide_eq_false (Nat.cast_nonneg n).not_gt).symm

theorem isNearest_ofInt {n : Int} (hF : 0 < F.fractionBits) (hk : k < F.infinity)
    (hv : |(n : ℚ)| ≤ F.value k) : IsNearest n (ofInt n : Binary F) := by
  have habs : (n.natAbs / (1 : Nat) : ℚ) = |(n : ℚ)| := by
    rw [Nat.cast_one, div_one, Nat.cast_natAbs, Int.cast_abs]
  obtain ⟨hrounds, hsign⟩ := ofRatio_spec (decide (n < 0)) hF Nat.one_pos hk (habs.symm ▸ hv)
  exact ⟨habs ▸ hrounds, fun _ => hsign.trans (decide_eq_decide.mpr Int.cast_lt_zero.symm)⟩

/-- A finite number is a whole count of any unit not above its own. -/
theorem unitsOf_value (x : Binary F) (he : e ≤ x.exponent) :
    (x.unitsOf e : ℚ) * 2 ^ e = x.value := by
  have hwhole : ((x.significand * 2 ^ (x.exponent - e).toNat : Nat) : ℚ) * 2 ^ e =
      F.value x.magnitude := by
    rw [value_magnitude]
    push_cast
    rw [mul_assoc, ← zpow_natCast, ← zpow_add₀ two_ne_zero]
    congr 2
    omega
  simp only [unitsOf, value]
  split
  · push_cast at hwhole ⊢
    rw [neg_mul, hwhole]
  · exact_mod_cast hwhole

/-- A sum is the exact sum, rounded. -/
theorem isNearest_add (hF : 0 < F.fractionBits) (hx : x.IsFinite) (hy : y.IsFinite)
    (hk : k < F.infinity) (hv : |x.value + y.value| ≤ F.value k) :
    IsNearest (x.value + y.value) (x.add y) := by
  set e := min x.exponent y.exponent with he
  have hsum : ((x.unitsOf e + y.unitsOf e : Int) : ℚ) * 2 ^ e = x.value + y.value := by
    push_cast
    rw [add_mul, x.unitsOf_value (min_le_left _ _), y.unitsOf_value (min_le_right _ _)]
  have hunit : (0 : ℚ) < 2 ^ e := by positivity
  have hadd : x.add y = if x.unitsOf e + y.unitsOf e = 0 then
      ofParts (x.isNegative && y.isNegative) 0
      else ofScaled (x.unitsOf e + y.unitsOf e < 0) (x.unitsOf e + y.unitsOf e).natAbs e := by
    simp only [add, hx.isNaN, hy.isNaN, hx.isInfinite, hy.isInfinite, Bool.or_self,
      Bool.false_eq_true, if_false, he]
  rw [hadd, ← hsum]
  generalize x.unitsOf e + y.unitsOf e = n at *
  have habs : |(n : ℚ) * 2 ^ e| = n.natAbs * 2 ^ e := by
    rw [abs_mul, abs_of_pos hunit, Nat.cast_natAbs, Int.cast_abs]
  split
  · next hz =>
      obtain ⟨hmag, -⟩ := parts_ofParts (F := F) (x.isNegative && y.isNegative)
        (Nat.zero_le _)
      rw [hz, Int.cast_zero, zero_mul]
      refine ⟨?_, fun h => absurd rfl h⟩
      rw [hmag, abs_zero]
      exact .zero F
  · obtain ⟨hrounds, hsign⟩ := ofScaled_spec (decide (n < 0)) hF hk
      (habs ▸ hsum ▸ hv)
    refine ⟨habs.symm ▸ hrounds, fun _ => hsign.trans ?_⟩
    exact decide_eq_decide.mpr
      ⟨fun h => mul_neg_of_neg_of_pos (Int.cast_lt_zero.mpr h) hunit,
        fun h => Int.cast_lt_zero.mp (neg_of_mul_neg_left h hunit.le)⟩

/-- A finite number is negated exactly. -/
theorem value_negate (hx : x.IsFinite) : x.negate.value = -x.value ∧ x.negate.IsFinite := by
  obtain ⟨hmag, hsign⟩ := parts_ofParts (F := F) (!x.isNegative) (Nat.le_of_lt hx)
  refine ⟨?_, ?_⟩
  · simp only [value, negate, hmag, hsign]
    cases x.isNegative <;> simp
  · rw [IsFinite, negate, hmag]
    exact hx

/-- A difference is the exact difference, rounded. -/
theorem isNearest_sub (hF : 0 < F.fractionBits) (hx : x.IsFinite) (hy : y.IsFinite)
    (hk : k < F.infinity) (hv : |x.value - y.value| ≤ F.value k) :
    IsNearest (x.value - y.value) (x.sub y) := by
  obtain ⟨hvalue, hfinite⟩ := value_negate hy
  have hsub : x.sub y = x.add y.negate := by
    simp only [sub, hy.isNaN, Bool.false_eq_true, if_false]
  rw [sub_eq_add_neg, ← hvalue] at hv ⊢
  rw [hsub]
  exact isNearest_add hF hx hfinite hk hv

/-- A product is the exact product, rounded. -/
theorem isNearest_mul (hF : 0 < F.fractionBits) (hx : x.IsFinite) (hy : y.IsFinite)
    (hk : k < F.infinity) (hv : |x.value * y.value| ≤ F.value k) :
    IsNearest (x.value * y.value) (x.mul y) := by
  have hmul : x.mul y = ofScaled (x.isNegative != y.isNegative)
      (x.significand * y.significand) (x.exponent + y.exponent) := by
    simp only [mul, hx.isNaN, hy.isNaN, hx.isInfinite, hy.isInfinite, Bool.or_self,
      Bool.false_eq_true, if_false]
  have habs : |x.value * y.value| =
      (x.significand * y.significand : Nat) * 2 ^ (x.exponent + y.exponent) := by
    rw [abs_mul, abs_value, abs_value, value_magnitude, value_magnitude, zpow_add₀ two_ne_zero]
    push_cast
    ring
  obtain ⟨hrounds, hsign⟩ := ofScaled_spec (x.isNegative != y.isNegative) hF hk
    (habs ▸ hv)
  rw [hmul]
  exact ⟨habs ▸ hrounds, fun hne => hsign.trans <|
    isNegative_bne (left_ne_zero_of_mul hne) (right_ne_zero_of_mul hne)⟩

/-- A quotient is the exact quotient, rounded. -/
theorem isNearest_div (hF : 0 < F.fractionBits) (hx : x.IsFinite) (hy : y.IsFinite)
    (hne : y.value ≠ 0) (hk : k < F.infinity) (hv : |x.value / y.value| ≤ F.value k) :
    IsNearest (x.value / y.value) (x.div y) := by
  have hden : 0 < y.significand := by
    refine Nat.pos_of_ne_zero fun hz => hne (abs_eq_zero.mp ?_)
    rw [abs_value, value_magnitude, hz, Nat.cast_zero, zero_mul]
  have hzero : y.isZero = false := by
    refine decide_eq_false fun hz => hne (abs_eq_zero.mp ?_)
    rw [abs_value, hz, F.value_zero]
  have hdiv : x.div y = ofRatio (x.isNegative != y.isNegative)
      (x.significand * 2 ^ (x.exponent - y.exponent).toNat)
      (y.significand * 2 ^ (-(x.exponent - y.exponent)).toNat) := by
    simp only [div, hx.isNaN, hy.isNaN, hx.isInfinite, hy.isInfinite, hzero, Bool.or_self,
      Bool.false_eq_true, if_false]
  have habs : |x.value / y.value| =
      (x.significand * 2 ^ (x.exponent - y.exponent).toNat : Nat) /
        (y.significand * 2 ^ (-(x.exponent - y.exponent)).toNat : Nat) := by
    have hexp : (2 : ℚ) ^ (x.exponent - y.exponent) = 2 ^ x.exponent / 2 ^ y.exponent :=
      zpow_sub₀ two_ne_zero ..
    rw [two_zpow_eq] at hexp
    rw [abs_div, abs_value, abs_value, value_magnitude, value_magnitude, mul_div_mul_comm, ← hexp]
    push_cast
    rw [div_mul_div_comm]
  obtain ⟨hrounds, hsign⟩ := ofRatio_spec (x.isNegative != y.isNegative) hF
    (Nat.mul_pos hden (Nat.two_pow_pos _)) hk (habs ▸ hv)
  rw [hdiv]
  refine ⟨habs ▸ hrounds, fun hquot => hsign.trans ?_⟩
  rw [isNegative_bne (div_ne_zero_iff.mp hquot).1 hne]
  exact decide_eq_decide.mpr (by rw [div_neg_iff, mul_neg_iff])

/-- The number in another format is the same, rounded. -/
theorem isNearest_convert {G : Format} (hG : 0 < G.fractionBits) (hx : x.IsFinite)
    (hk : k < G.infinity) (hv : |x.value| ≤ G.value k) :
    IsNearest x.value (x.convert : Binary G) := by
  have hconvert : (x.convert : Binary G) = ofScaled x.isNegative x.significand x.exponent := by
    simp only [convert, hx.isNaN, hx.isInfinite, Bool.false_eq_true, if_false]
  rw [abs_value, value_magnitude] at hv
  obtain ⟨hrounds, hsign⟩ := ofScaled_spec (F := G) x.isNegative hG hk hv
  rw [hconvert]
  refine ⟨?_, fun hne => hsign.trans (isNegative_eq hne)⟩
  rw [abs_value, value_magnitude]
  exact hrounds

/-- The negated number is the nearest of the negated one. -/
theorem IsNearest.negate (h : IsNearest v x) (hx : x.IsFinite) : IsNearest (-v) x.negate := by
  obtain ⟨hmag, hsign⟩ := parts_ofParts (F := F) (!x.isNegative) (Nat.le_of_lt hx)
  refine ⟨?_, fun hne => ?_⟩
  · rw [abs_neg, Binary.negate, hmag]
    exact h.rounds
  · have hv := neg_ne_zero.mp hne
    rw [Binary.negate, hsign, h.sign hv]
    rcases hv.lt_or_gt with hneg | hpos
    · simp [hneg, hneg.le]
    · simp [hpos, hpos.le]

/-- Cutting off the fraction. -/
theorem truncate_of_finite (limit : Nat) (hx : x.IsFinite) (hneg : x.isNegative = false) :
    x.truncate limit = min limit ⌊x.value⌋₊ := by
  have hvalue : x.value = (x.significand * 2 ^ x.exponent.toNat : Nat) /
      (2 ^ (-x.exponent).toNat : Nat) := by
    rw [value, hneg, if_neg Bool.false_ne_true, value_magnitude, two_zpow_eq]
    push_cast
    rw [mul_div_assoc]
  simp only [truncate, hx.isNaN, hx.isInfinite, hneg, Bool.or_self, Bool.false_eq_true, if_false]
  rw [hvalue, Nat.floor_div_eq_div]

end Binary

end MediaHost
