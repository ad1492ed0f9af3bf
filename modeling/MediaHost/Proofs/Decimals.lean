import MediaHost.Proofs.Rounding
import MediaHost.Proofs.Settings

/-!
# Proofs — Decimals

What a literal that is no integer is read as.  A literal of a few digits says a ratio of two numbers
that are exact in 64 bits, its digits and a power of ten, so one multiplication or division makes
the nearest number of it (`Number.scaled_nearest`), and a value of 32 bits is the nearest of that
(`Short.nearest`).
-/

namespace MediaHost.Json

/-! ### Scaling by a power of ten -/

namespace Number
open Binary
variable {n q k : Nat} {e : Int}

/-- A pattern above all that is scaled here. -/
theorem value_roof : Format.double.value (1150 * 2 ^ 52) = 2 ^ 127 :=
  (Format.value_power .double 1149).trans (zpow_natCast 2 127)

/-- At most 53 bits before some zeros have a pattern. -/
theorem exists_double (hq : q ≤ 2 ^ 53) (k : Nat) : ∃ m, Format.double.value m = q * 2 ^ k := by
  obtain ⟨m, hm⟩ := Format.exists_value_eq (F := .double) hq (x := k)
    (Int.le_trans (by decide : Format.double.minExponent + Format.double.fractionBits ≤ 0)
      (Int.natCast_nonneg k))
  exact ⟨m, by rw [hm, zpow_natCast]⟩

/-- They are exact. -/
theorem value_ofNat (hq : q ≤ 2 ^ 53) (hk : k ≤ 22) :
    (ofNat (q * 2 ^ k) : Double).IsFinite ∧
      (ofNat (q * 2 ^ k) : Double).value = q * 2 ^ k := by
  have hroof : ((q * 2 ^ k : Nat) : ℚ) ≤ Format.double.value (1150 * 2 ^ 52) := by
    rw [value_roof]
    exact_mod_cast (Nat.mul_le_mul hq (Nat.pow_le_pow_right two_pos hk)).trans (by norm_num)
  have hnearest := isNearest_ofNat (F := .double) (by decide) (by decide) hroof
  obtain ⟨m, hm⟩ := exists_double hq k
  refine ⟨hnearest.isFinite (k := 1150 * 2 ^ 52) (by decide) (by rwa [Nat.abs_cast]), ?_⟩
  rw [hnearest.value_eq (m := m) (by rw [hm, Nat.abs_cast]; push_cast; rfl)]
  push_cast
  rfl

/-- A power of ten is one of five before some zeros. -/
theorem value_tenTo (hk : k ≤ 22) : (tenTo k).IsFinite ∧ (tenTo k).value = 10 ^ k := by
  have hten : 10 ^ k = 5 ^ k * 2 ^ k := Nat.mul_pow 5 2 k
  have hfive : 5 ^ k ≤ 2 ^ 53 := (Nat.pow_le_pow_right (by decide) hk).trans (by norm_num)
  obtain ⟨hfinite, hvalue⟩ := value_ofNat hfive hk
  rw [tenTo, hten]
  refine ⟨hfinite, hvalue.trans ?_⟩
  exact_mod_cast hten.symm

theorem scaled_le (hn : n ≤ 2 ^ 53) (he : e.natAbs ≤ 22) : (n * 10 ^ e : ℚ) ≤ 2 ^ 127 :=
  calc (n * 10 ^ e : ℚ) ≤ 2 ^ 53 * 10 ^ (22 : Int) := by
        have hn : (n : ℚ) ≤ 2 ^ 53 := by exact_mod_cast hn
        have he : (10 : ℚ) ^ e ≤ 10 ^ (22 : Int) :=
          zpow_le_zpow_right₀ (by norm_num) (by omega)
        gcongr
    _ ≤ 2 ^ 127 := by norm_num

/-- One multiplication or division is one rounding. -/
theorem scaleOnce_nearest (hn : n ≤ 2 ^ 53) (he : e.natAbs ≤ 22) :
    ∃ x, scaleOnce (ofNat n) e = some x ∧ IsNearest (n * 10 ^ e) x := by
  obtain ⟨hfinite, hvalue⟩ := value_ofNat hn (Nat.zero_le 22)
  rw [Nat.pow_zero, Nat.mul_one, pow_zero, mul_one] at hvalue
  rw [Nat.pow_zero, Nat.mul_one] at hfinite
  have hroof : |(n * 10 ^ e : ℚ)| ≤ Format.double.value (1150 * 2 ^ 52) := by
    rw [value_roof, abs_of_nonneg (by positivity)]
    exact scaled_le hn he
  rcases le_or_gt 0 e with hpos | hneg
  · obtain ⟨hten, hpower⟩ := value_tenTo (k := e.toNat) (by omega)
    have hexact : (n * 10 ^ e : ℚ) = (ofNat n : Double).value * (tenTo e.toNat).value := by
      rw [hvalue, hpower, ← zpow_natCast, Int.toNat_of_nonneg hpos]
    rw [hexact] at hroof ⊢
    have hnearest := isNearest_mul (by decide) hfinite hten (by decide) hroof
    have hinf := (hnearest.isFinite (by decide) hroof).isInfinite
    exact ⟨_, by simp [scaleOnce, hpos, hinf], hnearest⟩
  · obtain ⟨hten, hpower⟩ := value_tenTo (k := (-e).toNat) (by omega)
    have hexact : (n * 10 ^ e : ℚ) = (ofNat n : Double).value / (tenTo (-e).toNat).value := by
      rw [hvalue, hpower, ← zpow_natCast, Int.toNat_of_nonneg (by omega), zpow_neg, div_inv_eq_mul]
    rw [hexact] at hroof ⊢
    have hne : (tenTo (-e).toNat).value ≠ 0 := by
      rw [hpower]
      positivity
    exact ⟨_, by simp [scaleOnce, hneg.not_ge],
      isNearest_div (by decide) hfinite hten hne (by decide) hroof⟩

/-- A number after its sign. -/
def signed (positive : Bool) (v : ℚ) : ℚ := if positive then v else -v

theorem abs_signed (positive : Bool) (v : ℚ) : |signed positive v| = |v| := by
  cases positive
  · exact abs_neg v
  · rfl

/-- A number of at most 53 bits, scaled by ten to a power of at most 22, is rounded once. -/
theorem scaled_nearest (positive : Bool) (hn : n ≤ 2 ^ 53) (he : e.natAbs ≤ 22) :
    ∃ x, scaled positive n e = some x ∧ IsNearest (signed positive (n * 10 ^ e)) x := by
  obtain ⟨x, hx, hnearest⟩ := scaleOnce_nearest hn he
  have hsteps : scaleBy (e.natAbs / maxTen) (ofNat n) e = some x := by
    rw [Nat.div_eq_of_lt (he.trans_lt (by decide))]
    exact hx
  rw [scaled, hsteps]
  cases positive with
  | true => exact ⟨x, rfl, hnearest⟩
  | false =>
      have hroof : |(n * 10 ^ e : ℚ)| ≤ Format.double.value (1150 * 2 ^ 52) := by
        rw [value_roof, abs_of_nonneg (by positivity)]
        exact scaled_le hn he
      exact ⟨x.negate, rfl, hnearest.negate (hnearest.isFinite (by decide) hroof)⟩

/-- What a number becomes in 64 bits is the nearest of `v`, and in 32 bits the nearest of that. -/
structure Rounds (x : Number) (v : ℚ) : Prop where
  double : IsNearest v (Reader.rounded id x)
  single : IsNearest (Reader.rounded id x).value (Reader.rounded convert x : Single)

theorem roof_single : Format.single.value (254 * 2 ^ 23) = 2 ^ 127 :=
  (Format.value_power .single 253).trans (zpow_natCast 2 127)

/-- A double keeps below the roof when it is rounded again. -/
theorem Rounds.of_real {x : Double} {v : ℚ} (h : IsNearest v x) (hv : |v| ≤ 2 ^ 127) :
    Rounds (.real x) v := by
  rw [← value_roof] at hv
  refine ⟨h, isNearest_convert (by decide) (h.isFinite (by decide) hv)
    (by decide : 254 * 2 ^ 23 < Format.single.infinity) ?_⟩
  rw [roof_single, ← value_roof, abs_value]
  exact Format.double.strictMono_value.monotone (h.rounds.le_of_le hv)

/-- An integer of at most 53 bits is exact in 64 bits. -/
theorem rounds_ofInt {i : Int} (hi : i.natAbs ≤ 2 ^ 53) :
    IsNearest i (ofInt i : Double) ∧
      IsNearest (ofInt i : Double).value (ofInt i : Single) := by
  have habs : |(i : ℚ)| = i.natAbs := by rw [Nat.cast_natAbs, Int.cast_abs]
  have hle : |(i : ℚ)| ≤ 2 ^ 127 := by
    rw [habs]
    exact_mod_cast hi.trans (by norm_num)
  obtain ⟨m, hm⟩ := exists_double hi 0
  rw [pow_zero, mul_one] at hm
  have hdouble : IsNearest i (ofInt i : Double) :=
    isNearest_ofInt (k := 1150 * 2 ^ 52) (by decide) (by decide) (by rwa [value_roof])
  refine ⟨hdouble, ?_⟩
  rw [hdouble.value_eq (hm.trans habs.symm)]
  exact isNearest_ofInt (k := 254 * 2 ^ 23) (by decide) (by decide) (by rwa [roof_single])

theorem ofInt_natCast {F : Format} (n : Nat) : (ofInt (n : Int) : Binary F) = ofNat n := by
  rw [ofInt, decide_eq_false (Int.natCast_nonneg n).not_gt, Int.natAbs_natCast]
  rfl

theorem rounds_ofInteger (positive : Bool) (hn : n ≤ 2 ^ 53) :
    Rounds (ofInteger positive n) (signed positive n) := by
  have hnat := rounds_ofInt (i := n) hn
  rw [ofInt_natCast, ofInt_natCast, Int.cast_natCast] at hnat
  cases positive with
  | true => exact ⟨hnat.1, hnat.2⟩
  | false =>
      rcases Nat.eq_zero_or_pos n with rfl | hpos
      · -- minus zero is no integer
        have hfinite : (ofNat 0 : Double).IsFinite := (value_ofNat hn (Nat.zero_le 22)).1
        exact .of_real (hnat.1.negate hfinite) (by simp [signed])
      · have hneg : ofInteger false n = .negative n := by
          simp [ofInteger, hpos.ne', hn.trans (by norm_num : (2 : Nat) ^ 53 ≤ 0x8000000000000000)]
        have hcast : signed false n = ((-n : Int) : ℚ) := by simp [signed]
        obtain ⟨hdouble, hsingle⟩ := rounds_ofInt (i := -n) (by rwa [Int.natAbs_neg])
        rw [hneg, hcast]
        exact ⟨hdouble, hsingle⟩

end Number

/-! ### Literals of a few digits -/

/-- A literal that says `v` in at most 53 bits of digits, with the point moved by at most 22
places. -/
inductive Short : ℚ → List Char → Prop
  | of {sign whole places power : List Char} (sign_mem : sign ∈ [[], ['-']])
      (whole_ok : Whole whole) (places_ok : Places places) (power_ok : Power power)
      (digits : Nat.ofDigitChars 10 (whole ++ places.tail) 0 ≤ 2 ^ 53)
      (exponent : (Number.powerOf power).natAbs ≤ Number.maxExponent)
      (scale : (Number.powerOf power - places.tail.length).natAbs ≤ 22) :
      Short (Number.signed sign.isEmpty (Nat.ofDigitChars 10 (whole ++ places.tail) 0 *
        10 ^ (Number.powerOf power - places.tail.length)))
        (sign ++ (whole ++ (places ++ power)))

section
variable {sign whole places power l : List Char} {v : ℚ}

/-- All digits of a short literal count. -/
theorem Number.worth_short (positive : Bool)
    (hdigits : Nat.ofDigitChars 10 (whole ++ places.tail) 0 ≤ 2 ^ 53)
    (hexponent : (powerOf power).natAbs ≤ maxExponent) :
    worth positive whole places power =
      if places = [] ∧ power = [] then
        some (ofInteger positive (Nat.ofDigitChars 10 (whole ++ places.tail) 0))
      else
        (scaled positive (Nat.ofDigitChars 10 (whole ++ places.tail) 0)
          (powerOf power - places.tail.length)).map .real := by
  have hlimit : Nat.ofDigitChars 10 (whole ++ places.tail) 0 < limit :=
    hdigits.trans_lt (by decide)
  have hall : Nat.ofDigitChars 10 places.tail (Nat.ofDigitChars 10 whole 0) =
      Nat.ofDigitChars 10 (whole ++ places.tail) 0 := (Nat.ofDigitChars_append 0).symm
  have hlimit' : Nat.ofDigitChars 10 whole 0 < limit :=
    (le_ofDigitChars _ places.tail).trans_lt (hall.symm ▸ hlimit)
  obtain ⟨hfit, hwhole⟩ := fitting_of_lt hlimit'
  obtain ⟨hfit', hplaces⟩ := fitting_of_lt (hall.symm ▸ hlimit)
  rw [worth, hfit, hwhole, Nat.sub_self, completed, hfit', hplaces, hall]
  by_cases hparts : places = [] ∧ power = []
  · obtain ⟨rfl, rfl⟩ := hparts
    simp
  · rw [if_neg (fun h => hparts ⟨h.1, h.2.1⟩), if_neg hparts, raised,
      if_neg (Nat.not_lt.mpr hexponent)]
    congr 2
    omega

/-- A short literal stands for a number, and that is rounded from what the literal says. -/
theorem Short.stands (h : Short v l) : ∃ x, Stands x l ∧ x.Rounds v := by
  obtain @⟨sign, whole, places, power, sign_mem, whole_ok, places_ok, power_ok, digits, exponent,
    scale⟩ := h
  have hworth := Number.worth_short sign.isEmpty digits exponent
  by_cases hparts : places = [] ∧ power = []
  · rw [if_pos hparts] at hworth
    refine ⟨_, .of sign_mem whole_ok places_ok power_ok hworth, ?_⟩
    obtain ⟨rfl, rfl⟩ := hparts
    have hzero : Number.powerOf [] - (([] : List Char).tail.length : Int) = 0 := rfl
    rw [hzero, zpow_zero, mul_one]
    exact Number.rounds_ofInteger _ digits
  · obtain ⟨x, hx, hnearest⟩ := Number.scaled_nearest sign.isEmpty digits scale
    rw [if_neg hparts, hx] at hworth
    refine ⟨_, .of sign_mem whole_ok places_ok power_ok hworth, .of_real hnearest ?_⟩
    rw [Number.abs_signed, abs_of_nonneg (by positivity)]
    exact Number.scaled_le digits scale

/-- A short literal is read as the double that is nearest to what it says; a value of 32 bits is
the nearest to that double. -/
theorem Short.nearest (h : Short v l) :
    ∃ x : Double, Binary.IsNearest v x ∧ (∀ y, Rounded id y l ↔ y = x) ∧
      ∀ y : Single, Rounded Binary.convert y l → Binary.IsNearest x.value y := by
  obtain ⟨z, hstands, hdouble, hsingle⟩ := h.stands
  refine ⟨Reader.rounded id z, hdouble, fun y => ⟨?_, ?_⟩, ?_⟩
  · rintro ⟨n, hn, rfl⟩
    rw [hn.eq hstands]
  · rintro rfl
    exact ⟨z, hstands, rfl⟩
  · rintro y ⟨n, hn, rfl⟩
    rwa [hn.eq hstands]

end
end MediaHost.Json
