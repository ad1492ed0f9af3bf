import MediaHost.Proofs.Literals
import Mathlib.Data.Nat.Find

/-!
# Proofs — Numerals

What a number stands for, by its digits (`Number.worth`): an integer of at most 64 bits stands
for itself; of any other number the first digits count, as many as fit in 64 bits, and the others
move the point.  The reader makes that of a number whatever ends it (`number_worth`), and so
reads the digits of an integer as the integer (`worth_toDigits`); a number that is passed over is
passed over to its end, whatever it stands for (`found_skipUnsigned`).
-/

namespace MediaHost.Json

section
variable {ds sign whole places power l rest : List Char} {n : Nat}

/-! ### What a number stands for -/

namespace Number

/-- How many of the digits fit in 64 bits after `n`. -/
def fitting (n : Nat) (ds : List Char) : Nat :=
  Nat.findGreatest (fun k => Nat.ofDigitChars 10 (ds.take k) n < limit) ds.length

/-- `n` continued by the digits that fit. -/
def continued (n : Nat) (ds : List Char) : Nat := Nat.ofDigitChars 10 (ds.take (fitting n ds)) n

/-- The value of an exponent. -/
def powerOf (power : List Char) : Int :=
  let v : Nat := Nat.ofDigitChars 10 (power.filter isDigit) 0
  if '-' ∈ power then -v else v

/-- The digits `n` scaled by `e` and by the exponent `p`.  If the exponent alone is out of range,
so is the number, or it is zero. -/
def raised (positive : Bool) (n : Nat) (e p : Int) : Option Number :=
  if maxExponent < p.natAbs then
    if n ≠ 0 ∧ 0 < p then none else some (.real (Binary.ofParts (!positive) 0))
  else (scaled positive n (e + p)).map .real

/-- The integer digits `n` and the number of those after them, with places and an exponent. -/
def completed (positive : Bool) (n dropped : Nat) (places power : List Char) : Option Number :=
  if places = [] ∧ power = [] ∧ dropped = 0 then some (ofInteger positive n)
  else
    raised positive (continued n places.tail) (dropped - fitting n places.tail) (powerOf power)

/-- What a number of these parts stands for, unless it is out of range. -/
def worth (positive : Bool) (whole places power : List Char) : Option Number :=
  completed positive (continued 0 whole) (whole.length - fitting 0 whole) places power

end Number

/-- The literal stands for the number. -/
inductive Stands (x : Number) : List Char → Prop
  | of {sign whole places power : List Char} (sign_mem : sign ∈ [[], ['-']])
      (whole_ok : Whole whole) (places_ok : Places places) (power_ok : Power power)
      (worth : Number.worth sign.isEmpty whole places power = some x) :
      Stands x (sign ++ (whole ++ (places ++ power)))

/-- What stands for a number is a number in the sense of the reader. -/
theorem Stands.numeral {x : Number} (h : Stands x l) : Numeral l := by
  obtain ⟨sign_mem, hw, hf, hp, -⟩ := h
  exact .of sign_mem hw hf hp

/-! ### Digits -/

theorem digit_value {c : Char} {v : Nat} (h : digit? c = some v) : c.toNat - '0'.toNat = v := by
  simp only [digit?] at h
  split at h
  · exact Option.some.inj h
  · exact absurd h (by simp)

theorem takeWhile_digits (hd : ∀ d ∈ ds, isDigit d) (hr : ∀ c ∈ rest.head?, isDigit c = false) :
    (ds ++ rest).takeWhile isDigit = ds := by
  rw [List.takeWhile_append_of_pos hd]
  cases rest with
  | nil => simp
  | cons c rest => simp [hr c rfl]

theorem dropWhile_digits (hd : ∀ d ∈ ds, isDigit d) (hr : ∀ c ∈ rest.head?, isDigit c = false) :
    (ds ++ rest).dropWhile isDigit = rest := by
  rw [List.dropWhile_append_of_pos hd]
  cases rest with
  | nil => rfl
  | cons c rest => simp [hr c rfl]

theorem no_digit_ahead (hr : ∀ c ∈ rest.head?, isDigit c = false) :
    (rest.head?.map isDigit).getD false = false := by
  cases h : rest.head? with
  | none => rfl
  | some c => exact hr c h

/-- What follows the digits of a number is no digit. -/
theorem head_power (hp : Power power) (hr : Ends rest) :
    ∀ c ∈ (power ++ rest).head?, isDigit c = false := by
  cases hp with
  | none => exact hr.not_digit
  | some letter_mem =>
      rintro c ⟨⟩
      have : ∀ c ∈ ['e', 'E'], isDigit c = false := by simp [isDigit, digit?]
      exact this _ letter_mem

/-- After the whole part comes no digit, whichever parts are left out. -/
theorem head_places (hf : Places places) (hp : Power power) (hr : Ends rest) :
    ∀ c ∈ (places ++ (power ++ rest)).head?, isDigit c = false := by
  cases hf with
  | none =>
      rw [List.nil_append]
      exact head_power hp hr
  | some =>
      rintro c ⟨⟩
      decide

namespace Number
open Reader

/-- All digits are passed, and counted. -/
theorem passDigits_append (hd : ∀ d ∈ ds, isDigit d) (hr : ∀ c ∈ rest.head?, isDigit c = false) :
    passDigits (ds ++ rest) = (ds.length, rest) := by
  rw [passDigits, takeWhile_digits hd hr, dropWhile_digits hd hr]

/-- All digits are read, and no more. -/
theorem digitsValue_append (hd : ∀ d ∈ ds, isDigit d)
    (hr : ∀ c ∈ rest.head?, isDigit c = false) :
    digitsValue (ds ++ rest) = (Nat.ofDigitChars 10 ds 0, rest) := by
  have hfold : ∀ n, ds.foldl (fun n c => n * 10 + (digit? c).getD 0) n =
      Nat.ofDigitChars 10 ds n := by
    clear hr
    induction ds with
    | nil => exact fun _ => rfl
    | cons c ds ih =>
        intro n
        obtain ⟨v, hv⟩ := Option.isSome_iff_exists.mp (hd c (by simp))
        rw [List.foldl_cons, ih fun d h => hd d (by simp [h]), Nat.ofDigitChars_cons,
          digit_value hv, hv, Option.getD_some, Nat.mul_comm]
  rw [digitsValue, takeWhile_digits hd hr, dropWhile_digits hd hr, hfold]

/-! ### Digits that fit -/

theorem le_ofDigitChars (n : Nat) (ds : List Char) : n ≤ Nat.ofDigitChars 10 ds n := by
  induction ds generalizing n with
  | nil => exact Nat.le_refl n
  | cons c ds ih =>
      rw [Nat.ofDigitChars_cons]
      exact Nat.le_trans (by omega) (ih _)

/-- A digit that still fits is taken. -/
theorem fitting_cons_of_lt {c : Char} (h : 10 * n + (c.toNat - '0'.toNat) < limit) :
    fitting n (c :: ds) = fitting (10 * n + (c.toNat - '0'.toNat)) ds + 1 := by
  refine Nat.findGreatest_eq_iff.mpr ⟨?_, fun _ => ?_, fun k hk hle => ?_⟩
  · exact Nat.succ_le_succ (Nat.findGreatest_le _)
  · rw [List.take_succ_cons, Nat.ofDigitChars_cons]
    exact @Nat.findGreatest_spec 0 (fun k => Nat.ofDigitChars 10 (ds.take k) _ < limit) _ _
      (Nat.zero_le _) h
  · obtain ⟨k, rfl⟩ := Nat.exists_eq_succ_of_ne_zero (Nat.ne_of_gt (Nat.zero_lt_of_lt hk))
    rw [List.take_succ_cons, Nat.ofDigitChars_cons]
    exact @Nat.findGreatest_is_greatest _ (fun k => Nat.ofDigitChars 10 (ds.take k) _ < limit) _ _
      (Nat.lt_of_succ_lt_succ hk) (Nat.le_of_succ_le_succ hle)

/-- The first digit that does not fit ends what is taken. -/
theorem fitting_cons_of_ge {c : Char} (h : limit ≤ 10 * n + (c.toNat - '0'.toNat)) :
    fitting n (c :: ds) = 0 := by
  refine Nat.findGreatest_eq_zero_iff.mpr fun k hk _ => ?_
  obtain ⟨k, rfl⟩ := Nat.exists_eq_succ_of_ne_zero (Nat.ne_of_gt hk)
  rw [List.take_succ_cons, Nat.ofDigitChars_cons, Nat.not_lt]
  exact Nat.le_trans h (le_ofDigitChars _ _)

theorem gather_of_not_digit (n taken : Nat) (hr : ∀ c ∈ rest.head?, isDigit c = false) :
    gather n taken rest = (n, taken, rest) := by
  cases rest with
  | nil => rfl
  | cons c rest =>
      have hc : digit? c = none := by simpa [isDigit] using hr c rfl
      simp [gather, hc]

/-- Gathering takes the digits that fit and leaves the others. -/
theorem gather_digits (hd : ∀ d ∈ ds, isDigit d) (hr : ∀ c ∈ rest.head?, isDigit c = false) :
    ∀ n taken, gather n taken (ds ++ rest) =
      (continued n ds, taken + fitting n ds, ds.drop (fitting n ds) ++ rest) := by
  induction ds with
  | nil => exact fun n taken => gather_of_not_digit n taken hr
  | cons c ds ih =>
      intro n taken
      obtain ⟨v, hv⟩ := Option.isSome_iff_exists.mp (hd c (by simp))
      have hc := digit_value hv
      by_cases hlt : n * 10 + v < limit
      · have hfit : fitting n (c :: ds) = fitting (n * 10 + v) ds + 1 := by
          rw [fitting_cons_of_lt (by omega), hc, Nat.mul_comm]
        have := ih (fun d h => hd d (by simp [h])) (n * 10 + v) (taken + 1)
        simp only [List.cons_append, gather, hv, if_pos hlt, this, continued, hfit,
          List.take_succ_cons, List.drop_succ_cons, Nat.ofDigitChars_cons, hc, Nat.mul_comm 10]
        rw [Nat.add_right_comm, Nat.add_assoc]
      · have hfit : fitting n (c :: ds) = 0 := fitting_cons_of_ge (by omega)
        simp [gather, hv, hlt, continued, hfit]

/-! ### The parts of a number -/

/-- A power without a sign is a positive one. -/
theorem exponentTail_unsigned (positive : Bool) (n : Nat) (e : Int) {d : Char}
    (hd : isDigit d) :
    exponentTail positive n e (d :: ds) = exponentTail positive n e ('+' :: d :: ds) := by
  have := mem_digits hd
  simp only [decimalDigits, List.mem_cons, List.not_mem_nil, or_false] at this
  rcases this with rfl | rfl | rfl | rfl | rfl | rfl | rfl | rfl | rfl | rfl <;> rfl

theorem toOption_ofScaled (positive : Bool) (n : Nat) (e : Int) (rest : List Char) :
    (do let x ← ofScaled positive n e; return (x, rest)).toOption =
      ((scaled positive n e).map Number.real).map (·, rest) := by
  rw [ofScaled]
  cases scaled positive n e <;> rfl

theorem raised_zero (positive : Bool) (n : Nat) (e : Int) :
    raised positive n e 0 = (scaled positive n e).map .real := by
  simp [raised]

/-- The power is read to its end, with its sign, and moves the point once. -/
theorem found_exponentTail (positive : Bool) (n : Nat) (e : Int) (up : Bool) (hd : Digits ds)
    (hr : Ends rest) :
    found (exponentTail positive n e) ((if up then '+' else '-') :: (ds ++ rest)) =
      (raised positive n e (if up then (Nat.ofDigitChars 10 ds 0 : Int)
        else -(Nat.ofDigitChars 10 ds 0 : Int))).map (·, rest) := by
  obtain ⟨d, l, rfl⟩ := List.exists_cons_of_ne_nil hd.1
  have hdig : isDigit d := hd.2 d (by simp)
  have hv := digitsValue_append hd.2 hr.not_digit
  generalize Nat.ofDigitChars 10 (d :: l) 0 = v at hv ⊢
  rw [List.cons_append] at hv
  by_cases hbig : maxExponent < v
  · have hpos : 0 < v := Nat.zero_lt_of_lt hbig
    cases up <;> by_cases hn : n = 0 <;>
      simp [found, exponentTail, raised, hv, hdig, hbig, hpos, hn, Except.toOption]
  · cases up
    · simpa [found, exponentTail, raised, hv, hdig, hbig, Int.sub_eq_add_neg] using
        toOption_ofScaled positive n (e - v) rest
    · simpa [found, exponentTail, raised, hv, hdig, hbig] using
        toOption_ofScaled positive n (e + v) rest

/-- An exponent is read as what it is worth. -/
theorem exponentTail_scans (positive : Bool) (n : Nat) (e : Int) {letter : Char}
    (hl : letter ∈ ['e', 'E']) (hsign : sign ∈ [[], ['+'], ['-']]) (hd : Digits ds) :
    Scans (exponentTail positive n e) (sign ++ ds)
      (raised positive n e (powerOf (letter :: (sign ++ ds)))) := by
  have hfilter : ds.filter isDigit = ds := List.filter_eq_self.mpr hd.2
  have hminus : '-' ∉ ds := fun h => absurd (hd.2 _ h) (by decide)
  have hletter : isDigit letter = false ∧ '-' ≠ letter := by
    simp only [List.mem_cons, List.not_mem_nil, or_false] at hl
    rcases hl with rfl | rfl <;> decide
  simp only [List.mem_cons, List.not_mem_nil, or_false] at hsign
  rcases hsign with rfl | rfl | rfl
  · have hp : powerOf (letter :: ([] ++ ds)) = Nat.ofDigitChars 10 ds 0 := by
      simp [powerOf, hfilter, hminus, hletter]
    obtain ⟨d, l, rfl⟩ := List.exists_cons_of_ne_nil hd.1
    intro rest hr
    rw [hp, List.nil_append, List.cons_append, found,
      exponentTail_unsigned _ _ _ (hd.2 d (by simp))]
    exact found_exponentTail positive n e true hd hr
  · have hp : powerOf (letter :: (['+'] ++ ds)) = Nat.ofDigitChars 10 ds 0 := by
      have : isDigit '+' = false := rfl
      simp [powerOf, hfilter, hminus, hletter, this]
    intro rest hr
    rw [hp]
    exact found_exponentTail positive n e true hd hr
  · have hp : powerOf (letter :: (['-'] ++ ds)) = -(Nat.ofDigitChars 10 ds 0 : Int) := by
      have : isDigit '-' = false := rfl
      simp [powerOf, hfilter, hletter, this]
    intro rest hr
    rw [hp]
    exact found_exponentTail positive n e false hd hr

/-- With or without a power, what follows the digits is read to its end. -/
theorem scaledTail_scans (positive : Bool) (n : Nat) (e : Int) (hp : Power power) :
    Scans (scaledTail positive n e) power (raised positive n e (powerOf power)) := by
  cases hp with
  | none =>
      intro rest hr
      have h : scaledTail positive n e rest =
          (do let x ← ofScaled positive n e; return (x, rest)) := by
        unfold scaledTail
        split
        · exact absurd (hr 'e' rfl) (by decide)
        · exact absurd (hr 'E' rfl) (by decide)
        · rfl
      rw [List.nil_append, found, h, show powerOf [] = 0 from rfl, raised_zero]
      exact toOption_ofScaled positive n e rest
  | @some letter _ _ letter_mem sign_mem digits =>
      have h := exponentTail_scans positive n e letter_mem sign_mem digits
      simp only [List.mem_cons, List.not_mem_nil, or_false] at letter_mem
      rcases letter_mem with rfl | rfl
      · exact h
      · exact h

/-- Places after the point go on where the whole part ended, as long as their digits fit. -/
theorem decimalTail_scans (positive : Bool) (n : Nat) (e : Int) (hd : Digits ds)
    (hp : Power power) :
    Scans (decimalTail positive n e) (ds ++ power)
      (raised positive (continued n ds) (e - fitting n ds) (powerOf power)) := by
  intro rest hr
  have hpos : 0 < ds.length := List.length_pos_iff.mpr hd.1
  have hhead := head_power hp hr
  have hg := gather_digits hd.2 hhead n 0
  have hsome : ¬ (fitting n ds = 0 ∧ ds.length - fitting n ds = 0) := by omega
  rw [Nat.zero_add] at hg
  simp only [found, decimalTail, List.append_assoc, hg,
    passDigits_append (fun d h => hd.2 d (List.mem_of_mem_drop h)) hhead]
  rw [if_neg (by simpa using hsome)]
  exact scaledTail_scans positive (continued n ds) (e - fitting n ds) hp rest hr

/-- A number that ends after its integer digits. -/
theorem integerTail_ends (positive : Bool) (n dropped : Nat) (hr : Ends rest) :
    integerTail positive n dropped rest =
      if dropped = 0 then .ok (ofInteger positive n, rest)
      else do let x ← ofScaled positive n dropped; return (x, rest) := by
  unfold integerTail
  split
  · exact absurd (hr '.' rfl) (by decide)
  · exact absurd (hr 'e' rfl) (by decide)
  · exact absurd (hr 'E' rfl) (by decide)
  · rfl

/-- What may follow the whole part is read to its end. -/
theorem integerTail_scans (positive : Bool) (n dropped : Nat) (hf : Places places)
    (hp : Power power) :
    Scans (integerTail positive n dropped) (places ++ power)
      (completed positive n dropped places power) := by
  cases hf with
  | some digits =>
      rw [completed, if_neg (by simp)]
      exact decimalTail_scans positive n dropped digits hp
  | none =>
      have hc : continued n [] = n := rfl
      have hk : ((dropped : Nat) : Int) - fitting n [] = dropped := Int.sub_zero _
      rw [List.nil_append, completed, List.tail_nil, hc, hk]
      cases hp with
      | @some letter _ _ letter_mem sign_mem digits =>
          rw [if_neg (by simp)]
          have h := exponentTail_scans positive n dropped letter_mem sign_mem digits
          simp only [List.mem_cons, List.not_mem_nil, or_false] at letter_mem
          rcases letter_mem with rfl | rfl
          · exact h
          · exact h
      | none =>
          intro rest hr
          rw [List.nil_append, found, integerTail_ends _ _ dropped hr]
          by_cases hd : dropped = 0
          · simp [hd, Except.toOption]
          · rw [if_neg hd, if_neg (by simp [hd]), show powerOf [] = 0 from rfl, raised_zero]
            exact toOption_ofScaled positive n dropped rest

/-- A number without its sign is read as what its parts are worth. -/
theorem unsigned_scans (positive : Bool) (hw : Whole whole) (hf : Places places)
    (hp : Power power) :
    Scans (unsigned positive) (whole ++ (places ++ power))
      (worth positive whole places power) := by
  intro rest hr
  have hhead := head_places hf hp hr
  rw [List.append_assoc, List.append_assoc]
  cases hw with
  | zero =>
      have ho := integerTail_scans positive 0 0 hf hp rest hr
      have hworth : worth positive ['0'] places power = completed positive 0 0 places power := rfl
      rw [List.append_assoc] at ho
      rw [hworth, ← ho, List.cons_append, List.nil_append, found, unsigned, no_digit_ahead hhead]
      rfl
  | @digits d ds first all =>
      have hleft (k : Nat) : ∀ c ∈ (d :: ds).drop k, isDigit c := fun c h =>
        all.2 c (List.mem_of_mem_drop h)
      have hg := gather_digits all.2 hhead 0 0
      have ho := integerTail_scans positive (continued 0 (d :: ds))
        ((d :: ds).length - fitting 0 (d :: ds)) hf hp rest hr
      rw [List.append_assoc] at ho
      rw [worth, ← ho]
      rw [List.cons_append] at hg ⊢
      simp [found, unsigned, all.2, hg, passDigits_append (hleft _) hhead]

end Number

theorem number_of_digit {d : Char} (hd : isDigit d) (cs : List Char) :
    Reader.number (d :: cs) = Number.unsigned true (d :: cs) := by
  have := mem_digits hd
  simp only [decimalDigits, List.mem_cons, List.not_mem_nil, or_false] at this
  rcases this with rfl | rfl | rfl | rfl | rfl | rfl | rfl | rfl | rfl | rfl <;> rfl

/-- A number is read as what its parts are worth. -/
theorem number_worth (sign_mem : sign ∈ [[], ['-']]) (hw : Whole whole) (hf : Places places)
    (hp : Power power) :
    Reader.Scans Reader.number (sign ++ (whole ++ (places ++ power)))
      (Number.worth sign.isEmpty whole places power) := by
  intro rest hr
  have ho := Number.unsigned_scans sign.isEmpty hw hf hp rest hr
  simp only [List.mem_cons, List.not_mem_nil, or_false] at sign_mem
  rcases sign_mem with rfl | rfl
  · obtain ⟨d, ds, rfl, hd⟩ := hw.head
    rw [← ho]
    exact congrArg Except.toOption (number_of_digit hd _)
  · exact ho

/-- A number is read as something that its characters alone decide. -/
theorem number_scans (h : Numeral l) : ∃ o, Reader.Scans Reader.number l o := by
  obtain ⟨sign_mem, hw, hf, hp⟩ := h
  exact ⟨_, number_worth sign_mem hw hf hp⟩

/-- A literal is read as the number that it stands for. -/
theorem Stands.scans {x : Number} (h : Stands x l) : Reader.Scans Reader.number l (some x) := by
  obtain ⟨sign_mem, hw, hf, hp, worth⟩ := h
  exact worth ▸ number_worth sign_mem hw hf hp

/-- A literal stands for one number. -/
theorem Stands.eq {x y : Number} (h : Stands x l) (h' : Stands y l) : x = y := by
  have hboth := (h.scans [] .nil).symm.trans (h'.scans [] .nil)
  simpa using hboth

/-! ### Integers -/

theorem digits_toDigits (n : Nat) : Digits (Nat.toDigits 10 n) := by
  refine ⟨Nat.toDigits_ne_nil, fun d hd => ?_⟩
  have := Nat.isDigit_of_mem_toDigits (by decide) (by decide) hd
  simp only [Char.isDigit, Bool.and_eq_true, decide_eq_true_eq] at this
  have h : '0' ≤ d ∧ d ≤ '9' := this
  simp [isDigit, digit?, h]

/-- A number other than zero is written without zeros in front. -/
theorem toDigits_head (hn : n ≠ 0) : ∀ d ∈ (Nat.toDigits 10 n).head?, d ≠ '0' := by
  induction n using Nat.base_induction 10 (by decide) with
  | single m hm =>
      rw [Nat.toDigits_of_lt_base hm]
      rintro d ⟨⟩
      interval_cases m
      · exact absurd rfl hn
      all_goals decide
  | digit m k hk hm ih =>
      rw [← Nat.toDigits_append_toDigits (by decide) hm hk, List.head?_append,
        List.head?_eq_some_head Nat.toDigits_ne_nil]
      rintro d ⟨⟩
      exact ih (by omega) _ (List.head?_eq_some_head Nat.toDigits_ne_nil)

theorem whole_toDigits (n : Nat) : Whole (Nat.toDigits 10 n) := by
  by_cases hn : n = 0
  · subst hn
    exact .zero
  · obtain ⟨d, ds, h⟩ := List.exists_cons_of_ne_nil (digits_toDigits n).1
    have hd := toDigits_head hn d (by rw [h]; rfl)
    exact h ▸ .digits hd (h ▸ digits_toDigits n)

/-- Digits whose value is below the limit all fit. -/
theorem Number.fitting_of_lt (h : Nat.ofDigitChars 10 ds n < limit) :
    fitting n ds = ds.length ∧ continued n ds = Nat.ofDigitChars 10 ds n := by
  have hfit : fitting n ds = ds.length := by
    refine Nat.le_antisymm (Nat.findGreatest_le _) (Nat.le_findGreatest (Nat.le_refl _) ?_)
    rwa [List.take_length]
  exact ⟨hfit, by rw [continued, hfit, List.take_length]⟩

/-- An integer whose digits all fit is exact. -/
theorem Number.worth_of_lt (positive : Bool) (h : Nat.ofDigitChars 10 ds 0 < limit) :
    worth positive ds [] [] = some (ofInteger positive (Nat.ofDigitChars 10 ds 0)) := by
  obtain ⟨hfit, hcontinued⟩ := fitting_of_lt h
  rw [worth, hfit, hcontinued, Nat.sub_self]
  rfl

/-- The digits of an integer below the limit all fit. -/
theorem Number.worth_toDigits (positive : Bool) (hn : n < limit) :
    worth positive (Nat.toDigits 10 n) [] [] = some (ofInteger positive n) := by
  have h := @worth_of_lt (Nat.toDigits 10 n) positive
  rw [Nat.ofDigitChars_ten_toDigits] at h
  exact h hn

/-- A natural number below the limit is written by its digits. -/
theorem stands_natural (hn : n < Number.limit) : Stands (.natural n) (Nat.toDigits 10 n) := by
  have h := Number.worth_toDigits true hn
  rw [show Number.ofInteger true n = .natural n from rfl] at h
  simpa using Stands.of (by simp : [] ∈ [[], ['-']]) (whole_toDigits n) .none .none h

/-- So is a negative one down to the least of 64 bits, after a minus. -/
theorem stands_negative (h₀ : n ≠ 0) (hn : n ≤ 0x8000000000000000) :
    Stands (.negative n) ('-' :: Nat.toDigits 10 n) := by
  have hlt : n < Number.limit := Nat.lt_of_le_of_lt hn (by decide)
  have h := Number.worth_toDigits false hlt
  rw [show Number.ofInteger false n = .negative n by simp [Number.ofInteger, h₀, hn]] at h
  simpa using Stands.of (by simp : ['-'] ∈ [[], ['-']]) (whole_toDigits n) .none .none h

/-! ### Numbers passed over -/

theorem found_skipDigits (hd : Digits ds) (hr : ∀ c ∈ rest.head?, isDigit c = false) :
    Reader.skipDigits.found (ds ++ rest) = some ((), rest) := by
  obtain ⟨d, ds, rfl⟩ := List.exists_cons_of_ne_nil hd.1
  have hdrop := dropWhile_digits hd.2 hr
  simp only [Reader.found, Reader.skipDigits, List.cons_append, List.head?_cons,
    Option.map_some, Option.getD_some, hd.2 d (by simp), if_true] at hdrop ⊢
  rw [hdrop]
  rfl

/-- A power is passed over from its first digit on, whatever its letter and sign. -/
theorem skipExponent_cons {letter d : Char} (hl : letter ∈ ['e', 'E'])
    (hs : sign ∈ [[], ['+'], ['-']]) (hd : isDigit d) :
    Reader.skipExponent.found (letter :: (sign ++ d :: ds)) =
      Reader.skipDigits.found (d :: ds) := by
  have hd := mem_digits hd
  simp only [decimalDigits, List.mem_cons, List.not_mem_nil, or_false] at hl hs hd
  rcases hl with rfl | rfl <;> rcases hs with rfl | rfl | rfl <;>
    rcases hd with rfl | rfl | rfl | rfl | rfl | rfl | rfl | rfl | rfl | rfl <;> rfl

/-- A power is passed over to its end. -/
theorem found_skipExponent (hp : Power power) (hr : Ends rest) :
    Reader.skipExponent.found (power ++ rest) = some ((), rest) := by
  cases hp with
  | none =>
      cases rest with
      | nil => rfl
      | cons c rest =>
          have hc := hr c rfl
          simp only [List.mem_cons, List.not_mem_nil, or_false] at hc
          rcases hc with rfl | rfl | rfl | rfl | rfl | rfl | rfl <;> rfl
  | some letter_mem sign_mem digits =>
      obtain ⟨d, ds, rfl⟩ := List.exists_cons_of_ne_nil digits.1
      simp only [List.cons_append, List.append_assoc,
        skipExponent_cons letter_mem sign_mem (digits.2 d (by simp))]
      exact found_skipDigits digits hr.not_digit

/-- What is left to pass over after the integer digits. -/
def Reader.skipFraction : Reader Unit := do
  match ← peek with
  | some '.' => advance; skipDigits; skipExponent
  | _ => skipExponent

/-- So are places and what follows them. -/
theorem found_skipFraction (hf : Places places) (hp : Power power) (hr : Ends rest) :
    Reader.skipFraction.found (places ++ (power ++ rest)) = some ((), rest) := by
  have hpower := found_skipExponent hp hr
  cases hf with
  | none =>
      simp only [Reader.skipFraction, Reader.found_bind, Reader.found_peek, Option.bind_some,
        List.nil_append]
      split
      · next h =>
        cases hp with
        | none => exact absurd (hr '.' h) (by decide)
        | some letter_mem =>
            obtain rfl := Option.some.inj h
            exact absurd letter_mem (by decide)
      · exact hpower
  | some digits =>
      have := found_skipDigits digits (head_power hp hr)
      simp [Reader.skipFraction, this, hpower]

/-- So is every number after its sign: what is passed over need not fit anywhere. -/
theorem found_skipUnsigned (hw : Whole whole) (hf : Places places) (hp : Power power)
    (hr : Ends rest) :
    Reader.skipUnsigned.found (whole ++ (places ++ (power ++ rest))) = some ((), rest) := by
  have hhead := head_places hf hp hr
  have hfraction := found_skipFraction hf hp hr
  simp only [Reader.skipUnsigned, Reader.found_bind, Reader.found_peek, Option.bind_some]
  generalize places ++ (power ++ rest) = tail at hhead hfraction ⊢
  cases hw with
  | zero =>
      simp only [List.cons_append, List.nil_append, List.head?_cons, Reader.found_bind,
        Reader.found_advance, Reader.found_peek, Option.bind_some]
      cases h : tail.head? with
      | none => exact hfraction
      | some c =>
          simp only [hhead c h]
          exact hfraction
  | digits first all =>
      split
      · next h =>
        exact absurd (Option.some.inj h) first
      · rw [Reader.found_bind, found_skipDigits all hhead]
        exact hfraction

end

end MediaHost.Json
