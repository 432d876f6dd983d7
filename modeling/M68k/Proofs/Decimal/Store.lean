import M68k.Proofs.Decimal.Assembly
import M68k.Proofs.Fp.Canonical
import M68k.Proofs.Fp.CorrectRounding

/-!
# Storing packed decimal numbers

A store scales a number by a power of ten until the digits that are asked for stand before the
point, and rounds once.  The exponent of the leading digit is searched for in both directions, so
that any first guess leads to it; a carry out of the digits gives the next one.

* `floorLog10_search` — the search ends at the exponent, from any guess;
* `encodeFrom_eq` — a store in terms of the scaled fraction;
* `encodeFrom_rounds` — its digits are the number rounded to as many as the k-factor asks for.
-/

namespace M68k

namespace Decimal

/-! ## Scaling -/

/-- A fraction scaled by a power of ten. -/
def scaleFraction (fraction : ℕ × ℕ) (scale : ℤ) : ℕ × ℕ :=
  if 0 ≤ scale then (fraction.1 * Nat.pow 10 scale.toNat, fraction.2)
  else (fraction.1, fraction.2 * Nat.pow 10 (-scale).toNat)

theorem scaleFraction_value (fraction : ℕ × ℕ) (scale : ℤ) :
    ((scaleFraction fraction scale).1 : ℚ) / (scaleFraction fraction scale).2 =
      fraction.1 / fraction.2 * 10 ^ scale := by
  unfold scaleFraction
  split_ifs with sign
  · obtain ⟨k, rfl⟩ := Int.eq_ofNat_of_zero_le sign
    simp only [Int.toNat_natCast, Nat.pow_eq, zpow_natCast]
    push_cast
    ring
  · obtain ⟨k, hk⟩ := Int.eq_ofNat_of_zero_le (show 0 ≤ -scale by omega)
    obtain rfl : scale = -(k : ℤ) := by omega
    simp only [neg_neg, Int.toNat_natCast, Nat.pow_eq, zpow_neg, zpow_natCast]
    push_cast
    rw [← div_div, div_eq_mul_inv ((fraction.1 : ℚ) / fraction.2)]

theorem scaleFraction_pos {fraction : ℕ × ℕ} (positive : 0 < fraction.2) (scale : ℤ) :
    0 < (scaleFraction fraction scale).2 := by
  unfold scaleFraction
  split_ifs
  · exact positive
  · exact Nat.mul_pos positive (Nat.pow_pos (by decide))

/-! ## The search for the exponent -/

/-- The order of a fraction and a power of ten. -/
theorem isBelowPow10_iff (numerator : ℕ) {denominator : ℕ} (positive : 0 < denominator)
    (power : ℤ) :
    isBelowPow10 numerator denominator power = true ↔
      (numerator : ℚ) / denominator < 10 ^ power := by
  have denominator_pos : (0 : ℚ) < denominator := by exact_mod_cast positive
  unfold isBelowPow10
  rw [div_lt_iff₀ denominator_pos]
  split_ifs with sign
  · obtain ⟨k, rfl⟩ := Int.eq_ofNat_of_zero_le sign
    rw [decide_eq_true_eq, Int.toNat_natCast, zpow_natCast, mul_comm]
    exact_mod_cast Iff.rfl
  · obtain ⟨k, hk⟩ := Int.eq_ofNat_of_zero_le (show 0 ≤ -power by omega)
    obtain rfl : power = -(k : ℤ) := by omega
    have ten : (0 : ℚ) < 10 ^ k := by positivity
    rw [decide_eq_true_eq, neg_neg, Int.toNat_natCast, zpow_neg, zpow_natCast, inv_mul_eq_div,
      lt_div_iff₀ ten]
    exact_mod_cast Iff.rfl

/-- The decimal exponent of a fraction is that of the greatest power of ten within it. -/
theorem floorLog10_bounds {numerator denominator : ℕ} (hn : 0 < numerator) (hd : 0 < denominator)
    (guess : ℤ) :
    (10 : ℚ) ^ floorLog10 numerator denominator guess ≤ numerator / denominator ∧
      (numerator : ℚ) / denominator < 10 ^ (floorLog10 numerator denominator guess + 1) := by
  have below := not_isBelowPow10_floorLog10 hn denominator guess
  have above := isBelowPow10_succ_floorLog10 hn hd guess
  rw [isBelowPow10_iff numerator hd, not_lt] at below
  rw [isBelowPow10_iff numerator hd] at above
  exact ⟨below, above⟩

section

variable {numerator denominator : ℕ} (hn : 0 < numerator) (hd : 0 < denominator)
include hn hd

/-- A power of ten exceeds a fraction if its exponent exceeds that of the leading digit. -/
theorem isBelowPow10_iff_log_lt (power : ℤ) :
    isBelowPow10 numerator denominator power = true ↔
      Int.log 10 ((numerator : ℚ) / denominator) < power := by
  have positive : (0 : ℚ) < numerator / denominator :=
    div_pos (by exact_mod_cast hn) (by exact_mod_cast hd)
  rw [isBelowPow10_iff numerator hd, ← Int.lt_zpow_iff_log_lt (by decide) positive]
  norm_num

/-- A guess is lowered to the exponent of the leading digit, if it lies above it. -/
theorem lowerLog10_eq (guess : ℤ) :
    lowerLog10 numerator denominator guess =
      min guess (Int.log 10 ((numerator : ℚ) / denominator)) := by
  fun_induction lowerLog10 with
  | case1 guess step ih =>
    have above := (isBelowPow10_iff_log_lt hn hd guess).mp step.2
    rw [ih]
    omega
  | case2 guess stop =>
    have found : ¬ Int.log 10 ((numerator : ℚ) / denominator) < guess := fun above =>
      stop ⟨hn, (isBelowPow10_iff_log_lt hn hd guess).mpr above⟩
    omega

/-- A guess below the exponent is raised to it. -/
theorem raiseLog10_eq {guess : ℤ} (below : guess ≤ Int.log 10 ((numerator : ℚ) / denominator)) :
    raiseLog10 numerator denominator guess = Int.log 10 ((numerator : ℚ) / denominator) := by
  fun_induction raiseLog10 with
  | case1 guess step ih =>
    have above := mt (isBelowPow10_iff_log_lt hn hd (guess + 1)).mpr step.2.2
    exact ih (by omega)
  | case2 guess stop =>
    have found : Int.log 10 ((numerator : ℚ) / denominator) < guess + 1 := by
      by_contra above
      exact stop ⟨hn, hd, mt (isBelowPow10_iff_log_lt hn hd (guess + 1)).mp above⟩
    omega

/-- The search ends at the exponent of the leading digit. -/
theorem floorLog10_search (guess : ℤ) :
    floorLog10 numerator denominator guess = Int.log 10 ((numerator : ℚ) / denominator) := by
  rw [floorLog10, lowerLog10_eq hn hd, raiseLog10_eq hn hd (min_le_right _ _)]

end

/-! ## What a store makes of a number -/

section

variable {x : Extended} (kind : x.kind = .finite)
include kind

/-- The fraction that a store starts from. -/
theorem fractionOf_spec : 0 < (fractionOf x).1 ∧ 0 < (fractionOf x).2 ∧
    ((fractionOf x).1 : ℚ) / (fractionOf x).2 = |x.value ℚ| := by
  have positive := Fp.coefficient_pos kind
  have value : ((fractionOf x).1 : ℚ) / (fractionOf x).2 = |x.value ℚ| := by
    rw [fractionOf, Magnitude.shiftedFraction_value, Nat.cast_one, div_one, Fp.abs_value]
  have denominator : 0 < (fractionOf x).2 := Magnitude.shiftedFraction_pos Nat.one_pos _
  refine ⟨?_, denominator, value⟩
  by_contra none
  rw [Nat.eq_zero_of_not_pos none, Nat.cast_zero, zero_div] at value
  have zero := (Fp.value_eq_zero_iff ℚ).mp (abs_eq_zero.mp value.symm)
  omega

/-- A store in terms of the scaled fraction. -/
theorem encodeFrom_eq (guess : ℤ) (mode : RoundingMode) (k : ℤ) :
    encodeFrom guess mode k x =
      let lead := floorLog10 (fractionOf x).1 (fractionOf x).2 guess
      let count := digitCount k lead
      let scaled := scaleFraction (fractionOf x) ((count : ℤ) - 1 - lead)
      let remnant := Remnant.ofRemainder (scaled.1 % scaled.2) scaled.2
      let rounded := mode.round x.sign (scaled.1 / scaled.2, remnant)
      let result :=
        if rounded = Nat.pow 10 count then (Nat.pow 10 (count - 1), lead + 1) else (rounded, lead)
      (assemble x.sign (result.1 * Nat.pow 10 (17 - count)) result.2,
        (if 17 < k ∨ 999 < result.2.natAbs then Fpu.operandError else 0) |||
          if remnant ≠ .zero then Fpu.inexactResult else 0) := by
  unfold encodeFrom
  rw [kind]
  rfl

end

/-! ## The digits -/

/-- The number of digits that a k-factor asks for. -/
theorem digitCount_spec (k lead : ℤ) :
    (digitCount k lead : ℤ) = (if 0 < k then min k 17 else max 1 (min 17 (lead + 1 - k))) ∧
      1 ≤ digitCount k lead ∧ digitCount k lead ≤ 17 := by
  unfold digitCount maxDigits
  split_ifs <;> omega

/-- The decimal exponents of extended numbers have four digits. -/
theorem natAbs_log_le {x : Extended} (kind : x.kind = .finite) :
    (Int.log 10 |x.value ℚ|).natAbs ≤ 5500 := by
  have below :=
    (Fp.represents_value (K := ℚ) Extended.regular (Fp.isFinite_of_kind (.inr kind))).small
  have whole : (1 : ℚ) ≤ x.coefficient := by exact_mod_cast Fp.coefficient_pos kind
  have unit : (0 : ℚ) < 2 ^ x.unitExponent := zpow_pos two_pos _
  have least : (-16445 : ℤ) ≤ x.unitExponent := by
    have bits : extended80.fractionBits = 63 := rfl
    simp only [Fp.unitExponent, bits]
    omega
  have above : (2 : ℚ) ^ (-16445 : ℤ) ≤ |x.value ℚ| := by
    calc (2 : ℚ) ^ (-16445 : ℤ) ≤ 2 ^ x.unitExponent := zpow_le_zpow_right₀ one_le_two least
      _ = 1 * 2 ^ x.unitExponent := (one_mul _).symm
      _ ≤ |x.value ℚ| := by
          rw [Fp.abs_value]
          exact mul_le_mul_of_nonneg_right whole unit.le
  have range : ((extended80.exponentMax : ℤ) - extended80.bias) = 16384 := by decide
  rw [range] at below
  have positive : 0 < |x.value ℚ| := (zpow_pos two_pos _).trans_le above
  have low : (-5500 : ℤ) ≤ Int.log 10 |x.value ℚ| :=
    (Int.zpow_le_iff_le_log (by decide) positive).mp (by
      rw [Nat.cast_ofNat]
      exact le_trans (two_zpow_bounds (by decide)).1 above)
  have high : Int.log 10 |x.value ℚ| < 5500 :=
    (Int.lt_zpow_iff_log_lt (by decide) positive).mp (by
      rw [Nat.cast_ofNat]
      exact lt_of_lt_of_le below (two_zpow_bounds (by decide)).2)
  omega

/-- In units of the last digit that is asked for, the digits stand before the point. -/
theorem digits_before_point {v : ℚ} (positive : 0 < v) {count : ℕ} (some : 1 ≤ count) :
    (10 : ℚ) ^ (count - 1) ≤ v / 10 ^ (Int.log 10 v + 1 - count) ∧
      v / 10 ^ (Int.log 10 v + 1 - count) < (10 : ℚ) ^ count := by
  have ten : (10 : ℚ) ≠ 0 := by norm_num
  have step := ten_zpow_pos (Int.log 10 v + 1 - count)
  constructor
  · rw [le_div_iff₀ step, ← zpow_natCast, ← zpow_add₀ ten,
      show ((count - 1 : ℕ) : ℤ) + (Int.log 10 v + 1 - count) = Int.log 10 v by omega]
    exact_mod_cast Int.zpow_log_le_self (b := 10) (by decide) positive
  · rw [div_lt_iff₀ step, ← zpow_natCast, ← zpow_add₀ ten,
      show (count : ℤ) + (Int.log 10 v + 1 - count) = Int.log 10 v + 1 by omega]
    exact_mod_cast Int.lt_zpow_succ_log_self (b := 10) (by decide) v

/-- Rounding keeps the number of digits, or carries out of all of them. -/
theorem round_bounds_of_digits {count : ℕ} {y : ℚ} (low : 10 ^ (count - 1) ≤ y)
    (high : y < 10 ^ count) {parts : ℕ × Remnant} (splits : Splits parts y) (mode : RoundingMode)
    (sign : Bool) :
    10 ^ (count - 1) ≤ mode.round sign parts ∧ mode.round sign parts ≤ 10 ^ count := by
  have floor := splits.floor_eq
  have least : ((10 ^ (count - 1) : ℕ) : ℤ) ≤ ⌊y⌋ := Int.le_floor.mpr (by push_cast; exact low)
  have most : ⌊y⌋ < ((10 ^ count : ℕ) : ℤ) := Int.floor_lt.mpr (by push_cast; exact high)
  rw [floor, Nat.cast_le] at least
  rw [floor, Nat.cast_lt] at most
  have bounds := mode.round_bounds sign parts
  omega

/-- A carry moves the leading digit up. -/
theorem carry_spec {count rounded : ℕ} (some : 1 ≤ count) (low : 10 ^ (count - 1) ≤ rounded)
    (high : rounded ≤ 10 ^ count) (lead : ℤ) :
    let result :=
      if rounded = Nat.pow 10 count then (Nat.pow 10 (count - 1), lead + 1) else (rounded, lead)
    10 ^ (count - 1) ≤ result.1 ∧ result.1 < 10 ^ count ∧ (result.2 = lead ∨ result.2 = lead + 1) ∧
      (result.1 : ℚ) * 10 ^ (result.2 + 1 - count) = rounded * 10 ^ (lead + 1 - count) := by
  dsimp only
  rw [Nat.pow_eq, Nat.pow_eq]
  split_ifs with carry
  · refine ⟨le_rfl, Nat.pow_lt_pow_right (by decide) (by omega), .inr rfl, ?_⟩
    have ten : (10 : ℚ) ≠ 0 := by norm_num
    rw [carry]
    push_cast
    rw [← zpow_natCast, ← zpow_natCast, ← zpow_add₀ ten, ← zpow_add₀ ten,
      show ((count - 1 : ℕ) : ℤ) + (lead + 1 + 1 - count) = count + (lead + 1 - count) by omega]
  · exact ⟨low, by omega, .inl rfl, rfl⟩

/-- Whether an image has so many digits from the first one on, all of them decimal, with zeros in
the places that follow. -/
structure HasDigits (image : Image) (count : ℤ) : Prop where
  decimal : ∀ i < 17, place image i ≤ 9
  leading : place image 16 ≠ 0
  padding : ∀ i : ℕ, i + count < 17 → place image i = 0
  exponent : ∀ i < 4, digit image.first (3 + i) ≤ 9

theorem hasDigits_assemble {count digits : ℕ} (some : 1 ≤ count) (few : count ≤ 17)
    (low : 10 ^ (count - 1) ≤ digits) (high : digits < 10 ^ count) (sign : Bool) (exponent : ℤ) :
    digits * 10 ^ (17 - count) < 10 ^ 17 ∧
      HasDigits (assemble sign (digits * 10 ^ (17 - count)) exponent) count := by
  have below : digits * 10 ^ (17 - count) < 10 ^ 17 := by
    calc digits * 10 ^ (17 - count) < 10 ^ count * 10 ^ (17 - count) :=
          Nat.mul_lt_mul_of_pos_right high (Nat.pow_pos (by decide))
      _ = 10 ^ 17 := by rw [← pow_add, Nat.add_sub_cancel' few]
  have above : 10 ^ 16 ≤ digits * 10 ^ (17 - count) := by
    calc 10 ^ 16 = 10 ^ (count - 1) * 10 ^ (17 - count) := by
          rw [← pow_add, show count - 1 + (17 - count) = 16 by omega]
      _ ≤ digits * 10 ^ (17 - count) := Nat.mul_le_mul_right _ low
  refine ⟨below, ?_, ?_, ?_, ?_⟩
  · intro i inside
    rw [place_assemble sign _ exponent inside]
    omega
  · rw [place_assemble sign _ exponent (by decide)]
    omega
  · intro i beyond
    obtain ⟨m, hm⟩ : ∃ m, 17 - count = i + (m + 1) := ⟨17 - count - i - 1, by omega⟩
    have tens : digits * 10 ^ (17 - count) = 10 ^ i * (10 * (digits * 10 ^ m)) := by
      rw [hm]
      ring
    rw [place_assemble sign _ exponent (by omega), tens,
      Nat.mul_div_cancel_left _ (Nat.pow_pos (by decide)), Nat.mul_mod_right]
  · intro i inside
    rw [digit_assemble_first sign _ exponent (by omega)]
    interval_cases i <;> simp only [Nat.reduceAdd] <;> omega

/-- Digits with zeros after them, up to the last place of an image, have the unit of the last. -/
theorem padded_value {count : ℕ} (few : count ≤ 17) (digits : ℕ) (exponent : ℤ) :
    ((digits * 10 ^ (17 - count) : ℕ) : ℚ) * 10 ^ (exponent - 16) =
      digits * 10 ^ (exponent + 1 - count) := by
  have ten : (10 : ℚ) ≠ 0 := by norm_num
  push_cast
  rw [mul_assoc, ← zpow_natCast, ← zpow_add₀ ten,
    show ((17 - count : ℕ) : ℤ) + (exponent - 16) = exponent + 1 - count by omega]

/-- A store takes the digits of the number in units of the last one, rounded. -/
theorem encodeFrom_digits (guess k : ℤ) (mode : RoundingMode) {x : Extended}
    (kind : x.kind = .finite) :
    let lead := Int.log 10 |x.value ℚ|
    let count := digitCount k lead
    ∃ (parts : ℕ × Remnant) (digits : ℕ) (exponent : ℤ),
      Splits parts (|x.value ℚ| / 10 ^ (lead + 1 - count)) ∧
      10 ^ (count - 1) ≤ digits ∧ digits < 10 ^ count ∧ exponent.natAbs ≤ 9999 ∧
      (digits : ℚ) * 10 ^ (exponent + 1 - count) =
        mode.round x.sign parts * 10 ^ (lead + 1 - count) ∧
      encodeFrom guess mode k x =
        (assemble x.sign (digits * 10 ^ (17 - count)) exponent,
          (if 17 < k ∨ 999 < exponent.natAbs then Fpu.operandError else 0) |||
            if parts.2 ≠ .zero then Fpu.inexactResult else 0) := by
  intro lead count
  obtain ⟨numerator, denominator, fraction⟩ := fractionOf_spec kind
  obtain ⟨-, some, few⟩ := digitCount_spec k lead
  have range : lead.natAbs ≤ 5500 := natAbs_log_le kind
  have search := floorLog10_search numerator denominator guess
  rw [fraction] at search
  -- the fraction that is divided, and its quotient
  have value := scaleFraction_value (fractionOf x) ((count : ℤ) - 1 - lead)
  have positive := scaleFraction_pos denominator ((count : ℤ) - 1 - lead)
  have stored := encodeFrom_eq kind guess mode k
  rw [search] at stored
  dsimp only at stored
  generalize scaleFraction (fractionOf x) ((count : ℤ) - 1 - lead) = scaled at value positive stored
  have splits := Magnitude.splits_div (K := ℚ) scaled.1 positive
  have unit : (10 : ℚ) ^ ((count : ℤ) - 1 - lead) = (10 ^ (lead + 1 - count))⁻¹ := by
    rw [← zpow_neg, show -(lead + 1 - count) = (count : ℤ) - 1 - lead by ring]
  rw [value, fraction, unit, ← div_eq_mul_inv] at splits
  -- it has the digits that are asked for before the point
  have magnitude : 0 < |x.value ℚ| := by
    rw [← fraction]
    exact div_pos (by exact_mod_cast numerator) (by exact_mod_cast denominator)
  obtain ⟨low, high⟩ := digits_before_point magnitude some
  obtain ⟨least, most⟩ := round_bounds_of_digits low high splits mode x.sign
  obtain ⟨first, last, exponent, same⟩ := carry_spec some least most lead
  exact ⟨_, _, _, splits, first, last, by omega, same, stored⟩

/-- **A store rounds once.**  Whatever the first guess, the search for the decimal exponent ends at
that of the leading digit.  The image has as many digits as the k-factor asks for, and stands for
the number rounded in the given mode to a multiple of the unit of the last one.  Exceptions note
whether digits were refused or the exponent has four, and whether the image stands for another
number. -/
theorem encodeFrom_rounds (guess k : ℤ) (mode : RoundingMode) {x : Extended}
    (kind : x.kind = .finite) :
    let v := x.value ℚ
    let lead := Int.log 10 |v|
    let count : ℤ := if 0 < k then min k 17 else max 1 (min 17 (lead + 1 - k))
    let stored := encodeFrom guess mode k x
    let result := decimalValue stored.1 (storedExponent stored.1)
    lowerLog10 (fractionOf x).1 (fractionOf x).2 guess = min guess lead ∧
      raiseLog10 (fractionOf x).1 (fractionOf x).2 (min guess lead) = lead ∧
      HasDigits stored.1 count ∧ stored.1.first.getLsbD 31 = x.sign ∧
      result = mode.toInteger (v / 10 ^ (lead + 1 - count)) * 10 ^ (lead + 1 - count) ∧
      stored.2 =
        ((if 17 < k ∨ 999 < (storedExponent stored.1).natAbs then Fpu.operandError else 0) |||
          if result = v then 0 else Fpu.inexactResult) := by
  intro v lead count stored result
  obtain ⟨numerator, denominator, fraction⟩ := fractionOf_spec kind
  have lowered := lowerLog10_eq numerator denominator guess
  have raised := raiseLog10_eq numerator denominator (min_le_right guess _)
  rw [fraction] at lowered raised
  refine ⟨lowered, raised, ?_⟩
  obtain ⟨parts, digits, exponent, splits, low, high, small, same, image⟩ :=
    encodeFrom_digits guess k mode kind
  obtain ⟨asked, some, few⟩ := digitCount_spec k lead
  obtain ⟨seventeen, hasDigits⟩ := hasDigits_assemble some few low high x.sign exponent
  change stored = _ at image
  have written : storedExponent stored.1 = exponent := by
    rw [image]
    exact storedExponent_assemble x.sign _ small
  have step := ten_zpow_pos (lead + 1 - count)
  change ((digitCount k lead : ℕ) : ℤ) = count at asked
  rw [asked] at splits same
  -- the image stands for the rounded digits
  have stands :
      result = withSign x.sign (mode.round x.sign parts : ℚ) * 10 ^ (lead + 1 - count) := by
    have value := decimalValue_assemble x.sign exponent seventeen exponent
    rw [padded_value few, asked, same, ← withSign_mul] at value
    show decimalValue stored.1 (storedExponent stored.1) = _
    rw [written, ← value, image]
  have signed : v = withSign x.sign |v| := by
    rw [show |v| = _ from Fp.abs_value x]
    exact Fp.value_eq_withSign x
  have scaled : v / 10 ^ (lead + 1 - count) = withSign x.sign (|v| / 10 ^ (lead + 1 - count)) := by
    rw [← withSign_div, ← signed]
  have exact : parts.2 = .zero ↔ result = v := by
    rw [← mode.round_eq_iff x.sign splits, stands, ← eq_div_iff step.ne', scaled, withSign_inj]
  refine ⟨?_, ?_, ?_, ?_⟩
  · rw [image, ← asked]
    exact hasDigits
  · rw [image]
    exact (signs_assemble x.sign _ exponent).1
  · rw [stands, scaled, RoundingMode.toInteger_withSign mode x.sign splits]
  · rw [written, image]
    simp only [ne_eq, exact, ite_not]

/-- An unnormal number below zero, with all the digits after the point that there is room for, from
a guess that is far off. -/
theorem encodeFrom_rounds_unnormal :
    let x : Extended := ⟨true, 0x3FFF, 3⟩
    let v := x.value ℚ
    let lead := Int.log 10 |v|
    let count : ℤ := if (0 : ℤ) < -128 then min (-128) 17 else max 1 (min 17 (lead + 1 - -128))
    let stored := encodeFrom 1000000 .down (-128) x
    let result := decimalValue stored.1 (storedExponent stored.1)
    x.kind = .finite ∧
      lowerLog10 (fractionOf x).1 (fractionOf x).2 1000000 = min 1000000 lead ∧
      raiseLog10 (fractionOf x).1 (fractionOf x).2 (min 1000000 lead) = lead ∧
      HasDigits stored.1 count ∧ stored.1.first.getLsbD 31 = x.sign ∧
      result =
        RoundingMode.down.toInteger (v / 10 ^ (lead + 1 - count)) * 10 ^ (lead + 1 - count) ∧
      stored.2 =
        ((if (17 : ℤ) < -128 ∨ 999 < (storedExponent stored.1).natAbs then Fpu.operandError
          else 0) ||| if result = v then 0 else Fpu.inexactResult) := by
  have kind : (⟨true, 0x3FFF, 3⟩ : Extended).kind = .finite := by decide
  exact ⟨kind, encodeFrom_rounds 1000000 (-128) .down kind⟩

end Decimal

end M68k
