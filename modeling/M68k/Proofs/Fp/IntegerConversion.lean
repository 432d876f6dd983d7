import M68k.Fp.Conversion
import M68k.Proofs.Fp.Sticky
import M68k.Proofs.Fp.Widening

/-!
# Integers as numbers of a format

An integer that a format has is converted to it as it is.  A number is rounded to become an integer,
and is invalid where that does not fit the width asked for.  There and back an integer stays as it
is, and no flag is raised, in whatever mode it goes.

* `lead_eq_log` — the exponent of the leading one is the logarithm of the magnitude;
* `represents_intCast`, `ofInt_of_represents` — from an integer;
* `toInt_of_isFinite` — to an integer;
* `toInt_of_value` — to an integer from a number that is one.
-/

namespace M68k

variable {f : Format}

/-- Exponents reach further than a significand is long, on either side of one. -/
theorem Format.range_of_mem (hf : f ∈ [binary32, binary64, extended80, binary128]) :
    2 ≤ f.precision ∧ f.precision ≤ f.bias ∧ (f.precision : ℤ) ≤ f.exponentMax - f.bias := by
  simp only [List.mem_cons, List.not_mem_nil, or_false] at hf
  rcases hf with rfl | rfl | rfl | rfl <;> decide

namespace Fp

/-- A number other than zero is denoted by its significand and exponent. -/
theorem denotes_magnitude {K : Type*} [Field K] [LinearOrder K] {x : Fp f}
    (kind : x.kind = .finite) : x.magnitude.Denotes ((x.coefficient : K) * 2 ^ x.unitExponent) :=
  Magnitude.denotes_dyadic (coefficient_pos kind) _

/-- And its multiples by powers of two by another exponent. -/
theorem denotes_scaled {x : Fp f} (kind : x.kind = .finite) (e : ℤ) :
    (Magnitude.dyadic x.coefficient (x.unitExponent + e)).Denotes
      ((x.coefficient : ℚ) * 2 ^ x.unitExponent * 2 ^ e) := by
  rw [mul_assoc, ← zpow_add₀ two_ne_zero]
  exact Magnitude.denotes_dyadic (coefficient_pos kind) _

/-- The exponent of the leading one is the logarithm of the magnitude. -/
theorem lead_eq_log {x : Fp f} (kind : x.kind = .finite) :
    x.lead = Int.log 2 ((x.coefficient : ℚ) * 2 ^ x.unitExponent) := by
  have positive : (0 : ℚ) < x.coefficient := by exact_mod_cast coefficient_pos kind
  rw [Magnitude.log_two_mul_zpow positive, Int.log_natCast, ← Nat.log2_eq_log_two, lead]

theorem le_lead_iff {x : Fp f} (kind : x.kind = .finite) (e : ℤ) :
    e ≤ x.lead ↔ 2 ^ e ≤ |x.value ℚ| := by
  rw [abs_value, lead_eq_log kind]
  exact (Int.zpow_le_iff_le_log one_lt_two (denotes_magnitude kind).pos).symm

/-- The integers of no more bits than a significand. -/
theorem represents_intCast (hf : f ∈ [binary32, binary64, extended80, binary128]) {n : ℤ}
    (short : n.natAbs ≤ 2 ^ f.fractionBits) : f.Represents (n : ℚ) := by
  obtain ⟨bits, below, above⟩ := Format.range_of_mem hf
  refine ⟨⟨n, 0, by rw [zpow_zero, mul_one], short.trans_lt ?_, ?_⟩, ?_⟩
  · exact Nat.pow_lt_pow_right one_lt_two (by simp only [Format.fractionBits]; omega)
  · simp only [leastLead]
    omega
  · have bound : |(n : ℚ)| ≤ 2 ^ (f.fractionBits : ℤ) := by
      rw [← Int.cast_abs, Int.abs_eq_natAbs, zpow_natCast]
      exact_mod_cast short
    refine bound.trans_lt ((zpow_lt_zpow_iff_right₀ one_lt_two).mpr ?_)
    simp only [Format.fractionBits]
    omega

/-- An integer that the format has. -/
theorem ofInt_of_represents (regular : f.Regular) (env : Environment) {n : ℤ}
    (represents : f.Represents (n : ℚ)) :
    (ofInt f env n).flags = Flags.none ∧ (ofInt f env n).value.IsFinite ∧
      (ofInt f env n).value.sign = decide (n < 0) ∧ (ofInt f env n).value.value ℚ = n := by
  have rounded := encodeDyadic_isRounded (K := ℚ) regular regular.precision_pos le_rfl env false n 0
  rw [zpow_zero, mul_one] at rounded
  obtain ⟨flags, finite, value⟩ := rounded.exact regular.precision_pos represents
  refine ⟨flags, finite, rounded.sign.trans ?_, value⟩
  split_ifs with zero
  · rw [Int.cast_eq_zero.mp zero]
    rfl
  · exact decide_eq_decide.mpr Int.cast_lt_zero

/-! ## To an integer -/

theorem intCast_signed (negative : Bool) (m : ℕ) :
    ((if negative then -m else m : ℤ) : ℚ) = withSign negative (m : ℚ) := by
  cases negative <;> simp

/-- A number's whole units, rounded and taken with its sign, are the number rounded to an integer,
and nothing is left of just the integers. -/
theorem toInteger_value {x : Fp f} (kind : x.kind = .finite) (mode : RoundingMode) :
    let units := mode.round x.sign (x.magnitude.split 0)
    mode.toInteger (x.value ℚ) = (if x.sign then -(units : ℤ) else units) ∧
      ((x.magnitude.split 0).2 = .zero ↔ Int.fract (x.value ℚ) = 0) := by
  intro units
  have splits := Magnitude.splits_split (denotes_magnitude (K := ℚ) kind) 0
  rw [zpow_zero, div_one] at splits
  rw [value_eq_withSign]
  constructor
  · refine Int.cast_injective (α := ℚ) ?_
    rw [RoundingMode.toInteger_withSign mode x.sign splits, intCast_signed]
  · rw [splits.remnant_eq_zero_iff, Int.fract_eq_zero_iff, Set.mem_range]
    cases x.sign with
    | false => exact exists_congr fun n => eq_comm
    | true =>
      refine ⟨fun ⟨n, value⟩ => ⟨-n, ?_⟩, fun ⟨n, value⟩ => ⟨-n, ?_⟩⟩
      · rw [value, withSign_true, Int.cast_neg]
      · rw [Int.cast_neg, value, withSign_true, neg_neg]

/-- The end of the range on the side of a sign decides which magnitudes fit. -/
theorem le_integerLimit_iff (width : ℕ) (negative : Bool) (m : ℕ) :
    let n : ℤ := if negative then -m else m
    m ≤ (integerLimit width negative).natAbs ↔ -2 ^ (width - 1) ≤ n ∧ n < 2 ^ (width - 1) := by
  have room : 1 ≤ 2 ^ (width - 1) := Nat.one_le_two_pow
  have cast : (2 : ℤ) ^ (width - 1) = (2 ^ (width - 1) : ℕ) := by push_cast; rfl
  rw [cast]
  unfold integerLimit
  simp only [Nat.pow_eq]
  generalize 2 ^ (width - 1) = k at room
  cases negative <;> simp <;> omega

theorem integerLimit_lt {width : ℕ} (wide : 1 ≤ width) (negative : Bool) :
    (integerLimit width negative).natAbs < 2 ^ width := by
  have double : 2 ^ width = 2 * 2 ^ (width - 1) := by rw [← pow_succ', Nat.sub_add_cancel wide]
  have room : 1 ≤ 2 ^ (width - 1) := Nat.one_le_two_pow
  unfold integerLimit
  simp only [Nat.pow_eq]
  split_ifs <;> omega

/-- **Conversion to an integer.**  A number is rounded, if it then fits, and is inexact just if it
was no integer.  All others are invalid, and give the end of the range on their side. -/
theorem toInt_of_isFinite {x : Fp f} (finite : x.IsFinite) {width : ℕ} (wide : 1 ≤ width)
    (mode : RoundingMode) :
    let n := mode.toInteger (x.value ℚ)
    toInt width mode x =
      if -2 ^ (width - 1) ≤ n ∧ n < 2 ^ (width - 1) then
        ⟨n, Flags.when (Int.fract (x.value ℚ) ≠ 0) Flags.inexact⟩
      else ⟨if x.value ℚ < 0 then -2 ^ (width - 1) else 2 ^ (width - 1) - 1, Flags.invalid⟩ := by
  intro n
  by_cases zero : x.coefficient = 0
  · have kind : x.kind = .zero := by rw [kind_of_isFinite finite, if_pos zero]
    have value : x.value ℚ = 0 := value_of_kind_zero kind
    have none : n = 0 := by simpa [n, value] using mode.toInteger_intCast (K := ℚ) 0
    have inside : -2 ^ (width - 1) ≤ n ∧ n < 2 ^ (width - 1) := by
      rw [none]
      exact ⟨neg_nonpos.mpr (by positivity), by positivity⟩
    rw [if_pos inside, toInt, kind, none, value, Int.fract_zero]
    rfl
  · have kind : x.kind = .finite := by rw [kind_of_isFinite finite, if_neg zero]
    obtain ⟨integer, whole⟩ := toInteger_value kind mode
    have fits := le_integerLimit_iff width x.sign (mode.round x.sign (x.magnitude.split 0))
    have negative : x.value ℚ < 0 ↔ x.sign = true := by
      have positive := (denotes_magnitude (K := ℚ) kind).pos
      rw [value_eq_withSign]
      cases x.sign <;> simp [positive, positive.le]
    have limit : integerLimit width x.sign =
        if x.value ℚ < 0 then -2 ^ (width - 1) else 2 ^ (width - 1) - 1 := by
      simp only [negative, integerLimit, Nat.pow_eq]
      push_cast [Nat.one_le_two_pow]
      rfl
    have inexact : decide ((x.magnitude.split 0).2 ≠ .zero) =
        decide (Int.fract (x.value ℚ) ≠ 0) := decide_eq_decide.mpr whole.not
    dsimp only at integer fits
    rw [← integer, ← not_lt] at fits
    rw [← limit]
    simp only [toInt, kind, ← integer, inexact]
    by_cases large : (width : ℤ) ≤ x.lead
    · -- the whole units alone are beyond the range
      have beyond : (integerLimit width x.sign).natAbs <
          mode.round x.sign (x.magnitude.split 0) := by
        have units : mode.round x.sign (x.magnitude.split 0) = n.natAbs := by
          rw [show n = _ from integer]
          split_ifs <;> omega
        have size : 2 ^ width ≤ n.natAbs := by
          refine mode.le_natAbs_toInteger ?_
          exact_mod_cast (le_lead_iff kind width).mp large
        rw [units]
        exact (integerLimit_lt wide x.sign).trans_le size
      rw [if_pos large, if_neg (mt fits.mpr (not_not_intro beyond))]
    · rw [if_neg large]
      by_cases outside : (integerLimit width x.sign).natAbs <
          mode.round x.sign (x.magnitude.split 0)
      · rw [if_pos outside, if_neg (mt fits.mpr (not_not_intro outside))]
      · rw [if_neg outside, if_pos (fits.mp outside)]

/-- A number that is an integer of the width asked for. -/
theorem toInt_of_value {x : Fp f} (finite : x.IsFinite) {width : ℕ} (wide : 1 ≤ width) {n : ℤ}
    (value : x.value ℚ = n) (low : -2 ^ (width - 1) ≤ n) (high : n < 2 ^ (width - 1))
    (mode : RoundingMode) : toInt width mode x = ⟨n, Flags.none⟩ := by
  rw [toInt_of_isFinite finite wide mode, value, RoundingMode.toInteger_intCast, if_pos ⟨low, high⟩,
    Int.fract_intCast]
  rfl

end Fp

end M68k
