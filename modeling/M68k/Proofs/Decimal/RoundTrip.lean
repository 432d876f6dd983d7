import M68k.Proofs.Decimal.Load
import M68k.Proofs.Decimal.Store
import M68k.Proofs.Fp.RoundingError

/-!
# Packed decimal numbers survive a load and a store

Seventeen decimal digits have room in sixty-four binary ones: a decimal number of seventeen digits
that is rounded to extended precision is off by less than a hundredth of its last digit, so that
rounding it back to seventeen digits finds the same ones.  Just below a power of ten the rounded
number may have fallen under it, where its digits have one place more; they are all nines up to
there, and carry.

* `scaled_near` — what a number is close to when it is scaled to seventeen digits;
* `packed_round_trip` — a canonical image survives a load and a store.
-/

namespace M68k

namespace Decimal

/-! ## How far off a number is after a load -/

/-- A number of seventeen digits, after its error from being rounded to sixty-four bits. -/
structure Near (digits : ℕ) (power : ℤ) (w : ℚ) : Prop where
  lower : 10 ^ 16 ≤ digits
  upper : digits < 10 ^ 17
  near : |w - digits * 10 ^ (power - 16)| ≤ digits * 10 ^ (power - 16) / 2 ^ 64

namespace Near

variable {digits : ℕ} {power lead : ℤ} {w : ℚ}

/-- Less than a hundredth of the last digit is lost. -/
theorem scaled (h : Near digits power w) : |w * 10 ^ (16 - power) - digits| < 1 / 100 := by
  have unit := ten_zpow_pos (16 - power)
  have inverse : (10 : ℚ) ^ (power - 16) * 10 ^ (16 - power) = 1 := by
    rw [← zpow_add₀ (by norm_num)]
    simp
  have small : (digits : ℚ) < 10 ^ 17 := by exact_mod_cast h.upper
  calc |w * 10 ^ (16 - power) - digits|
      = |w - digits * 10 ^ (power - 16)| * 10 ^ (16 - power) := by
        rw [← abs_of_pos unit, ← abs_mul, abs_of_pos unit, sub_mul, mul_assoc, inverse, mul_one]
    _ ≤ digits * 10 ^ (power - 16) / 2 ^ 64 * 10 ^ (16 - power) :=
        mul_le_mul_of_nonneg_right h.near unit.le
    _ = digits * (10 ^ (power - 16) * 10 ^ (16 - power)) / 2 ^ 64 := by ring
    _ = digits / 2 ^ 64 := by rw [inverse, mul_one]
    _ < 1 / 100 := by
        rw [div_lt_div_iff₀ (by positivity) (by norm_num)]
        nlinarith

/-- The decimal exponent that is found, and what the number is close to when it is scaled to
seventeen digits: its digits or, where it has fallen below a power of ten, that power. -/
theorem scaled_near (h : Near digits power w) (low : 10 ^ lead ≤ w) (high : w < 10 ^ (lead + 1)) :
    (lead = power ∧ |w * 10 ^ (16 - lead) - digits| < 1 / 10) ∨
      (lead = power - 1 ∧ digits = 10 ^ 16 ∧ w * 10 ^ (16 - lead) < 10 ^ 17 ∧
        |w * 10 ^ (16 - lead) - 10 ^ 17| < 1 / 10) := by
  have ten : (10 : ℚ) ≠ 0 := by norm_num
  have unit := ten_zpow_pos (16 - power)
  have scaled := abs_lt.mp h.scaled
  have lower : (10 ^ 16 : ℚ) ≤ digits := by exact_mod_cast h.lower
  have upper : (digits : ℚ) ≤ 10 ^ 17 - 1 := by
    have whole : digits + 1 ≤ 10 ^ 17 := h.upper
    have cast : ((digits + 1 : ℕ) : ℚ) ≤ ((10 ^ 17 : ℕ) : ℚ) := by exact_mod_cast whole
    push_cast at cast
    linarith
  -- the number as seen from the last of its digits lies between two powers of ten
  have above : (10 : ℚ) ^ (lead + (16 - power)) ≤ w * 10 ^ (16 - power) := by
    rw [zpow_add₀ ten]
    exact mul_le_mul_of_nonneg_right low unit.le
  have below : w * 10 ^ (16 - power) < (10 : ℚ) ^ (lead + 1 + (16 - power)) := by
    rw [zpow_add₀ ten]
    exact mul_lt_mul_of_pos_right high unit
  have notHigher : lead + (16 - power) < 17 := by
    have bound : (10 : ℚ) ^ (lead + (16 - power)) < 10 ^ (17 : ℤ) := by
      refine above.trans_lt ?_
      norm_num
      linarith
    exact (zpow_lt_zpow_iff_right₀ (by norm_num)).mp bound
  have notLower : 15 < lead + 1 + (16 - power) := by
    have bound : (10 : ℚ) ^ (15 : ℤ) < 10 ^ (lead + 1 + (16 - power)) := by
      refine lt_trans ?_ below
      norm_num
      linarith
    exact (zpow_lt_zpow_iff_right₀ (by norm_num)).mp bound
  by_cases same : lead = power
  · subst same
    exact .inl ⟨rfl, h.scaled.trans (by norm_num)⟩
  · obtain rfl : lead = power - 1 := by omega
    have fallen : w * 10 ^ (16 - power) < 10 ^ 16 := by
      have exponent : power - 1 + 1 + (16 - power) = (16 : ℤ) := by ring
      rw [exponent] at below
      exact_mod_cast below
    have least : digits = 10 ^ 16 := by
      have close : (digits : ℚ) < 10 ^ 16 + 1 := by linarith
      have whole : digits < 10 ^ 16 + 1 := by exact_mod_cast close
      have := h.lower
      omega
    have shift : w * 10 ^ (16 - (power - 1)) = w * 10 ^ (16 - power) * 10 := by
      rw [show 16 - (power - 1) = 16 - power + 1 by ring, zpow_add_one₀ ten, mul_assoc]
    have value : (digits : ℚ) = 10 ^ 16 := by exact_mod_cast least
    rw [value] at scaled
    refine .inr ⟨rfl, least, ?_, ?_⟩
    · rw [shift]
      linarith
    · rw [shift, abs_lt]
      constructor <;> linarith

theorem pos (h : Near digits power w) : 0 < w := by
  have scaled := (abs_lt.mp h.scaled).1
  have lower : (10 ^ 16 : ℚ) ≤ digits := by exact_mod_cast h.lower
  have positive : 0 < w * 10 ^ (16 - power) := by linarith
  exact pos_of_mul_pos_left positive (ten_zpow_pos _).le

/-- It is a whole number then only if nothing was lost. -/
theorem whole_iff (h : Near digits power w) (low : 10 ^ lead ≤ w) (high : w < 10 ^ (lead + 1)) :
    (∃ n : ℤ, w * 10 ^ (16 - lead) = n) ↔ w = digits * 10 ^ (power - 16) := by
  have ten : (10 : ℚ) ≠ 0 := by norm_num
  have integer {n m : ℤ} (close : |(n : ℚ) - m| < 1 / 10) : n = m := by
    have small : |((n - m : ℤ) : ℚ)| < 1 := by
      push_cast
      linarith
    have zero : |n - m| < 1 := by exact_mod_cast small
    rw [Int.abs_lt_one_iff] at zero
    omega
  constructor
  · rintro ⟨n, whole⟩
    rcases h.scaled_near low high with ⟨rfl, close⟩ | ⟨rfl, -, fallen, close⟩
    · rw [whole] at close
      obtain rfl : n = digits := integer (by exact_mod_cast close)
      have back : (10 : ℚ) ^ (16 - lead) * 10 ^ (lead - 16) = 1 := by
        rw [← zpow_add₀ ten]
        simp
      calc w = w * 10 ^ (16 - lead) * 10 ^ (lead - 16) := by rw [mul_assoc, back, mul_one]
        _ = digits * 10 ^ (lead - 16) := by rw [whole, Int.cast_natCast]
    · rw [whole] at close fallen
      obtain rfl : n = 10 ^ 17 := integer (by exact_mod_cast close)
      norm_num at fallen
  · intro same
    have scaled : w * 10 ^ (16 - lead) = digits * 10 ^ (power - lead) := by
      rw [same, mul_assoc, ← zpow_add₀ ten]
      congr 2
      ring
    rcases h.scaled_near low high with ⟨rfl, -⟩ | ⟨rfl, -⟩
    · refine ⟨digits, ?_⟩
      rw [scaled, sub_self, zpow_zero, mul_one, Int.cast_natCast]
    · refine ⟨digits * 10, ?_⟩
      rw [scaled, sub_sub_cancel, zpow_one]
      push_cast
      rfl

/-- Rounding the scaled number finds the digits again, by a carry if it has fallen below a power of
ten. -/
theorem round_found (h : Near digits power w) (low : 10 ^ lead ≤ w) (high : w < 10 ^ (lead + 1))
    {parts : ℕ × Remnant} (splits : Splits parts (w * 10 ^ (16 - lead))) (sign : Bool) :
    (if RoundingMode.nearestEven.round sign parts = Nat.pow 10 17 then (Nat.pow 10 16, lead + 1)
      else (RoundingMode.nearestEven.round sign parts, lead)) = (digits, power) := by
  have eitherSign : RoundingMode.nearestEven.round sign parts =
      RoundingMode.nearestEven.round false parts := by
    obtain ⟨units, remnant⟩ := parts
    cases remnant <;> rfl
  have found {n : ℕ} (close : |w * 10 ^ (16 - lead) - n| < 1 / 10) :
      RoundingMode.nearestEven.round sign parts = n := by
    have whole : RoundingMode.nearestEven.toInteger (w * 10 ^ (16 - lead)) = (n : ℤ) :=
      RoundingMode.toInteger_eq_of_near (by push_cast; linarith)
    rw [RoundingMode.toInteger_of_splits _ splits, ← eitherSign] at whole
    exact_mod_cast whole
  rcases h.scaled_near low high with ⟨rfl, close⟩ | ⟨rfl, rfl, -, close⟩
  · rw [found close]
    exact if_neg h.upper.ne
  · rw [found (n := 10 ^ 17) (by exact_mod_cast close)]
    exact (if_pos rfl).trans (Prod.ext rfl (by dsimp only; omega))

end Near

/-! ## Loading -/

/-- The number that a canonical image stands for, without its sign. -/
def valueOf (image : Image) : ℚ := mantissa image * 10 ^ (exponent image - 16)

namespace Canonical

variable {image : Image} (canonical : Canonical image)
include canonical

/-- It is finite. -/
theorem not_special : image.first &&& specialMask ≠ specialMask := by
  intro special
  have d4 : digit image.first 4 ≤ 9 := canonical.exponentDigits 0 (by decide)
  have bits := congrArg (BitVec.extractLsb' 16 4) special
  have all : (image.first.extractLsb' 16 4) = 15#4 := by
    rw [BitVec.extractLsb'_and] at bits
    have mask : BitVec.extractLsb' 16 4 specialMask = BitVec.allOnes 4 := by decide
    rw [mask, BitVec.and_allOnes] at bits
    exact bits
  have fifteen : digit image.first 4 = 15 := congrArg BitVec.toNat all
  omega

end Canonical

/-- A load in the nearest mode: a finite number close to the decimal one, with a note of whether
they differ. -/
theorem decode_near {env : Environment} (nearest : env.rounding = .nearestEven) {image : Image}
    (canonical : Canonical image) :
    ∃ w : ℚ, (decode env image).1.IsFinite ∧
      (decode env image).1.sign = image.first.getLsbD 31 ∧
      ((decode env image).1.coefficient : ℚ) * 2 ^ (decode env image).1.unitExponent = w ∧
      Near (mantissa image) (exponent image) w ∧
      (decode env image).2 = if w = valueOf image then 0 else Fpu.inexactDecimal := by
  obtain ⟨lower, upper⟩ := canonical.mantissa_bounds
  have some : significand image ≠ 0 := by
    rw [← mantissa_eq_significand]
    omega
  obtain ⟨result, rounded, -, decoded⟩ := decode_isRounded canonical.not_special some env
  obtain ⟨fits, -⟩ := decimalValue_normal some env
  have least := (decimalValue_bounds some).1
  have positive : 0 < valueOf image :=
    mul_pos (Nat.cast_pos.mpr (by omega)) (ten_zpow_pos _)
  generalize hsign : image.first.getLsbD 31 = sign
  have stands : decimalValue image (loadedExponent image) = withSign sign (valueOf image) := by
    rw [decimalValue, valueOf, mantissa_eq_significand, exponent_eq_loadedExponent, hsign]
  rw [stands] at rounded fits least
  have size : |withSign sign (valueOf image)| = valueOf image := by
    rw [abs_withSign, abs_of_pos positive]
  have nonzero : withSign sign (valueOf image) ≠ 0 :=
    (withSign_eq_zero_iff sign).not.mpr positive.ne'
  obtain ⟨finite, value⟩ := rounded.rounded fits
  have hasSign : result.value.sign = sign := by
    rw [rounded.sign, if_neg nonzero]
    exact Fp.decide_withSign_neg sign positive
  rw [Fp.value_eq_withSign, hasSign] at value
  have exact_iff : (result.value.value ℚ = withSign sign (valueOf image)) ↔
      (result.value.coefficient : ℚ) * 2 ^ result.value.unitExponent = valueOf image := by
    rw [Fp.value_eq_withSign, hasSign, withSign_inj]
  rw [decoded]
  refine ⟨_, finite, hasSign, rfl, ⟨lower, upper, ?_⟩, ?_⟩
  · have normal : 1 - (extended80.bias : ℤ) - (64 - 1 : ℕ) ≤
        RoundingMode.unitExponent 64 (withSign sign (valueOf image)) := by
      have lead : (-7000 : ℤ) ≤ Int.log 2 (valueOf image) :=
        (Int.zpow_le_iff_le_log one_lt_two positive).mp (by exact_mod_cast size ▸ least)
      rw [RoundingMode.unitExponent, size, show 1 - (extended80.bias : ℤ) = -16382 from rfl]
      omega
    have error := RoundingMode.abs_bounded_sub_le (p := 64) (by decide) nonzero normal
    rw [← nearest, ← value, size, withSign_sub, abs_withSign] at error
    exact error
  · simp only [rounded.inexact_iff, finite, true_and, exact_iff, ite_not]

/-! ## Storing -/

/-- Storing a finite number with seventeen digits. -/
theorem encodeFrom_seventeen {x : Extended} (kind : x.kind = .finite) (guess : ℤ)
    (mode : RoundingMode) :
    encodeFrom guess mode 17 x =
      let lead := floorLog10 (fractionOf x).1 (fractionOf x).2 guess
      let scaled := scaleFraction (fractionOf x) (16 - lead)
      let remnant := Remnant.ofRemainder (scaled.1 % scaled.2) scaled.2
      let rounded := mode.round x.sign (scaled.1 / scaled.2, remnant)
      let result := if rounded = Nat.pow 10 17 then (Nat.pow 10 16, lead + 1) else (rounded, lead)
      (assemble x.sign result.1 result.2,
        (if 999 < result.2.natAbs then Fpu.operandError else 0) |||
          if remnant ≠ .zero then Fpu.inexactResult else 0) := by
  have count (lead : ℤ) : digitCount 17 lead = 17 := rfl
  have scale (lead : ℤ) : ((17 : ℕ) : ℤ) - 1 - lead = 16 - lead := by omega
  rw [encodeFrom_eq kind]
  simp only [count, scale, lt_self_iff_false, false_or, Nat.sub_self,
    show Nat.pow 10 0 = 1 from rfl, mul_one]

/-- A number close to a decimal one of seventeen digits is stored as that one, with a note of
whether they differ. -/
theorem encodeFrom_near {x : Extended} (finite : x.IsFinite) {digits : ℕ} {power : ℤ} {w : ℚ}
    (value : (x.coefficient : ℚ) * 2 ^ x.unitExponent = w) (near : Near digits power w)
    (small : power.natAbs ≤ 999) (guess : ℤ) :
    encodeFrom guess .nearestEven 17 x =
      (assemble x.sign digits power,
        if w = digits * 10 ^ (power - 16) then 0 else Fpu.inexactResult) := by
  have positive := near.pos
  have nonzero : x.coefficient ≠ 0 := by
    intro zero
    rw [zero, Nat.cast_zero, zero_mul] at value
    exact positive.ne value
  have kind : x.kind = .finite := by rw [Fp.kind_of_isFinite finite, if_neg nonzero]
  -- the fraction that is stored, and the exponent of its leading digit
  obtain ⟨numerator, denominator, fraction⟩ := fractionOf_spec kind
  rw [Fp.abs_value, value] at fraction
  obtain ⟨low, high⟩ := floorLog10_bounds numerator denominator guess
  rw [fraction] at low high
  -- its seventeen digits
  rw [encodeFrom_seventeen kind]
  generalize floorLog10 (fractionOf x).1 (fractionOf x).2 guess = lead at low high
  have splits := Magnitude.splits_div (K := ℚ) (scaleFraction (fractionOf x) (16 - lead)).1
    (scaleFraction_pos denominator (16 - lead))
  rw [scaleFraction_value, fraction] at splits
  have remains := splits.remnant_eq_zero_iff.trans (near.whole_iff low high)
  dsimp only at remains ⊢
  rw [near.round_found low high splits x.sign]
  dsimp only
  rw [if_neg (by omega)]
  by_cases same : w = digits * 10 ^ (power - 16)
  · rw [if_pos same, if_neg (not_not_intro (remains.mpr same))]
    rfl
  · rw [if_neg same, if_pos (mt remains.mp same)]
    rfl

/-- **Packed decimal survives a load and a store.**  A canonical image that is loaded in the nearest
mode and stored again with seventeen digits is the same image, whatever precision results have and
whatever exponent the store starts to search from.  Nothing is raised but a note, on both ways or on
neither, that the binary number between is not the decimal one. -/
theorem packed_round_trip (env : Environment) (nearest : env.rounding = .nearestEven)
    {image : Image} (canonical : Canonical image) :
    let loaded := decode env image
    (loaded.2 = 0 ∨ loaded.2 = Fpu.inexactDecimal) ∧
      encode .nearestEven 17 loaded.1 =
        (image, if loaded.2 = Fpu.inexactDecimal then Fpu.inexactResult else 0) ∧
      ∀ guess, encodeFrom guess .nearestEven 17 loaded.1 = encode .nearestEven 17 loaded.1 := by
  intro loaded
  obtain ⟨w, finite, sign, value, near, raised⟩ := decode_near nearest canonical
  have stored (guess : ℤ) : encodeFrom guess .nearestEven 17 loaded.1 =
      (image, if loaded.2 = Fpu.inexactDecimal then Fpu.inexactResult else 0) := by
    rw [encodeFrom_near finite value near canonical.natAbs_exponent_le guess, sign,
      assemble_of_canonical canonical, raised]
    by_cases same : w = valueOf image
    · rw [if_pos (show w = mantissa image * 10 ^ (exponent image - 16) from same), if_pos same]
      rfl
    · rw [if_neg (show ¬w = mantissa image * 10 ^ (exponent image - 16) from same), if_neg same,
        if_pos rfl]
  refine ⟨?_, stored _, fun guess => (stored guess).trans (stored _).symm⟩
  rw [raised]
  split
  · exact .inl rfl
  · exact .inr rfl

/-- One tenth, which no binary number is. -/
def tenth : Image := ⟨0x40010001, 0, 0⟩

theorem packed_round_trip_tenth :
    Canonical tenth ∧ (decode {} tenth).2 = Fpu.inexactDecimal ∧
      encode .nearestEven 17 (decode {} tenth).1 = (tenth, Fpu.inexactResult) := by
  have canonical : Canonical tenth := by decide
  have raised : (decode {} tenth).2 = Fpu.inexactDecimal := by decide +kernel
  have stored := (packed_round_trip {} rfl canonical).2.1
  rw [if_pos raised] at stored
  exact ⟨canonical, raised, stored⟩

end Decimal

end M68k
