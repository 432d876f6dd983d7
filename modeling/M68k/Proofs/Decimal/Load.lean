import M68k.Proofs.Decimal.LeadingBits
import M68k.Proofs.Decimal.Value
import M68k.Proofs.Fp.Canonical
import M68k.Proofs.Fp.CorrectRounding

/-!
# Loading packed decimal numbers

Whatever digits an image has, a load rounds the number that they stand for once, to the sixty-four
bits of extended precision.  Decimal exponents end long before those of the extended format do, so
that the result is a normal number.

* `decode_isRounded` — a load is a correct rounding;
* `decode_eq_unbounded` — which neither overflows nor is tiny.
-/

namespace M68k

namespace Decimal

section

variable {image : Image} (finite : image.first &&& specialMask ≠ specialMask)
  (nonzero : significand image ≠ 0)
include finite nonzero

/-- A load encodes the number that an image stands for. -/
theorem decode_isRounded (env : Environment) :
    ∃ result : Raised Extended,
      IsRounded env 64 false (decimalValue image (loadedExponent image)) result ∧
      result.value.Canonical ∧
      decode env image = (result.value,
        if result.flags.includes Flags.inexact then Fpu.inexactDecimal else 0) := by
  have decoded := decode_eq env finite (by rwa [mantissa_eq_significand])
  rw [mantissa_eq_significand, exponent_eq_loadedExponent] at decoded
  have denotes := denotes_magnitudeOf (Nat.pos_of_ne_zero nonzero) (loadedExponent image - 16)
  exact ⟨_, Fp.encode_isRounded _ Extended.regular (by decide) le_rfl env false denotes,
    Fp.encode_canonical _ Extended.regular (by decide) le_rfl env denotes, decoded⟩

omit finite in
/-- The number that an image stands for is far from the ends of the extended format. -/
theorem decimalValue_bounds :
    (2 : ℚ) ^ (-7000 : ℤ) ≤ |decimalValue image (loadedExponent image)| ∧
      |decimalValue image (loadedExponent image)| < 2 ^ (7000 : ℤ) := by
  have small := natAbs_loadedExponent_le image
  generalize loadedExponent image = e at small
  have unit := ten_zpow_pos (e - 16)
  have ten : (10 : ℚ) ≠ 0 := by norm_num
  have least : (1 : ℚ) ≤ significand image := by exact_mod_cast Nat.one_le_iff_ne_zero.mpr nonzero
  have most : (significand image : ℚ) < 10 ^ (18 : ℤ) := by
    exact_mod_cast significand_lt image
  have size : |decimalValue image e| = significand image * 10 ^ (e - 16) := by
    rw [decimalValue, abs_withSign, abs_of_nonneg (by positivity)]
  rw [size]
  constructor
  · calc (2 : ℚ) ^ (-7000 : ℤ) ≤ 10 ^ (e - 16) := (ten_zpow_bounds (by omega)).1
      _ = 1 * 10 ^ (e - 16) := (one_mul _).symm
      _ ≤ significand image * 10 ^ (e - 16) := mul_le_mul_of_nonneg_right least unit.le
  · calc (significand image : ℚ) * 10 ^ (e - 16)
        < 10 ^ (18 : ℤ) * 10 ^ (e - 16) := mul_lt_mul_of_pos_right most unit
      _ = 10 ^ (e + 2) := by
          rw [← zpow_add₀ ten, show 18 + (e - 16) = e + 2 by ring]
      _ ≤ 2 ^ (7000 : ℤ) := (ten_zpow_bounds (by omega)).2

omit finite in
/-- So it neither overflows nor is tiny, and is rounded as with an unbounded exponent. -/
theorem decimalValue_normal (env : Environment) :
    let exact := decimalValue image (loadedExponent image)
    ¬ Overflows extended80 env.rounding 64 exact ∧ ¬ Tiny extended80 env 64 exact ∧
      env.rounding.bounded 64 (Fp.leastLead extended80 - (64 - 1 : ℕ)) exact =
        env.rounding.unbounded 64 exact := by
  obtain ⟨least, most⟩ := decimalValue_bounds nonzero
  dsimp only
  generalize decimalValue image (loadedExponent image) = v at least most
  have nonzero : v ≠ 0 := by
    rintro rfl
    rw [abs_zero] at least
    exact absurd (zpow_pos (two_pos : (0 : ℚ) < 2) (-7000)) (not_lt.mpr least)
  have lead : (-7000 : ℤ) ≤ Int.log 2 |v| :=
    (Int.zpow_le_iff_le_log one_lt_two (abs_pos.mpr nonzero)).mp (by exact_mod_cast least)
  have range : Fp.leastLead extended80 = -16382 := rfl
  refine ⟨?_, ?_, ?_⟩
  · have bound := env.rounding.abs_unbounded_le (p := 64) (by decide) most
    rw [Overflows, not_le]
    exact bound.trans_lt (zpow_lt_zpow_right₀ one_lt_two (by decide))
  · unfold Tiny
    cases env.tininess with
    | beforeRounding =>
      show ¬ |v| < 2 ^ Fp.leastLead extended80
      rw [range, not_lt]
      exact (zpow_le_zpow_right₀ one_le_two (by decide)).trans least
    | afterRounding =>
      obtain ⟨n, lower, upper, rounded⟩ :=
        env.rounding.exists_abs_unbounded_eq (p := 64) (by decide) nonzero
      show ¬ |env.rounding.unbounded 64 v| < 2 ^ Fp.leastLead extended80
      rw [rounded, range, RoundingMode.carry_lt_iff (by decide) lower upper]
      split_ifs <;> omega
  · rw [RoundingMode.bounded, RoundingMode.unbounded, max_eq_left]
    rw [RoundingMode.unitExponent, range]
    omega

end

/-- **A load rounds once.**  Whatever digits an image of a number other than zero has, the number
that they stand for is rounded to sixty-four bits in the mode of the environment.  It neither
overflows nor is tiny, and a note is raised just if the extended format does not have it. -/
theorem decode_rounds (env : Environment) {image : Image}
    (finite : image.first &&& specialMask ≠ specialMask) (nonzero : significand image ≠ 0) :
    let exact := decimalValue image (loadedExponent image)
    let loaded := decode env image
    loaded.1.IsFinite ∧ loaded.1.Canonical ∧ loaded.1.sign = image.first.getLsbD 31 ∧
      loaded.1.value ℚ = env.rounding.unbounded 64 exact ∧
      ¬ Overflows extended80 env.rounding 64 exact ∧ ¬ Tiny extended80 env 64 exact ∧
      loaded.2 = (if loaded.1.value ℚ = exact then 0 else Fpu.inexactDecimal) ∧
      (loaded.1.value ℚ = exact ↔ extended80.Represents exact) := by
  intro exact loaded
  obtain ⟨result, rounded, canonical, decoded⟩ := decode_isRounded finite nonzero env
  obtain ⟨fits, normal, unbounded⟩ := decimalValue_normal nonzero env
  obtain ⟨number, value⟩ := rounded.rounded fits
  have regular : extended80.Regular := Format.regular_of_mem (by simp)
  rw [← Fp.leastLead, unbounded] at value
  have inexact : result.flags.includes Flags.inexact = true ↔ ¬ result.value.value ℚ = exact := by
    rw [rounded.inexact_iff, and_iff_right number]
  have positive : (0 : ℚ) < significand image * 10 ^ (loadedExponent image - 16) :=
    mul_pos (by exact_mod_cast Nat.pos_of_ne_zero nonzero) (ten_zpow_pos _)
  have sign : result.value.sign = image.first.getLsbD 31 := by
    rw [rounded.sign, decimalValue, if_neg ((withSign_eq_zero_iff _).not.mpr positive.ne'),
      Fp.decide_withSign_neg _ positive]
  simp only [loaded, decoded]
  refine ⟨number, canonical, sign, value, fits, normal, ?_, ?_⟩
  · simp only [inexact, ite_not]
  · constructor
    · intro same
      rw [← same]
      exact Fp.represents_value regular number
    · intro represents
      rw [value]
      exact (represents.rounded_eq regular.precision_pos env.rounding).1

/-- Digits above nine, a negative number and a negative exponent, rounded upward in an environment
that asks for single precision. -/
theorem decode_rounds_hexadecimal :
    let env : Environment := ⟨.up, .afterRounding, .single⟩
    let image : Image := ⟨0xCABC000F, 0xFEDCBA98, 0x7654321F⟩
    let exact := decimalValue image (loadedExponent image)
    let loaded := decode env image
    image.first &&& specialMask ≠ specialMask ∧ significand image ≠ 0 ∧
      loaded.1.IsFinite ∧ loaded.1.Canonical ∧ loaded.1.sign = image.first.getLsbD 31 ∧
      loaded.1.value ℚ = env.rounding.unbounded 64 exact ∧
      ¬ Overflows extended80 env.rounding 64 exact ∧ ¬ Tiny extended80 env 64 exact ∧
      loaded.2 = (if loaded.1.value ℚ = exact then 0 else Fpu.inexactDecimal) ∧
      (loaded.1.value ℚ = exact ↔ extended80.Represents exact) := by
  have finite : (0xCABC000F#32 : BitVec 32) &&& specialMask ≠ specialMask := by decide
  have nonzero : significand ⟨0xCABC000F, 0xFEDCBA98, 0x7654321F⟩ ≠ 0 := by decide +kernel
  exact ⟨finite, nonzero, decode_rounds ⟨.up, .afterRounding, .single⟩ finite nonzero⟩

end Decimal

end M68k
