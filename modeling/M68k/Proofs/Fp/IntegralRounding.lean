import M68k.Proofs.Fp.IntegerConversion

/-!
# Integers among the numbers of a format

Rounding a number to an integer gives a number of the format again, whichever way it is asked for: a
number whose last bit is no fraction stays as it is encoded, and any other has an integer next to it
that needs no more bits than a significand.  The conversion to an integer of some width finds the
same integer with the same flag, as long as it fits.

* `IsIntegralOf`, `roundToIntegral_of_isFinite` — rounding to an integral value;
* `toInt_roundToIntegral` — both ways together, and back from an integer.
-/

namespace M68k

namespace Fp

variable {f : Format}

/-- A number whose leading one is so far up has no bits behind the point. -/
theorem fract_eq_zero_of_le_lead (hp : 1 ≤ f.precision) {x : Fp f} (positive : 0 < x.coefficient)
    (large : (f.fractionBits : ℤ) ≤ x.lead) : Int.fract (x.value ℚ) = 0 := by
  have short : x.coefficient.log2 < f.precision :=
    (Nat.log2_lt positive.ne').mpr (x.coefficient_lt hp)
  obtain ⟨k, unit⟩ := Int.eq_ofNat_of_zero_le (show 0 ≤ x.unitExponent by
    simp only [lead, Format.fractionBits] at large
    omega)
  rw [Int.fract_eq_zero_iff, value, unit]
  exact ⟨x.signedCoefficient * 2 ^ k, by push_cast; rfl⟩

/-- What rounding to an integral value is to give: the number rounded to an integer, with the sign
of the operand even where it is zero, and inexact just if the operand was no integer. -/
structure IsIntegralOf (mode : RoundingMode) (x : Fp f) (r : Raised (Fp f)) : Prop where
  isFinite : r.value.IsFinite
  value : r.value.value ℚ = mode.toInteger (x.value ℚ)
  sign : r.value.sign = x.sign
  flags : r.flags = Flags.when (Int.fract (x.value ℚ) ≠ 0) Flags.inexact

theorem isIntegral_self {x : Fp f} (finite : x.IsFinite) (mode : RoundingMode)
    (whole : Int.fract (x.value ℚ) = 0) : IsIntegralOf mode x (pure x) := by
  obtain ⟨n, integer⟩ := Int.fract_eq_zero_iff.mp whole
  refine ⟨finite, ?_, rfl, ?_⟩
  · rw [Raised.pure_value, ← integer, RoundingMode.toInteger_intCast]
  · rw [whole]
    rfl

section

variable (hf : f ∈ [binary32, binary64, extended80, binary128])
include hf

/-- Whole units of a number, if they are few enough, are encoded as they are. -/
theorem isIntegral_units (env : Environment) {x : Fp f} {mode : RoundingMode} {units : ℕ}
    (integer : ((mode.toInteger (x.value ℚ) : ℤ) : ℚ) = withSign x.sign (units : ℚ))
    (short : (mode.toInteger (x.value ℚ)).natAbs ≤ 2 ^ f.fractionBits) :
    IsIntegralOf mode x (Raised.raise (Flags.when (Int.fract (x.value ℚ) ≠ 0) Flags.inexact) >>=
      fun _ => if units = 0 then pure (zero f x.sign)
        else pure (encode f env f.precision x.sign (.dyadic units 0)).value) := by
  have regular := Format.regular_of_mem hf
  by_cases none : units = 0
  · rw [if_pos none]
    rw [none, Nat.cast_zero, (withSign_eq_zero_iff x.sign).mpr rfl] at integer
    exact ⟨isFinite_zero regular x.sign, (value_zero f x.sign).trans integer.symm, rfl,
      BitVec.or_zero⟩
  · rw [if_neg none]
    have represents := represents_intCast hf short
    have denotes := Magnitude.denotes_dyadic (K := ℚ) (Nat.pos_of_ne_zero none) 0
    rw [zpow_zero, mul_one] at denotes
    rw [integer] at represents
    obtain ⟨-, isFinite, -, sign, value⟩ := encode_of_represents regular env x.sign denotes
      represents
    exact ⟨isFinite, value.trans integer.symm, sign, BitVec.or_zero⟩

/-- **Rounding to an integral value.**  Numbers without a fraction stay as they are encoded, and all
others are so small that the integers next to them are numbers of the format. -/
theorem roundToIntegral_of_isFinite (env : Environment) {x : Fp f} (finite : x.IsFinite)
    (mode : RoundingMode) : IsIntegralOf mode x (roundToIntegral env mode x) := by
  by_cases empty : x.coefficient = 0
  · have kind : x.kind = .zero := by rw [kind_of_isFinite finite, if_pos empty]
    simp only [roundToIntegral, kind]
    refine isIntegral_self finite mode ?_
    rw [value_of_kind_zero kind, Int.fract_zero]
  have kind : x.kind = .finite := by rw [kind_of_isFinite finite, if_neg empty]
  by_cases large : (f.fractionBits : ℤ) ≤ x.lead
  · simp only [roundToIntegral, kind, if_pos large]
    exact isIntegral_self finite mode (fract_eq_zero_of_le_lead
      (Format.regular_of_mem hf).precision_pos (coefficient_pos kind) large)
  obtain ⟨integer, whole⟩ := toInteger_value kind mode
  have inexact : decide ((x.magnitude.split 0).2 ≠ .zero) =
      decide (Int.fract (x.value ℚ) ≠ 0) := decide_eq_decide.mpr whole.not
  have short : (mode.toInteger (x.value ℚ)).natAbs ≤ 2 ^ f.fractionBits := by
    have small : |x.value ℚ| ≤ 2 ^ (f.fractionBits : ℤ) :=
      (not_le.mp (mt (le_lead_iff kind f.fractionBits).mpr large)).le
    refine mode.natAbs_toInteger_le ?_
    exact_mod_cast small
  simp only [roundToIntegral, kind, if_neg large, inexact]
  exact isIntegral_units hf env (by rw [integer, intCast_signed]) short

/-- **Rounding to an integer and to an integral value agree.**  For every finite number, mode and
width, the conversion to an integer finds the number rounded to one, if that fits, and otherwise is
just invalid and gives the end of the range on the number's side.  Rounding to an integral value
finds the same integer as a number of the format, with the sign of the operand, and both are inexact
just if the operand was no integer.  Formats with room for 64 bits have the integers of that width:
these are converted there and back without a flag. -/
theorem toInt_roundToIntegral (env : Environment) {x : Fp f} (finite : x.IsFinite)
    (mode : RoundingMode) {width : ℕ} (wide : 1 ≤ width) :
    let n := mode.toInteger (x.value ℚ)
    let inexact := Flags.when (Int.fract (x.value ℚ) ≠ 0) Flags.inexact
    let integral := roundToIntegral env mode x
    toInt width mode x =
        (if -2 ^ (width - 1) ≤ n ∧ n < 2 ^ (width - 1) then ⟨n, inexact⟩
        else ⟨if x.value ℚ < 0 then -2 ^ (width - 1) else 2 ^ (width - 1) - 1, Flags.invalid⟩) ∧
      integral.value.IsFinite ∧ integral.value.value ℚ = n ∧ integral.value.sign = x.sign ∧
      integral.flags = inexact ∧
      (f ∈ [extended80, binary128] → ∀ m : ℤ, -2 ^ 63 ≤ m → m < 2 ^ 63 →
        (ofInt f env m).flags = Flags.none ∧
          toInt 64 mode (ofInt f env m).value = ⟨m, Flags.none⟩) := by
  intro n inexact integral
  obtain ⟨isFinite, value, sign, flags⟩ := roundToIntegral_of_isFinite hf env finite mode
  refine ⟨toInt_of_isFinite finite wide mode, isFinite, value, sign, flags, ?_⟩
  intro long m low high
  have bits : 63 ≤ f.fractionBits := by
    simp only [List.mem_cons, List.not_mem_nil, or_false] at long
    rcases long with rfl | rfl <;> decide
  have short : m.natAbs ≤ 2 ^ f.fractionBits :=
    (show m.natAbs ≤ 2 ^ 63 by omega).trans (Nat.pow_le_pow_right two_pos bits)
  obtain ⟨none, isFinite, -, value⟩ :=
    ofInt_of_represents (Format.regular_of_mem hf) env (represents_intCast hf short)
  exact ⟨none, toInt_of_value isFinite (by decide) value low high mode⟩

end

/-- A number half a unit below the least integer of 32 bits, which is rounded into the range. -/
theorem toInt_roundToIntegral_least :
    let x : Extended := ⟨true, 0x401E, 0x8000000080000000⟩
    extended80 ∈ [binary32, binary64, extended80, binary128] ∧ x.IsFinite ∧ 1 ≤ 32 ∧
      toInt 32 .nearestEven x = ⟨-2 ^ 31, Flags.inexact⟩ ∧
      (roundToIntegral {} .nearestEven x).value.value ℚ = -2 ^ 31 ∧
      (roundToIntegral {} .nearestEven x).flags = Flags.inexact ∧
      (ofInt extended80 {} (-2 ^ 63)).flags = Flags.none ∧
      toInt 64 .nearestEven (ofInt extended80 {} (-2 ^ 63)).value = ⟨-2 ^ 63, Flags.none⟩ := by
  intro x
  have known : extended80 ∈ [binary32, binary64, extended80, binary128] := by simp
  have finite : x.IsFinite := by unfold IsFinite; decide
  have number : x.value ℚ = -2 ^ 31 - 1 / 2 := by
    have coefficient : x.signedCoefficient = -0x8000000080000000 := by decide
    have unit : x.unitExponent = -32 := by decide
    rw [value, coefficient, unit]
    norm_num
  have floor : ⌊(-2 ^ 31 - 1 / 2 : ℚ)⌋ = -2 ^ 31 - 1 := by
    rw [Int.floor_eq_iff]
    norm_num
  have fraction : Int.fract (-2 ^ 31 - 1 / 2 : ℚ) = 1 / 2 := by
    rw [← Int.self_sub_floor, floor]
    norm_num
  have odd : ¬ Even (-2 ^ 31 - 1 : ℤ) := by decide
  have rounded : RoundingMode.nearestEven.toInteger (-2 ^ 31 - 1 / 2 : ℚ) = -2 ^ 31 := by
    rw [RoundingMode.toInteger, fraction, floor, if_neg odd]
    norm_num
  obtain ⟨integer, -, value, -, flags, roundTrip⟩ :=
    toInt_roundToIntegral known {} finite .nearestEven (show 1 ≤ 32 by decide)
  rw [number, rounded, fraction] at integer
  rw [number, rounded] at value
  rw [number, fraction] at flags
  obtain ⟨none, back⟩ := roundTrip (by simp) (-2 ^ 63) le_rfl (by norm_num)
  refine ⟨known, finite, by decide, ?_, ?_, ?_, none, back⟩
  · rw [integer]
    norm_num [Flags.when]
  · rw [value]
    norm_num
  · rw [flags]
    norm_num [Flags.when]

end Fp

end M68k
