import M68k.Proofs.Fp.DenotedNumber

/-!
# Remainders are exact

What a division to an integer leaves is a multiple of the unit of one of the operands, by no more
than that operand is, so that the format has it: nothing is rounded in any mode, and no flag is
raised.  Quotient and remainder are those of the numbers, however they are encoded.

* `divideToInteger_rest_le` — the rest is no more than an operand;
* `toInteger_quotient` — the quotient found is that of the numbers;
* `remainder_exact` — remainders to a nearest and to a truncated quotient.
-/

namespace M68k

variable {f : Format}

/-- The mode in which the quotient of a remainder becomes an integer. -/
def RoundingMode.ofQuotient (nearest : Bool) : RoundingMode :=
  if nearest then .nearestEven else .toZero

namespace RoundingMode

/-- Neither mode looks at the sign of the quotient. -/
theorem round_ofQuotient (nearest negative : Bool) (parts : ℕ × Remnant) :
    (ofQuotient nearest).round negative parts =
      if nearest then nearestEven.round false parts else parts.1 := by
  obtain ⟨units, remnant⟩ := parts
  cases nearest <;> cases remnant <;> rfl

/-- A quotient is not rounded up for less than half of the divisor. -/
theorem le_two_mul_of_roundsUp {units rest divisor : ℕ}
    (up : nearestEven.roundsUp false units (.ofRemainder rest divisor) = true) :
    divisor ≤ 2 * rest := by
  unfold Remnant.ofRemainder at up
  split_ifs at up with zero low half
  · simp [roundsUp] at up
  · simp [roundsUp, awayFromZero] at up
  · exact half.ge
  · omega

end RoundingMode

namespace Fp

/-- What is left is a multiple of the unit of an operand, by no more than the operand is. -/
theorem divideToInteger_rest_le (nearest : Bool) (a : ℕ) (p : ℤ) {b : ℕ} (positive : 0 < b)
    (q : ℤ) :
    let rest := (divideToInteger nearest a p b q).2
    (rest.2 = p ∧ rest.1.natAbs ≤ a) ∨ (rest.2 = q ∧ rest.1.natAbs ≤ b) := by
  have division (n : ℕ) {d : ℕ} (nonzero : 0 < d) :
      n % d ≤ n ∧ n % d < d := ⟨Nat.mod_le n d, Nat.mod_lt n nonzero⟩
  unfold divideToInteger
  dsimp only
  obtain ⟨below, small⟩ := division (a <<< (p - min p q).toNat) (d := b <<< (q - min p q).toNat)
    (by rw [Nat.shiftLeft_eq]; exact Nat.mul_pos positive (Nat.two_pow_pos _))
  have aligned : min p q = p ∧ a <<< (p - min p q).toNat = a ∨
      min p q = q ∧ b <<< (q - min p q).toNat = b := by
    rcases le_total p q with h | h
    · exact .inl ⟨min_eq_left h, by simp [min_eq_left h]⟩
    · exact .inr ⟨min_eq_right h, by simp [min_eq_right h]⟩
  generalize a <<< (p - min p q).toNat = n at below small aligned ⊢
  generalize b <<< (q - min p q).toNat = d at below small aligned ⊢
  split
  · next up =>
    have half := RoundingMode.le_two_mul_of_roundsUp (Bool.and_eq_true_iff.mp up).2
    dsimp only
    omega
  · dsimp only
    omega

/-- A quotient has the sign of its operands together. -/
theorem value_div_value {K : Type*} [Field K] [LinearOrder K] [IsStrictOrderedRing K] (a b : Fp f) :
    a.value K / b.value K = withSign (a.sign ^^ b.sign)
      ((a.coefficient : K) * 2 ^ a.unitExponent / (b.coefficient * 2 ^ b.unitExponent)) := by
  rw [value_eq_withSign, value_eq_withSign]
  cases a.sign <;> cases b.sign <;> simp [neg_div, div_neg]

section

variable (nearest : Bool) {a b : Fp f} (hb : b.kind = .finite)
include hb

/-- The quotient found is that of the numbers, and the rest belongs to it. -/
theorem toInteger_quotient :
    let found := divideToInteger nearest a.coefficient a.unitExponent b.coefficient b.unitExponent
    let n := (RoundingMode.ofQuotient nearest).toInteger (a.value ℚ / b.value ℚ)
    n.natAbs = found.1 ∧
      ((if a.sign then -found.2.1 else found.2.1 : ℤ) : ℚ) * 2 ^ found.2.2 =
        a.value ℚ - n * b.value ℚ := by
  intro found n
  obtain ⟨parts, splits, quotient, rest⟩ :=
    divideToInteger_spec nearest a.coefficient a.unitExponent (coefficient_pos hb) b.unitExponent
  have signed : (n : ℚ) = withSign (a.sign ^^ b.sign) (found.1 : ℚ) := by
    simp only [n, value_div_value]
    rw [RoundingMode.toInteger_withSign _ _ splits, RoundingMode.round_ofQuotient, ← quotient]
  constructor
  · have size : |(n : ℚ)| = found.1 := by rw [signed, abs_withSign, Nat.abs_cast]
    rw [← Int.cast_abs, Int.abs_eq_natAbs, Int.cast_natCast] at size
    exact_mod_cast size
  · have taken : ((if a.sign then -found.2.1 else found.2.1 : ℤ) : ℚ) * 2 ^ found.2.2 =
        withSign a.sign ((found.2.1 : ℚ) * 2 ^ found.2.2) := by
      cases a.sign <;> simp
    rw [taken, signed, rest, value_eq_withSign a, value_eq_withSign b]
    cases a.sign <;> cases b.sign <;> simp [found] <;> ring

/-- The remainder of two numbers is the rest, encoded with the sign of the first. -/
theorem remainder_of_finite (env : Environment) (ha : a.kind = .finite) :
    let found := divideToInteger nearest a.coefficient a.unitExponent b.coefficient b.unitExponent
    remainder env nearest a b = (do
      return ⟨← encodeDyadic f env f.precision a.sign
          (if a.sign then -found.2.1 else found.2.1) found.2.2,
        BitVec.ofNat 64 found.1, a.sign ^^ b.sign⟩) := by
  simp only [remainder, ha, hb]

/-- The format has the rest. -/
theorem represents_rest (regular : f.Regular) (ha : a.IsFinite) :
    let rest :=
      (divideToInteger nearest a.coefficient a.unitExponent b.coefficient b.unitExponent).2
    f.Represents (((if a.sign then -rest.1 else rest.1 : ℤ) : ℚ) * 2 ^ rest.2) := by
  intro rest
  have size : (if a.sign then -rest.1 else rest.1).natAbs = rest.1.natAbs := by
    split_ifs <;> omega
  obtain ⟨unit, small⟩ | ⟨unit, small⟩ := divideToInteger_rest_le nearest a.coefficient
    a.unitExponent (coefficient_pos hb) b.unitExponent
  · rw [show rest.2 = _ from unit]
    exact represents_of_natAbs_le regular ha (size.trans_le small)
  · rw [show rest.2 = _ from unit]
    exact represents_of_natAbs_le regular (isFinite_of_kind (.inr hb)) (size.trans_le small)

end

/-- **Remainders are exact.**  Of two numbers other than zero, in whatever encodings, the remainder
is the first less a whole multiple of the second, with no flag and in every environment; a zero has
the sign of the first.  The multiple is the quotient of the numbers, rounded to the nearest integer
with ties to even or truncated, and is reported modulo `2 ^ 64` with the sign of the quotient. -/
theorem remainder_exact (hf : f ∈ [binary32, binary64, extended80, binary128]) (env : Environment)
    (nearest : Bool) {a b : Fp f} (ha : a.kind = .finite) (hb : b.kind = .finite) :
    let quotient := a.value ℚ / b.value ℚ
    let n := (RoundingMode.ofQuotient nearest).toInteger quotient
    let found := remainder env nearest a b
    found.flags = Flags.none ∧ found.value.value.IsFinite ∧
      found.value.value.value ℚ = a.value ℚ - n * b.value ℚ ∧
      (found.value.value.value ℚ = 0 → found.value.value.sign = a.sign) ∧
      found.value.quotient = BitVec.ofNat 64 n.natAbs ∧
      (found.value.negative = true ↔ quotient < 0) ∧
      (nearest = true → rem env a b = ⟨found.value.value, Flags.none⟩) := by
  intro quotient n found
  have regular := Format.regular_of_mem hf
  obtain ⟨units, rest⟩ := toInteger_quotient (a := a) nearest hb
  have represents := represents_rest nearest hb regular (isFinite_of_kind (.inr ha))
  have result : found = _ := remainder_of_finite nearest hb env ha
  dsimp only at units rest represents result
  generalize divideToInteger nearest a.coefficient a.unitExponent b.coefficient b.unitExponent =
    division at units rest represents result
  obtain ⟨whole, left, exponent⟩ := division
  dsimp only at units rest represents result
  have rounded := encodeDyadic_isRounded (K := ℚ) regular regular.precision_pos le_rfl env a.sign
    (if a.sign then -left else left) exponent
  obtain ⟨flags, finite, value⟩ := rounded.exact regular.precision_pos represents
  have noFlag : found.flags = Flags.none := by
    rw [result, Raised.bind_flags, flags]
    exact BitVec.or_zero
  have negative : found.value.negative = true ↔ quotient < 0 := by
    have positive : (0 : ℚ) < a.coefficient * 2 ^ a.unitExponent /
        (b.coefficient * 2 ^ b.unitExponent) :=
      div_pos (denotes_magnitude ha).pos (denotes_magnitude hb).pos
    simp only [found, quotient, remainder_negative, value_div_value]
    cases a.sign ^^ b.sign <;> simp [positive, positive.le]
  have nearestOnly (h : nearest = true) : rem env a b = ⟨found.value.value, Flags.none⟩ := by
    rw [← noFlag]
    subst h
    exact congrArg (Raised.mk found.value.value) BitVec.or_zero
  refine ⟨noFlag, ?_, ?_, ?_, ?_, negative, nearestOnly⟩
  all_goals rw [result]
  · exact finite
  · exact value.trans rest
  · intro zero
    exact rounded.sign.trans (if_pos (value.symm.trans zero))
  · rw [show n.natAbs = whole from units]
    rfl

/-- Minus seven and minus six, both as unnormals, by two: the nearest quotient of the first is a
tie, and nothing is left of the second. -/
theorem remainder_exact_tie :
    let two : Extended := ⟨false, 0x4000, 0x8000000000000000⟩
    let seven : Extended := ⟨true, 0x4002, 0x7000000000000000⟩
    let six : Extended := ⟨true, 0x4002, 0x6000000000000000⟩
    extended80 ∈ [binary32, binary64, extended80, binary128] ∧ two.kind = .finite ∧
      seven.kind = .finite ∧ six.kind = .finite ∧
      (remainder {} true seven two).flags = Flags.none ∧
      (remainder {} true seven two).value.value.value ℚ = 1 ∧
      (remainder {} true seven two).value.quotient = 4 ∧
      (remainder {} true seven two).value.negative = true ∧
      rem {} seven two = ⟨(remainder {} true seven two).value.value, Flags.none⟩ ∧
      (remainder {} false six two).flags = Flags.none ∧
      (remainder {} false six two).value.value.value ℚ = 0 ∧
      (remainder {} false six two).value.value.sign = true ∧
      (remainder {} false six two).value.quotient = 3 := by
  intro two seven six
  have known : extended80 ∈ [binary32, binary64, extended80, binary128] := by simp
  have h2 : two.kind = .finite := by decide
  have h7 : seven.kind = .finite := by decide
  have h6 : six.kind = .finite := by decide
  have number (x : Extended) (c e : ℤ) (coefficient : x.signedCoefficient = c)
      (unit : x.unitExponent = e) : x.value ℚ = c * 2 ^ e := by
    rw [value, coefficient, unit]
  have v2 : two.value ℚ = 2 := by
    rw [number two (2 ^ 63) (-62) (by decide) (by decide)]
    norm_num
  have v7 : seven.value ℚ = -7 := by
    rw [number seven (-7 * 2 ^ 60) (-60) (by decide) (by decide)]
    norm_num
  have v6 : six.value ℚ = -6 := by
    rw [number six (-6 * 2 ^ 60) (-60) (by decide) (by decide)]
    norm_num
  have tie : (RoundingMode.ofQuotient true).toInteger (-7 / 2 : ℚ) = -4 := by
    have floor : ⌊(-7 / 2 : ℚ)⌋ = -4 := by rw [Int.floor_eq_iff]; norm_num
    have half : Int.fract (-7 / 2 : ℚ) = 1 / 2 := by rw [← Int.self_sub_floor, floor]; norm_num
    have even : Even (-4 : ℤ) := by decide
    rw [RoundingMode.ofQuotient, if_pos rfl, RoundingMode.toInteger, half, floor, if_pos even]
    norm_num
  have whole : (RoundingMode.ofQuotient false).toInteger (-6 / 2 : ℚ) = -3 := by
    rw [show (-6 / 2 : ℚ) = (-3 : ℤ) by norm_num, RoundingMode.toInteger_intCast]
  obtain ⟨flags, -, value, -, quotient, negative, nearestOnly⟩ :=
    remainder_exact known {} true h7 h2
  obtain ⟨flags', -, value', sign', quotient', -⟩ := remainder_exact known {} false h6 h2
  rw [v7, v2, tie] at value quotient
  rw [v6, v2, whole] at value' quotient'
  rw [v7, v2] at negative
  have rest : (-7 : ℚ) - (-4 : ℤ) * 2 = 1 := by norm_num
  have nothing : (-6 : ℚ) - (-3 : ℤ) * 2 = 0 := by norm_num
  rw [rest] at value
  rw [nothing] at value'
  have negative := negative.mpr (by norm_num : (-7 : ℚ) / 2 < 0)
  exact ⟨known, h2, h7, h6, flags, value, quotient, negative, nearestOnly rfl,
    flags', value', sign' value', quotient'⟩

end Fp

end M68k
