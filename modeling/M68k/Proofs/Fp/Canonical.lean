import M68k.Proofs.Fp.RoundedEncoding

/-!
# Canonical encodings

Where the integer bit is stored, one number has several encodings.  The canonical one has the bit
clear just under the exponent zero, as the formats without a stored bit have it by themselves.  A
canonical encoding is determined by its sign and its number, and every encoding that rounding
assembles is canonical, so that a rounded number is known bit by bit.

* `eq_of_value_eq` — canonical encodings of one number with one sign are the same;
* `encode_canonical` — rounding assembles canonical encodings;
* `encode_of_represents` — a number that the format has is encoded as it is, with no flag.
-/

namespace M68k

variable {K : Type*} [Field K] [LinearOrder K] [IsStrictOrderedRing K] {f g : Format}

namespace Fp

/-- Whether a stored integer bit is clear just under the exponent zero. -/
def Canonical (x : Fp f) : Prop :=
  f.explicitInteger = true → (x.significand.getLsbD f.fractionBits = false ↔ x.exponent = 0)

instance (x : Fp f) : Decidable x.Canonical := inferInstanceAs (Decidable (_ → _))

theorem double_fraction (hp : 1 ≤ f.precision) : 2 ^ f.precision = 2 * 2 ^ f.fractionBits := by
  rw [← pow_succ']
  congr 1
  simp only [Format.fractionBits]
  omega

/-- What is stored of a significand. -/
theorem significand_lt (x : Fp f) :
    x.significand.toNat < 2 ^ (if f.explicitInteger then f.precision else f.fractionBits) :=
  x.significand.isLt

theorem coefficient_lt (hp : 1 ≤ f.precision) (x : Fp f) : x.coefficient < 2 ^ f.precision := by
  have double := double_fraction hp
  have bound := x.significand_lt
  unfold coefficient
  cases explicit : f.explicitInteger with
  | true => simpa [explicit] using bound
  | false =>
    simp only [explicit, Bool.false_eq_true, if_false, false_or, Nat.pow_eq] at bound ⊢
    split <;> omega

/-- An encoding is canonical if its significand is short just under the exponent zero. -/
theorem canonical_iff (hp : 1 ≤ f.precision) (x : Fp f) :
    x.Canonical ↔ (x.coefficient < 2 ^ f.fractionBits ↔ x.exponent = 0) := by
  have double := double_fraction hp
  have bound := x.coefficient_lt hp
  cases explicit : f.explicitInteger with
  | true =>
    have whole : x.coefficient = x.significand.toNat := by simp [coefficient, explicit]
    have bit : x.significand.getLsbD f.fractionBits = false ↔
        x.coefficient < 2 ^ f.fractionBits := by
      have positive : 0 < 2 ^ f.fractionBits := Nat.two_pow_pos _
      have part : x.coefficient / 2 ^ f.fractionBits < 2 :=
        (Nat.div_lt_iff_lt_mul positive).mpr (by omega)
      rw [← BitVec.testBit_toNat, Nat.testBit_eq_decide_div_mod_eq, decide_eq_false_iff_not,
        ← whole,
        ← Nat.div_eq_zero_iff_lt positive]
      generalize x.coefficient / 2 ^ f.fractionBits = top at part
      omega
    rw [Canonical, bit]
    simp only [explicit, true_implies]
  | false =>
    have short := x.significand_lt
    simp only [explicit, Bool.false_eq_true, if_false] at short
    have split : x.coefficient < 2 ^ f.fractionBits ↔ x.exponent = 0 := by
      simp only [coefficient, explicit, Bool.false_eq_true, false_or, Nat.pow_eq]
      split_ifs with zero
      · exact iff_of_true short zero
      · exact iff_of_false (by omega) zero
    simp only [Canonical, explicit, Bool.false_eq_true, false_implies, split]

/-- Whole significands in place are canonical. -/
theorem canonical_ofFields (sign : Bool) {e c : ℕ} (hp : 1 ≤ f.precision)
    (he : e < 2 ^ f.exponentBits) (hc : c < 2 ^ f.precision)
    (normal : if e = 0 then c < 2 ^ f.fractionBits else 2 ^ f.fractionBits ≤ c) :
    (ofFields f sign e c).Canonical := by
  obtain ⟨exponent, coefficient⟩ := coefficient_ofFields sign hp he hc normal
  rw [canonical_iff hp, coefficient, ← BitVec.toNat_inj, exponent]
  split_ifs at normal with zero
  · exact iff_of_true normal (by simp [zero])
  · exact iff_of_false (by omega) (by simpa using zero)

theorem fraction_eq_mod (x : Fp f) : x.fraction = x.coefficient % 2 ^ f.fractionBits := by
  rw [fraction, coefficient, Nat.pow_eq]
  split
  · rw [add_zero]
  · exact (Nat.add_mod_right _ _).symm

/-- The integer bit of a canonical encoding is known from the other fields. -/
theorem eq_of_fraction_eq (hp : 1 ≤ f.precision) {x y : Fp f} (hx : x.Canonical) (hy : y.Canonical)
    (sign : x.sign = y.sign) (exponent : x.exponent = y.exponent)
    (fraction : x.fraction = y.fraction) : x = y := by
  have double := double_fraction hp
  have top {z : Fp f} (canonical : z.Canonical) :
      z.coefficient = z.fraction + if z.exponent = 0 then 0 else 2 ^ f.fractionBits := by
    have bound := z.coefficient_lt hp
    rw [canonical_iff hp] at canonical
    rw [fraction_eq_mod]
    split_ifs with zero
    · rw [Nat.mod_eq_of_lt (canonical.mpr zero), add_zero]
    · have full : 2 ^ f.fractionBits ≤ z.coefficient := not_lt.mp (mt canonical.mp zero)
      rw [Nat.mod_eq_sub_mod full, Nat.mod_eq_of_lt (by omega)]
      omega
  have coefficient : x.coefficient = y.coefficient := by rw [top hx, top hy, fraction, exponent]
  obtain ⟨sx, ex, mx⟩ := x
  obtain ⟨sy, ey, my⟩ := y
  obtain rfl : sx = sy := sign
  obtain rfl : ex = ey := exponent
  have significand : mx.toNat = my.toNat := by
    simpa only [Fp.coefficient, add_left_inj] using coefficient
  rw [BitVec.eq_of_toNat_eq significand]

/-- Of two encodings of one magnitude the one with the greater exponent would need the shorter
significand, which a canonical one only has under the exponent zero. -/
theorem unitExponent_le_of_canonical (hp : 1 ≤ f.precision) {a b : Fp f} (canonical : b.Canonical)
    (same : (a.coefficient : K) * 2 ^ a.unitExponent = b.coefficient * 2 ^ b.unitExponent) :
    b.unitExponent ≤ a.unitExponent := by
  have double := double_fraction hp
  have bound := a.coefficient_lt hp
  rw [canonical_iff hp] at canonical
  by_contra above
  obtain ⟨d, hd⟩ := Int.eq_ofNat_of_zero_le (show 0 ≤ b.unitExponent - a.unitExponent - 1 by omega)
  have normal : b.exponent ≠ 0 := by
    intro zero
    simp only [unitExponent, zero, BitVec.ofNat_eq_ofNat, BitVec.toNat_ofNat, Nat.zero_mod] at above
    omega
  have full : 2 ^ f.fractionBits ≤ b.coefficient := not_lt.mp (mt canonical.mp normal)
  have unit : (2 : K) ^ a.unitExponent ≠ 0 := zpow_ne_zero _ two_ne_zero
  have exponent : b.unitExponent = a.unitExponent + ((d + 1 : ℕ) : ℤ) := by
    push_cast
    omega
  rw [exponent, zpow_add₀ two_ne_zero, zpow_natCast, mul_comm ((2 : K) ^ a.unitExponent),
    ← mul_assoc, mul_left_inj' unit] at same
  have whole : a.coefficient = b.coefficient * 2 ^ (d + 1) := by exact_mod_cast same
  have : b.coefficient * 2 ≤ b.coefficient * 2 ^ (d + 1) :=
    Nat.mul_le_mul_left _ (Nat.le_self_pow (by omega) 2)
  omega

/-- The exponents zero and one have the same unit, and are told apart by the integer bit. -/
theorem exponent_eq_of_canonical (hp : 1 ≤ f.precision) {x y : Fp f} (hx : x.Canonical)
    (hy : y.Canonical) (units : x.unitExponent = y.unitExponent)
    (coefficient : x.coefficient = y.coefficient) : x.exponent = y.exponent := by
  rw [canonical_iff hp] at hx hy
  rw [coefficient, hy] at hx
  by_cases zero : x.exponent = 0
  · rw [zero, hx.mpr zero]
  · have positive {e : BitVec f.exponentBits} (nonzero : e ≠ 0) : 1 ≤ e.toNat :=
      Nat.one_le_iff_ne_zero.mpr fun none => nonzero (BitVec.eq_of_toNat_eq (by simpa using none))
    have leastX := positive zero
    have leastY := positive (mt hx.mp zero)
    apply BitVec.eq_of_toNat_eq
    simp only [unitExponent] at units
    omega

/-- **Canonical encodings are determined by what they denote.** -/
theorem eq_of_value_eq (hp : 1 ≤ f.precision) {x y : Fp f} (hx : x.Canonical) (hy : y.Canonical)
    (sign : x.sign = y.sign) (value : x.value K = y.value K) : x = y := by
  rw [value_eq_withSign, value_eq_withSign, sign, withSign_inj] at value
  have units : x.unitExponent = y.unitExponent :=
    le_antisymm (unitExponent_le_of_canonical hp hx value.symm)
      (unitExponent_le_of_canonical hp hy value)
  have unit : (2 : K) ^ y.unitExponent ≠ 0 := zpow_ne_zero _ two_ne_zero
  rw [units, mul_left_inj' unit, Nat.cast_inj] at value
  refine eq_of_fraction_eq hp hx hy sign (exponent_eq_of_canonical hp hx hy units value) ?_
  rw [fraction_eq_mod, fraction_eq_mod, value]

section

variable {p : ℕ} (sign : Bool) {x : Magnitude} {v : K}

theorem canonical_zero (hp : 1 ≤ f.precision) : (zero f sign).Canonical :=
  canonical_ofFields sign hp (Nat.two_pow_pos _) (Nat.two_pow_pos _)
    (by rw [if_pos rfl]; exact Nat.two_pow_pos _)

theorem canonical_infinity (regular : f.Regular) : (infinity f sign).Canonical := by
  have hp := regular.precision_pos
  have exponents := regular.exponentMax_ge
  have double := double_fraction hp
  have positive : 0 < 2 ^ f.fractionBits := Nat.two_pow_pos _
  exact canonical_ofFields sign hp exponentMax_lt (by rw [Nat.pow_eq]; omega)
    (by rw [if_neg (by omega)]; exact le_rfl)

theorem canonical_largest (regular : f.Regular) (hp : 1 ≤ p) (hpf : p ≤ f.precision) :
    (largest f p sign).Canonical := by
  have exponents := regular.exponentMax_ge
  have positive : 0 < 2 ^ (p - 1) := Nat.two_pow_pos _
  have double : 2 ^ p = 2 * 2 ^ (p - 1) := by
    rw [← pow_succ']
    congr 1
    omega
  obtain ⟨short, whole⟩ := whole_shiftLeft (f := f) (e := f.exponentMax - 1) (c := 2 ^ p - 1) hp hpf
    (by omega) (by rw [if_neg (by omega)]; omega)
  exact canonical_ofFields sign (by omega) ((Nat.sub_le _ 1).trans_lt exponentMax_lt) short whole

theorem canonical_overflow (regular : f.Regular) (mode : RoundingMode) (hp : 1 ≤ p)
    (hpf : p ≤ f.precision) : (overflow f mode p sign).value.Canonical := by
  unfold overflow
  cases mode.overflowsToInfinity sign
  · exact canonical_largest sign regular hp hpf
  · exact canonical_infinity sign regular

/-- Rounding assembles canonical encodings. -/
theorem encode_canonical [FloorRing K] (regular : f.Regular) (hp : 1 ≤ p) (hpf : p ≤ f.precision)
    (env : Environment) (h : x.Denotes v) : (encode f env p sign x).value.Canonical := by
  obtain ⟨c, lead, assembly, assembled⟩ := encode_eq sign regular hp env h
  have least : 1 - (f.bias : ℤ) ≤ lead := assembly.lead_ge
  have exponent : (if c < 2 ^ (p - 1) then (0 : ℤ) else lead + f.bias).toNat = 0 ↔
      c < 2 ^ (p - 1) := by
    split_ifs <;> omega
  dsimp only at assembled
  generalize (if c < 2 ^ (p - 1) then (0 : ℤ) else lead + f.bias) = e at assembled exponent
  rw [assembled]
  by_cases large : (f.exponentMax : ℤ) ≤ e
  · rw [if_pos large]
    exact canonical_overflow sign regular env.rounding hp hpf
  · rw [if_neg large]
    obtain ⟨short, whole⟩ := whole_shiftLeft (f := f) (e := e.toNat) hp hpf assembly.coefficient_lt
      (by split_ifs <;> omega)
    have below : e.toNat < f.exponentMax := by
      have := regular.exponentMax_ge
      omega
    exact canonical_ofFields sign (by omega) (below.trans exponentMax_lt) short whole

end

end Fp

/-! ## Numbers that a format has -/

/-- Whether a format has an encoding of a number: enough bits, a unit that is not below the least
one, and no overflow. -/
structure Format.Represents (f : Format) (v : K) : Prop where
  whole : ∃ c u : ℤ, v = (c : K) * 2 ^ u ∧ c.natAbs < 2 ^ f.precision ∧
    Fp.leastLead f - f.fractionBits ≤ u
  small : |v| < 2 ^ ((f.exponentMax : ℤ) - f.bias)

namespace Fp

/-- A format has the numbers that its encodings denote. -/
theorem represents_value (regular : f.Regular) {x : Fp f} (finite : x.IsFinite) :
    f.Represents (x.value K) := by
  have hp := regular.precision_pos
  have exponents := regular.exponentMax_ge
  have bound := x.coefficient_lt hp
  refine ⟨⟨x.signedCoefficient, x.unitExponent, rfl, ?_, ?_⟩, ?_⟩
  · unfold signedCoefficient
    split_ifs <;> omega
  · simp only [leastLead, unitExponent]
    omega
  · have unit : (0 : K) < 2 ^ x.unitExponent := zpow_pos two_pos _
    have top : x.unitExponent + f.precision ≤ (f.exponentMax : ℤ) - f.bias := by
      have field : x.exponent.toNat < 2 ^ f.exponentBits := x.exponent.isLt
      have most : 2 ^ f.exponentBits = f.exponentMax + 1 := by
        have : 0 < 2 ^ f.exponentBits := Nat.two_pow_pos _
        simp only [Format.exponentMax, Nat.pow_eq]
        omega
      unfold IsFinite at finite
      simp only [unitExponent, Format.fractionBits]
      omega
    rw [abs_value]
    calc (x.coefficient : K) * 2 ^ x.unitExponent
        < 2 ^ f.precision * 2 ^ x.unitExponent :=
          mul_lt_mul_of_pos_right (by exact_mod_cast bound) unit
      _ = 2 ^ (x.unitExponent + f.precision) := by
          rw [zpow_add₀ two_ne_zero, zpow_natCast, mul_comm]
      _ ≤ 2 ^ ((f.exponentMax : ℤ) - f.bias) := zpow_le_zpow_right₀ one_le_two top

/-- A format has the smaller multiples of the unit of an encoding, too. -/
theorem represents_of_natAbs_le (regular : f.Regular) {x : Fp f} (finite : x.IsFinite) {c : ℤ}
    (short : c.natAbs ≤ x.coefficient) : f.Represents ((c : K) * 2 ^ x.unitExponent) := by
  have unit : (0 : K) < 2 ^ x.unitExponent := zpow_pos two_pos _
  refine ⟨⟨c, x.unitExponent, rfl, short.trans_lt (x.coefficient_lt regular.precision_pos), ?_⟩, ?_⟩
  · simp only [leastLead, unitExponent]
    omega
  · have below : |(c : K)| ≤ x.coefficient := by
      rw [← Int.cast_abs, Int.abs_eq_natAbs, Int.cast_natCast]
      exact_mod_cast short
    rw [abs_mul, abs_of_pos unit]
    refine (mul_le_mul_of_nonneg_right below unit.le).trans_lt ?_
    rw [← abs_value]
    exact (represents_value regular finite).small

end Fp

namespace Format.Represents

variable [FloorRing K] {v : K} (h : f.Represents v)
include h

/-- The unit to which it would be rounded is no coarser than its own. -/
theorem exists_multiple (hp : 1 ≤ f.precision) {q : ℤ}
    (fine : q ≤ max (RoundingMode.unitExponent f.precision v)
      (Fp.leastLead f - (f.precision - 1 : ℕ))) :
    ∃ n : ℤ, v = n * 2 ^ q := by
  obtain ⟨c, u, rfl, bound, least⟩ := h.whole
  by_cases zero : c = 0
  · exact ⟨0, by simp [zero]⟩
  have unit : (0 : K) < 2 ^ u := zpow_pos two_pos u
  have nonzero : (c : K) * 2 ^ u ≠ 0 := mul_ne_zero (by exact_mod_cast zero) unit.ne'
  have below : |(c : K) * 2 ^ u| < 2 ^ (u + f.precision) := by
    have size : |(c : K)| < 2 ^ f.precision := by
      rw [← Int.cast_abs, Int.abs_eq_natAbs, Int.cast_natCast]
      exact_mod_cast bound
    rw [abs_mul, abs_of_pos unit, zpow_add₀ two_ne_zero, zpow_natCast, mul_comm ((2 : K) ^ u)]
    exact mul_lt_mul_of_pos_right size unit
  have lead : Int.log 2 |(c : K) * 2 ^ u| < u + f.precision :=
    (Int.lt_zpow_iff_log_lt one_lt_two (abs_pos.mpr nonzero)).mp (by exact_mod_cast below)
  have coarse : q ≤ u := by
    simp only [RoundingMode.unitExponent, Format.fractionBits] at fine least
    omega
  obtain ⟨d, hd⟩ := Int.eq_ofNat_of_zero_le (show 0 ≤ u - q by omega)
  refine ⟨c * 2 ^ d, ?_⟩
  rw [show u = q + (d : ℤ) by omega, zpow_add₀ two_ne_zero, zpow_natCast]
  push_cast
  ring

/-- It is rounded to itself, with the unit bounded or not. -/
theorem rounded_eq (hp : 1 ≤ f.precision) (mode : RoundingMode) :
    mode.unbounded f.precision v = v ∧
      mode.bounded f.precision (Fp.leastLead f - (f.precision - 1 : ℕ)) v = v := by
  constructor
  · exact (mode.toUnit_eq_self_iff _ v).mpr (h.exists_multiple hp (le_max_left _ _))
  · exact (mode.toUnit_eq_self_iff _ v).mpr (h.exists_multiple hp le_rfl)

theorem not_overflows (hp : 1 ≤ f.precision) (mode : RoundingMode) :
    ¬ Overflows f mode f.precision v := by
  rw [Overflows, (h.rounded_eq hp mode).1, not_le]
  exact h.small

end Format.Represents

/-- No flag is left when it is none of the three that rounding raises. -/
theorem Flags.eq_none {flags : Flags} (inexact : ¬ flags.includes Flags.inexact)
    (overflow : ¬ flags.includes Flags.overflow) (underflow : ¬ flags.includes Flags.underflow)
    (other : flags &&& ~~~(Flags.inexact ||| Flags.overflow ||| Flags.underflow) = Flags.none) :
    flags = Flags.none := by
  revert flags
  decide

/-- A number that the format has is rounded to itself, and no flag is raised. -/
theorem IsRounded.exact [FloorRing K] (hp : 1 ≤ f.precision) {env : Environment} {zeroSign : Bool}
    {v : K} {r : Raised (Fp f)} (rounded : IsRounded env f.precision zeroSign v r)
    (represents : f.Represents v) :
    r.flags = Flags.none ∧ r.value.IsFinite ∧ r.value.value K = v := by
  have fits := represents.not_overflows hp env.rounding
  obtain ⟨finite, value⟩ := rounded.rounded fits
  rw [← Fp.leastLead, (represents.rounded_eq hp env.rounding).2] at value
  have exact : ¬ ¬ (r.value.IsFinite ∧ r.value.value K = v) := not_not_intro ⟨finite, value⟩
  exact ⟨Flags.eq_none (mt rounded.inexact_iff.mp exact) (mt rounded.overflow_iff.mp fits)
    (mt rounded.underflow_iff.mp fun h => exact h.1) rounded.no_other_flag, finite, value⟩

/-- A number that the format has is encoded as it is, with no flag. -/
theorem Fp.encode_of_represents [FloorRing K] (regular : f.Regular) (env : Environment)
    (sign : Bool) {x : Magnitude} {v : K} (denotes : x.Denotes v)
    (represents : f.Represents (withSign sign v)) :
    let result := encode f env f.precision sign x
    result.flags = Flags.none ∧ result.value.IsFinite ∧ result.value.Canonical ∧
      result.value.sign = sign ∧ result.value.value K = withSign sign v := by
  intro result
  have hp := regular.precision_pos
  have rounded : IsRounded env f.precision false (withSign sign v) result :=
    encode_isRounded sign regular hp le_rfl env false denotes
  obtain ⟨flags, finite, value⟩ := rounded.exact hp represents
  refine ⟨flags, finite, encode_canonical sign regular hp le_rfl env denotes, ?_, value⟩
  have nonzero := (withSign_eq_zero_iff sign).not.mpr denotes.pos.ne'
  rw [rounded.sign, if_neg nonzero, decide_withSign_neg sign denotes.pos]

end M68k
