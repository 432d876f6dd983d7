import M68k.Proofs.Fp.DenotedNumber

/-!
# Square roots round correctly

The root of a number has half its exponent, so that it is well inside the normal range: it is
rounded with all its bits, and `inexact` is the only flag.  The root need not be there as a whole
for that.  Its whole part and a sticky bit for the rest are enough in every mode, if they are two
bits more than are kept.

* `IsRounded.inside` — rounding well inside the normal range;
* `jammed_stickyRoot` — whole part and sticky bit of a root;
* `sqrt_rounds` — square roots.
-/

namespace M68k

variable {f : Format}

/-- Flags among which none but `inexact` can be. -/
theorem Flags.eq_when_inexact {flags : Flags} (overflow : ¬ flags.includes Flags.overflow)
    (underflow : ¬ flags.includes Flags.underflow)
    (other : flags &&& ~~~(Flags.inexact ||| Flags.overflow ||| Flags.underflow) = Flags.none) :
    flags = Flags.when (flags.includes Flags.inexact) Flags.inexact := by
  revert flags
  decide

section Inside

variable {K : Type*} [Field K] [LinearOrder K] [IsStrictOrderedRing K] [FloorRing K]
  {env : Environment} {p : ℕ} {zeroSign : Bool} {x : K} {r : Raised (Fp f)}

/-- A number well inside the normal range keeps all bits that are asked for, and nothing but being
inexact is reported. -/
theorem IsRounded.inside (hp : 1 ≤ p) (rounded : IsRounded env p zeroSign x r)
    (low : 2 ^ Fp.leastLead f ≤ |x|) (high : |x| < 2 ^ ((f.exponentMax : ℤ) - f.bias - 1)) :
    r.value.IsFinite ∧ r.value.value K = env.rounding.unbounded p x ∧
      r.flags = if r.value.value K = x then Flags.none else Flags.inexact := by
  have fits : ¬ Overflows f env.rounding p x := by
    rw [Overflows, not_le]
    refine (env.rounding.abs_unbounded_le hp high).trans_lt ?_
    exact (zpow_lt_zpow_iff_right₀ one_lt_two).mpr (by omega)
  have large : ¬ Tiny f env p x := by
    unfold Tiny
    cases env.tininess with
    | beforeRounding => exact not_lt.mpr low
    | afterRounding => exact not_lt.mpr (env.rounding.le_abs_unbounded hp low)
  have lead : Fp.leastLead f ≤ Int.log 2 |x| :=
    (Int.zpow_le_iff_le_log one_lt_two ((zpow_pos two_pos _).trans_le low)).mp
      (by exact_mod_cast low)
  have unit : Fp.leastLead f - (p - 1 : ℕ) ≤ RoundingMode.unitExponent p x := by
    rw [RoundingMode.unitExponent]
    omega
  obtain ⟨finite, value⟩ := rounded.rounded fits
  rw [RoundingMode.bounded, ← Fp.leastLead, max_eq_left unit] at value
  have flags := Flags.eq_when_inexact (mt rounded.overflow_iff.mp fits)
    (mt rounded.underflow_iff.mp fun tiny => large tiny.2) rounded.no_other_flag
  refine ⟨finite, value, flags.trans ?_⟩
  have inexact := rounded.inexact_iff
  rw [and_iff_right finite] at inexact
  split_ifs with exact
  · rw [Bool.eq_false_iff.mpr (mt inexact.mp (not_not_intro exact))]
    rfl
  · rw [inexact.mpr exact]
    rfl

end Inside

namespace Fp

/-! ## Leading bits of a root -/

/-- The whole part of a root, found digit by digit, with a sticky bit for the rest. -/
def stickyRoot (radicand : ℕ) : ℕ :=
  2 * sqrtFloor radicand + if sqrtFloor radicand * sqrtFloor radicand = radicand then 0 else 1

theorem jammed_stickyRoot (radicand : ℕ) : Jammed (stickyRoot radicand) (2 * √(radicand : ℝ)) := by
  have low := sqrtFloor_sq_le radicand
  have high := lt_succ_sqrtFloor_sq radicand
  unfold stickyRoot
  generalize sqrtFloor radicand = s at low high ⊢
  split_ifs with exact
  · left
    rw [← exact, Nat.cast_mul, Real.sqrt_mul_self (Nat.cast_nonneg s)]
    push_cast
    ring
  · right
    have low : (s : ℝ) < √radicand := by
      have : s * s < radicand := by omega
      refine (Real.lt_sqrt (Nat.cast_nonneg s)).mpr ?_
      rw [sq]
      exact_mod_cast this
    have high : √(radicand : ℝ) < s + 1 := by
      refine (Real.sqrt_lt' (by positivity)).mpr ?_
      rw [sq]
      exact_mod_cast high
    refine ⟨by omega, abs_lt.mpr ?_⟩
    push_cast
    constructor <;> linarith

/-- A radicand of so many digits in base four has a root of as many bits. -/
theorem two_pow_le_stickyRoot {radicand p : ℕ} (long : 4 ^ p ≤ radicand) :
    2 ^ (p + 1) ≤ stickyRoot radicand := by
  have whole : 2 ^ p ≤ sqrtFloor radicand := by
    by_contra short
    have next : (sqrtFloor radicand + 1) * (sqrtFloor radicand + 1) ≤ 2 ^ p * 2 ^ p :=
      Nat.mul_self_le_mul_self (by omega)
    rw [← Nat.mul_pow] at next
    exact absurd (lt_succ_sqrtFloor_sq radicand) (not_lt.mpr (next.trans long))
  unfold stickyRoot
  rw [pow_succ]
  omega

/-- **Whole part and sticky bit are enough.**  However a number is written as a radicand times a
power of four, its root is encoded from the leading bits of it. -/
theorem encode_stickyRoot {p : ℕ} (hp : 1 ≤ p) (env : Environment) {c : ℕ} {u : ℤ}
    (positive : 0 < c) {radicand : ℕ} {e : ℤ} (written : (radicand : ℝ) * 4 ^ e = c * 2 ^ u)
    (long : 4 ^ p ≤ radicand) :
    encode f env p false (.dyadic (stickyRoot radicand) (e - 1)) =
      encode f env p false (rootMagnitude c u) := by
  have root : √((c : ℝ) * 2 ^ u) = 2 * √(radicand : ℝ) * 2 ^ (e - 1) := by
    have even : (4 : ℝ) ^ e = (2 ^ e) ^ 2 := by
      rw [← zpow_natCast, ← zpow_mul, mul_comm, zpow_mul]
      norm_num
    rw [← written, even, Real.sqrt_mul (Nat.cast_nonneg radicand),
      Real.sqrt_sq (zpow_pos two_pos e).le, zpow_sub_one₀ two_ne_zero]
    ring
  have denotes := denotes_rootMagnitude positive u
  rw [root] at denotes
  exact encode_jammed hp env false denotes (jammed_stickyRoot radicand) (two_pow_le_stickyRoot long)

/-! ## Roots of numbers -/

section

variable (hf : f ∈ [binary32, binary64, extended80, binary128])
include hf

/-- The root of a number of a format is well inside its normal range. -/
theorem root_inside {a : Fp f} (finite : a.kind = .finite) :
    let v : ℝ := a.coefficient * 2 ^ a.unitExponent
    2 ^ leastLead f ≤ |√v| ∧ |√v| < 2 ^ ((f.exponentMax : ℤ) - f.bias - 1) := by
  intro v
  obtain ⟨short, below, above⟩ := Format.range_of_mem hf
  have least : (2 : ℝ) ^ (leastLead f - f.fractionBits) ≤ v := by
    have one : (1 : ℝ) ≤ a.coefficient := by exact_mod_cast coefficient_pos finite
    have unit : leastLead f - f.fractionBits ≤ a.unitExponent := by
      simp only [leastLead, unitExponent]
      omega
    calc (2 : ℝ) ^ (leastLead f - f.fractionBits) ≤ 2 ^ a.unitExponent :=
          zpow_le_zpow_right₀ one_le_two unit
      _ ≤ v := le_mul_of_one_le_left (zpow_pos two_pos _).le one
  have greatest : v < 2 ^ ((f.exponentMax : ℤ) - f.bias) := by
    have represents := represents_value (K := ℝ) (Format.regular_of_mem hf)
      (isFinite_of_kind (.inr finite))
    rw [show v = |a.value ℝ| from (abs_value a).symm]
    exact represents.small
  have squared (e : ℤ) : ((2 : ℝ) ^ e) ^ 2 = 2 ^ (2 * e) := by
    rw [← zpow_natCast, ← zpow_mul, mul_comm]
    rfl
  rw [abs_of_nonneg (Real.sqrt_nonneg v)]
  constructor
  · rw [Real.le_sqrt' (zpow_pos two_pos _), squared]
    refine (zpow_le_zpow_right₀ one_le_two ?_).trans least
    simp only [leastLead, Format.fractionBits]
    omega
  · rw [Real.sqrt_lt' (zpow_pos two_pos _), squared]
    exact greatest.trans_le (zpow_le_zpow_right₀ one_le_two (by omega))

/-- **Square roots round correctly.**  In every format and environment the root of a positive
number, unnormals and subnormals included, is the real root rounded to the significant bits that
results have there.  It is inexact unless its square is the number, no other flag is raised, and its
whole part with a sticky bit would do in place of the root, however the number is written as a
radicand. -/
theorem sqrt_rounds (env : Environment) {a : Fp f} (finite : a.kind = .finite)
    (positive : a.sign = false) :
    let root := sqrt env a
    ∃ p, SignificantBits env f p ∧
      root.value.IsFinite ∧ root.value.sign = false ∧
      root.value.value ℝ = env.rounding.unbounded p √(a.value ℝ) ∧
      root.flags = (if root.value.value ℝ ^ 2 = a.value ℝ then Flags.none else Flags.inexact) ∧
      ∀ (radicand : ℕ) (e : ℤ), (radicand : ℝ) * 4 ^ e = a.value ℝ → 4 ^ p ≤ radicand →
        encode f env p false (.dyadic (stickyRoot radicand) (e - 1)) = root := by
  intro root
  let p := workingPrecision f env
  obtain ⟨hp, hpf⟩ := workingPrecision_bounds (Format.regular_of_mem hf) env
  have number : a.value ℝ = a.coefficient * 2 ^ a.unitExponent := by
    rw [value_eq_withSign, positive, withSign_false]
  have encoded : root = encode f env p false (rootMagnitude a.coefficient a.unitExponent) := by
    simp [root, p, sqrt, finite, positive]
  have denotes := denotes_rootMagnitude (coefficient_pos finite) a.unitExponent
  obtain ⟨low, high⟩ := root_inside hf finite
  rw [← number] at denotes low high
  have rounded : IsRounded env p false (√(a.value ℝ)) root := by
    rw [encoded]
    exact encode_isRounded false (Format.regular_of_mem hf) hp hpf env false denotes
  obtain ⟨isFinite, value, flags⟩ := rounded.inside hp low high
  have sign : root.value.sign = false := by
    rw [rounded.sign, if_neg denotes.pos.ne', decide_eq_false denotes.pos.not_gt]
  have nonneg : 0 ≤ root.value.value ℝ := by
    rw [value_eq_withSign, sign, withSign_false]
    positivity
  have square : root.value.value ℝ = √(a.value ℝ) ↔ root.value.value ℝ ^ 2 = a.value ℝ := by
    rw [eq_comm, Real.sqrt_eq_iff_eq_sq (Real.sqrt_pos.mp denotes.pos).le nonneg, eq_comm]
  refine ⟨p, significantBits hf env, isFinite, sign, value, by rw [flags]; simp only [square], ?_⟩
  intro radicand e written long
  rw [encoded]
  exact encode_stickyRoot hp env (coefficient_pos finite) (written.trans number) long

end

/-- The root of two, written as an unnormal, rounded up to single precision and to all bits. -/
theorem sqrt_rounds_unnormal :
    let single : Environment := ⟨.up, .beforeRounding, .single⟩
    let extended : Environment := ⟨.up, .beforeRounding, .extended⟩
    let two : Extended := ⟨false, 0x4001, 0x4000000000000000⟩
    extended80 ∈ [binary32, binary64, extended80, binary128] ∧
      two.kind = .finite ∧ two.sign = false ∧
      (sqrt single two).value.value ℝ = RoundingMode.up.unbounded 24 √(2 : ℝ) ∧
      (sqrt single two).flags =
        (if (sqrt single two).value.value ℝ ^ 2 = 2 then Flags.none else Flags.inexact) ∧
      encode extended80 single 24 false (.dyadic (stickyRoot (2 * 4 ^ 60)) (-61)) =
        sqrt single two ∧
      (sqrt extended two).value.value ℝ = RoundingMode.up.unbounded 64 √(2 : ℝ) ∧
      (sqrt extended two).flags =
        (if (sqrt extended two).value.value ℝ ^ 2 = 2 then Flags.none else Flags.inexact) ∧
      encode extended80 extended 64 false (.dyadic (stickyRoot (2 * 4 ^ 64)) (-65)) =
        sqrt extended two := by
  intro single extended two
  have known : extended80 ∈ [binary32, binary64, extended80, binary128] := by simp
  have finite : two.kind = .finite := by decide
  have number : two.value ℝ = 2 := by
    have coefficient : two.coefficient = 2 ^ 62 := by decide
    have unit : two.unitExponent = -61 := by decide
    rw [value_eq_withSign, coefficient, unit]
    norm_num [two]
  obtain ⟨p, bits, -, -, value, flags, sticky⟩ := sqrt_rounds known single finite rfl
  obtain ⟨p', bits', -, -, value', flags', sticky'⟩ := sqrt_rounds known extended finite rfl
  rw [number] at value flags sticky value' flags' sticky'
  have toSingle : p = 24 := by
    cases bits with
    | extendedToSingle => rfl
    | extendedToDouble asked | extended asked => cases asked
  have toExtended : p' = 64 := by
    cases bits' with
    | extended => rfl
    | extendedToSingle asked | extendedToDouble asked => cases asked
  subst toSingle toExtended
  have radicand := sticky (2 * 4 ^ 60) (-60) (by norm_num) (by norm_num)
  have radicand' := sticky' (2 * 4 ^ 64) (-64) (by norm_num) (by norm_num)
  exact ⟨known, finite, rfl, value, flags, radicand, value', flags', radicand'⟩

end Fp

end M68k
