import M68k.Fpu.State
import M68k.Proofs.Fp.IntegerConversion

/-!
# Scaling by powers of two

A number is scaled by adding to its exponent and rounding once.  The addend is an integer that was
cut off from a number of any size, brought into 32 bits and then into the range of `clampScale`; but
where that changes it, the result is out of range already, and so far that rounding no longer sees
how far.

Exponent and significand of a number, taken apart, make the number again.

* `encode_of_large`, `encode_eq_of_small` — rounding far out of range;
* `scale_eq` — scaling by any integer;
* `getMantissa_spec`, `getExponent_spec` — the parts of a number;
* `scaling_exact` — scaling, and scaling the significand by the exponent.
-/

namespace M68k

/-! ## Numbers far out of range -/

section OutOfRange

variable {K : Type*} [Field K] [LinearOrder K] [IsStrictOrderedRing K] [FloorRing K] {f : Format}
  {x y : Magnitude} {v u : K}

/-- Less than half a unit. -/
theorem Magnitude.split_of_lead_lt (h : x.Denotes v) {q : ℤ} (below : x.lead + 1 < q) :
    x.split q = (0, .low) := by
  have unit : (0 : K) < 2 ^ q := zpow_pos two_pos q
  have half : v * 2 < 2 ^ q := by
    have bound : v < 2 ^ (x.lead + 1) := by
      rw [lead_eq_log h]
      exact_mod_cast Int.lt_zpow_succ_log_self one_lt_two v
    have coarse : (2 : K) ^ (x.lead + 1 + 1) ≤ 2 ^ q := zpow_le_zpow_right₀ one_le_two below
    rw [zpow_add_one₀ two_ne_zero] at coarse
    linarith
  refine (splits_split h q).unique ⟨v / 2 ^ q, by simp, div_pos h.pos unit, ?_⟩
  rw [div_lt_iff₀ unit]
  linarith

namespace Fp

variable {p : ℕ} (sign : Bool) (env : Environment)

/-- A number that is too large even before rounding. -/
theorem encode_of_large (regular : f.Regular) (hp : 1 ≤ p) (h : x.Denotes v)
    (large : (f.exponentMax : ℤ) - f.bias ≤ x.lead) :
    encode f env p sign x = overflow f env.rounding p sign := by
  obtain ⟨c, lead, assembly, encoded⟩ := encode_eq sign regular hp env h
  have overflows : Overflows f env.rounding p (withSign sign v) := by
    obtain ⟨lower, -, unbounded⟩ := env.rounding.round_at_lead hp sign h
    have full : (2 : K) ^ (p - 1) ≤ env.rounding.round sign (x.split (x.lead - (p - 1 : ℕ))) := by
      exact_mod_cast lower
    rw [Overflows, unbounded]
    calc (2 : K) ^ ((f.exponentMax : ℤ) - f.bias)
        ≤ 2 ^ x.lead := zpow_le_zpow_right₀ one_le_two large
      _ = 2 ^ (p - 1) * 2 ^ (x.lead - (p - 1 : ℕ)) :=
        (RoundingMode.two_pow_mul_zpow hp x.lead).1.symm
      _ ≤ _ := mul_le_mul_of_nonneg_right full (zpow_pos two_pos _).le
  obtain ⟨full, above⟩ := assembly.overflows_iff.mp overflows
  rw [encoded, if_neg (by omega : ¬ c < 2 ^ (p - 1)), if_pos above]

/-- Numbers below half of the least unit are rounded alike. -/
theorem encode_eq_of_small (hp : 1 ≤ p) (hx : x.Denotes v) (hy : y.Denotes u)
    (small : x.lead + p < leastLead f) (small' : y.lead + p < leastLead f) :
    encode f env p sign x = encode f env p sign y := by
  have tiny {z : Magnitude} (small : z.lead + p < leastLead f) :
      isTiny f env p sign z = true := by
    unfold isTiny
    split
    · exact decide_eq_true (by omega)
    · refine decide_eq_true ?_
      split <;> omega
  have units {z : Magnitude} {w : K} (h : z.Denotes w) (small : z.lead + p < leastLead f) :
      z.split (leastLead f - (p - 1 : ℕ)) = (0, .low) :=
    Magnitude.split_of_lead_lt h (by omega)
  have least {z : Magnitude} (small : z.lead + p < leastLead f) :
      max z.lead (leastLead f) = leastLead f := max_eq_right (by omega)
  simp only [encode, least small, least small', units hx small, units hy small', tiny small,
    tiny small']

end Fp

end OutOfRange

namespace Extended

open Fp

/-! ## Scaling by an integer -/

theorem lead_scaled {x : Extended} (finite : x.kind = .finite) (e : ℤ) :
    (Magnitude.dyadic x.coefficient (x.unitExponent + e)).lead = x.lead + e := by
  rw [Magnitude.lead_eq_log (denotes_scaled finite e),
    Magnitude.log_two_mul_zpow (denotes_magnitude finite).pos, lead_eq_log finite, add_comm]

/-- The exponents of the least and of the largest number. -/
theorem lead_bounds {x : Extended} (finite : x.kind = .finite) :
    -16445 ≤ x.lead ∧ x.lead ≤ 16383 := by
  have positive := coefficient_pos finite
  have short : x.coefficient.log2 < 64 :=
    (Nat.log2_lt positive.ne').mpr (x.coefficient_lt (by decide))
  have field : x.exponent.toNat < 0x8000 := x.exponent.isLt
  have number : x.exponent.toNat ≠ 0x7FFF := isFinite_of_kind (.inr finite)
  have unit : x.unitExponent = (max 1 x.exponent.toNat : ℕ) - 16383 - 63 := rfl
  rw [lead, unit]
  omega

theorem bits_bounds (precision : Precision) : 1 ≤ precision.bits ∧ precision.bits ≤ 64 := by
  cases precision <;> decide

theorem clampScale_cases (n : ℤ) :
    clampScale n = n ∨ clampScale n = scaleLimit ∧ scaleLimit ≤ n ∨
      clampScale n = -scaleLimit ∧ n ≤ -scaleLimit := by
  simp only [clampScale, scaleLimit]
  omega

/-- Scaling is by the whole exponent: what `clampScale` limits is out of range for every number. -/
theorem scale_eq (env : Environment) {x : Extended} (finite : x.kind = .finite) (n : ℤ) :
    scale env x n = encode extended80 env env.precision.bits x.sign
      (.dyadic x.coefficient (x.unitExponent + n)) := by
  obtain ⟨low, high⟩ := lead_bounds finite
  obtain ⟨some, few⟩ := bits_bounds env.precision
  have limit : scaleLimit = 0x10000 := rfl
  have above {e : ℤ} (large : scaleLimit ≤ e) : (extended80.exponentMax : ℤ) - extended80.bias ≤
      (Magnitude.dyadic x.coefficient (x.unitExponent + e)).lead := by
    have most : (extended80.exponentMax : ℤ) - extended80.bias = 16384 := rfl
    rw [lead_scaled finite, most]
    omega
  have below {e : ℤ} (small : e ≤ -scaleLimit) :
      (Magnitude.dyadic x.coefficient (x.unitExponent + e)).lead + env.precision.bits <
        leastLead extended80 := by
    have least : leastLead extended80 = -16382 := rfl
    rw [lead_scaled finite, least]
    omega
  have limited : scale env x n = encode extended80 env env.precision.bits x.sign
      (.dyadic x.coefficient (x.unitExponent + clampScale n)) := by
    simp only [scale, finite]
  rw [limited]
  rcases clampScale_cases n with kept | ⟨clamped, large⟩ | ⟨clamped, small⟩
  · rw [kept]
  · rw [encode_of_large x.sign env Extended.regular some (denotes_scaled finite _)
        (above clamped.ge),
      encode_of_large x.sign env Extended.regular some (denotes_scaled finite n) (above large)]
  · exact encode_eq_of_small x.sign env some (denotes_scaled finite _) (denotes_scaled finite n)
      (below clamped.le) (below small)

/-- Scaling rounds once. -/
theorem scale_isRounded (env : Environment) {x : Extended} (finite : x.kind = .finite) (n : ℤ) :
    IsRounded env env.precision.bits x.sign (x.value ℚ * 2 ^ n) (scale env x n) ∧
      (scale env x n).value.Canonical := by
  obtain ⟨some, few⟩ := bits_bounds env.precision
  have denotes := denotes_scaled finite n
  rw [scale_eq env finite, value_eq_withSign, withSign_mul]
  exact ⟨encode_isRounded x.sign Extended.regular some few env x.sign denotes,
    encode_canonical x.sign Extended.regular some few env denotes⟩

/-! ## Significand and exponent -/

/-- Scaling to a number that the format has is exact at full precision. -/
theorem scale_of_represents {env : Environment} (full : env.precision = .extended) {x : Extended}
    (finite : x.kind = .finite) {n : ℤ}
    (represents : extended80.Represents (x.value ℚ * 2 ^ n)) :
    let r := scale env x n
    r.flags = Flags.none ∧ r.value.IsFinite ∧ r.value.Canonical ∧ r.value.sign = x.sign ∧
      r.value.value ℚ = x.value ℚ * 2 ^ n := by
  have number : x.value ℚ * 2 ^ n =
      withSign x.sign ((x.coefficient : ℚ) * 2 ^ x.unitExponent * 2 ^ n) := by
    rw [value_eq_withSign, withSign_mul]
  rw [number] at represents ⊢
  rw [scale_eq env finite, full]
  exact encode_of_represents Extended.regular env x.sign (denotes_scaled finite n) represents

/-- A number scaled to its leading one lies between one and two. -/
theorem significand_bounds {x : Extended} (finite : x.kind = .finite) :
    1 ≤ |x.value ℚ * 2 ^ (-x.lead)| ∧ |x.value ℚ * 2 ^ (-x.lead)| < 2 := by
  have unit : (0 : ℚ) < 2 ^ x.lead := zpow_pos two_pos _
  have lower := (le_lead_iff finite x.lead).mp le_rfl
  have upper := mt (le_lead_iff finite (x.lead + 1)).mpr (by omega)
  rw [not_le, zpow_add_one₀ two_ne_zero] at upper
  rw [zpow_neg, ← div_eq_mul_inv, abs_div, abs_of_pos unit, le_div_iff₀ unit, div_lt_iff₀ unit]
  exact ⟨by linarith, by linarith⟩

theorem represents_significand {x : Extended} (finite : x.kind = .finite) :
    extended80.Represents (x.value ℚ * 2 ^ (-x.lead)) := by
  have short := x.coefficient_lt (by decide)
  have length : x.coefficient.log2 < 64 := (Nat.log2_lt (coefficient_pos finite).ne').mpr short
  refine ⟨⟨x.signedCoefficient, x.unitExponent - x.lead, ?_, ?_, ?_⟩, ?_⟩
  · rw [value, mul_assoc, ← zpow_add₀ two_ne_zero, sub_eq_add_neg]
  · rw [signedCoefficient]
    split <;> omega
  · have least : leastLead extended80 - extended80.fractionBits = -16445 := rfl
    rw [lead, least]
    omega
  · refine (significand_bounds finite).2.trans_le ?_
    calc (2 : ℚ) = 2 ^ (1 : ℤ) := (zpow_one 2).symm
      _ ≤ _ := zpow_le_zpow_right₀ one_le_two (by decide)

/-- The significand is the number scaled to its leading one. -/
theorem getMantissa_eq (env : Environment) {x : Extended} (finite : x.kind = .finite) :
    getMantissa env x = scale { env with precision := .extended } x (-x.lead) := by
  rw [scale_eq _ finite]
  simp only [getMantissa, finite]
  rfl

/-- Without its exponent the number is one of the format too. -/
theorem getMantissa_spec (env : Environment) {x : Extended} (finite : x.kind = .finite) :
    let r := getMantissa env x
    r.flags = Flags.none ∧ r.value.kind = .finite ∧ r.value.sign = x.sign ∧
      r.value.value ℚ = x.value ℚ * 2 ^ (-x.lead) := by
  intro r
  have full : { env with precision := .extended }.precision = Precision.extended := rfl
  have exact := scale_of_represents full finite (represents_significand finite)
  rw [← getMantissa_eq env finite] at exact
  obtain ⟨flags, isFinite, -, sign, value⟩ := exact
  have nonzero : r.value.coefficient ≠ 0 := by
    intro zero
    have lower := (significand_bounds finite).1
    rw [← value, (value_eq_zero_iff ℚ).mpr zero, abs_zero] at lower
    norm_num at lower
  refine ⟨flags, ?_, sign, value⟩
  rw [kind_of_isFinite isFinite, if_neg nonzero]

/-- The exponent is an integer of the format. -/
theorem getExponent_spec (env : Environment) {x : Extended} (finite : x.kind = .finite) :
    let r := getExponent env x
    r.flags = Flags.none ∧ r.value.IsFinite ∧ r.value.value ℚ = x.lead := by
  obtain ⟨low, high⟩ := lead_bounds finite
  have represents : extended80.Represents ((x.lead : ℤ) : ℚ) := by
    refine represents_intCast (by simp) ?_
    have bits : 2 ^ extended80.fractionBits = 2 ^ 63 := rfl
    omega
  obtain ⟨flags, isFinite, -, value⟩ := ofInt_of_represents Extended.regular env represents
  have exponent : getExponent env x = ofInt extended80 env x.lead := by
    simp only [getExponent, finite]
  rw [exponent]
  exact ⟨flags, isFinite, value⟩

/-- Significand and exponent make the number again, in its canonical encoding. -/
theorem scale_getMantissa (env : Environment) {env' : Environment}
    (full : env'.precision = .extended) {x : Extended} (finite : x.kind = .finite) :
    let r := scale env' (getMantissa env x).value x.lead
    r.flags = Flags.none ∧ r.value.IsFinite ∧ r.value.Canonical ∧ r.value.sign = x.sign ∧
      r.value.value ℚ = x.value ℚ := by
  obtain ⟨-, kind, sign, value⟩ := getMantissa_spec env finite
  have number : (getMantissa env x).value.value ℚ * 2 ^ x.lead = x.value ℚ := by
    rw [value, mul_assoc, ← zpow_add₀ two_ne_zero, neg_add_cancel, zpow_zero, mul_one]
  have exact := scale_of_represents full kind
    (number ▸ represents_value Extended.regular (isFinite_of_kind (.inr finite)))
  rwa [number, sign] at exact

/-! ## Scaling by a number -/

/-- Integers beyond 32 bits are limited like the end of that range on their side. -/
theorem clampScale_toInt {s : Extended} (finite : s.IsFinite) :
    clampScale (s.toInt 32 .toZero).value =
      clampScale (RoundingMode.toZero.toInteger (s.value ℚ)) := by
  have converted := toInt_of_isFinite finite (show 1 ≤ 32 by decide) .toZero
  dsimp only at converted
  have side : s.value ℚ < 0 → RoundingMode.toZero.toInteger (s.value ℚ) ≤ 0 := fun negative =>
    RoundingMode.toInteger_le _ (by exact_mod_cast negative.le)
  have side' : ¬ s.value ℚ < 0 → 0 ≤ RoundingMode.toZero.toInteger (s.value ℚ) := fun positive =>
    RoundingMode.le_toInteger _ (by exact_mod_cast not_lt.mp positive)
  generalize RoundingMode.toZero.toInteger (s.value ℚ) = n at *
  rw [converted]
  simp only [clampScale, scaleLimit]
  split_ifs with inside negative
  · rfl
  · have := side negative
    dsimp only
    omega
  · have := side' negative
    dsimp only
    omega

end Extended

namespace Fpu

open Fp

/-- Scaling by a number is scaling by its integer part. -/
theorem scaleBy_eq (env : Environment) {d s : Extended} (hd : d.kind = .finite)
    (hs : s.IsFinite) :
    scaleBy env d s = Extended.scale env d (RoundingMode.toZero.toInteger (s.value ℚ)) := by
  have numbers : (s.isNaN || d.isNaN) = false := by
    rw [not_isNaN hs, not_isNaN (isFinite_of_kind (.inr hd))]
    rfl
  have finite : s.isInfinity = false := by
    rw [isInfinity, kind_of_isFinite hs]
    split <;> rfl
  simp only [scaleBy, numbers, finite, Bool.false_eq_true, if_false, Extended.scale, hd,
    Extended.clampScale_toInt hs]

/-- What the instruction does. -/
theorem execute_scale (host : HostMath) (fpu : Fpu) {s : Extended} (register : RegisterNumber)
    (hd : (fpu.get register).IsFinite) (hs : s.IsFinite) :
    fpu.execute host ⟨.scale, none⟩ s register =
      fpu.finish false (scaleBy fpu.environment (fpu.get register) s) register := by
  have quiet : (s.isSignaling || (fpu.get register).isSignaling) = false := by
    rw [isSignaling, isSignaling, not_isNaN hs, not_isNaN hd]
    rfl
  rw [← quiet]
  rfl

/-- **Scaling is exact but for one rounding, and takes back what it was taken apart to.**  For every
number and scale, whatever the size of the scale, the result is the number times two to the integer
part of the scale, rounded once with the flags of that rounding.  Of every number, unnormals and
subnormals included, the significand lies between one and two with the number's sign, the exponent
is an integer, and both together give the canonical encoding of the number without a flag. -/
theorem scaling_exact {x : Extended} (finite : x.kind = .finite) (env : Environment) :
    (∀ s : Extended, s.IsFinite →
      let n := RoundingMode.toZero.toInteger (s.value ℚ)
      let scaled := scaleBy env x s
      IsRounded env env.precision.bits x.sign (x.value ℚ * 2 ^ n) scaled ∧
        scaled.value.Canonical ∧
        scaled = encode extended80 env env.precision.bits x.sign
          (.dyadic x.coefficient (x.unitExponent + n)) ∧
        ∀ (host : HostMath) (fpu : Fpu) (register : RegisterNumber),
          fpu.get register = x → fpu.environment = env →
            fpu.execute host ⟨.scale, none⟩ s register = fpu.finish false scaled register) ∧
      let mantissa := Extended.getMantissa env x
      let exponent := Extended.getExponent env x
      (mantissa.flags = Flags.none ∧ mantissa.value.IsFinite ∧ mantissa.value.sign = x.sign ∧
        1 ≤ |mantissa.value.value ℚ| ∧ |mantissa.value.value ℚ| < 2) ∧
      exponent.flags = Flags.none ∧ exponent.value.IsFinite ∧
      ∃ k : ℤ, exponent.value.value ℚ = k ∧
        ∀ env' : Environment, env'.precision = .extended →
          let whole := Extended.scale env' mantissa.value k
          scaleBy env' mantissa.value exponent.value = whole ∧ whole.flags = Flags.none ∧
            whole.value.IsFinite ∧ whole.value.Canonical ∧ whole.value.sign = x.sign ∧
            whole.value.value ℚ = x.value ℚ ∧ (x.Canonical → whole.value = x) := by
  have isFinite : x.IsFinite := isFinite_of_kind (.inr finite)
  refine ⟨fun s hs => ?_, ?_⟩
  · intro n scaled
    have same : scaled = Extended.scale env x n := scaleBy_eq env finite hs
    obtain ⟨rounded, canonical⟩ := Extended.scale_isRounded env finite n
    rw [same]
    refine ⟨rounded, canonical, Extended.scale_eq env finite n, ?_⟩
    rintro host fpu register rfl rfl
    rw [execute_scale host fpu register isFinite hs, ← same]
  · intro mantissa exponent
    obtain ⟨flags, kind, sign, value⟩ := Extended.getMantissa_spec env finite
    obtain ⟨flags', isFinite', value'⟩ := Extended.getExponent_spec env finite
    refine ⟨⟨flags, isFinite_of_kind (.inr kind), sign, ?_⟩, flags', isFinite', x.lead, value', ?_⟩
    · rw [value]
      exact Extended.significand_bounds finite
    · intro env' full whole
      obtain ⟨none, wholeFinite, canonical, sign, number⟩ :=
        Extended.scale_getMantissa env full finite
      have scaled : scaleBy env' mantissa.value exponent.value = whole := by
        rw [scaleBy_eq env' kind isFinite', value', RoundingMode.toInteger_intCast]
      exact ⟨scaled, none, wholeFinite, canonical, sign, number, fun known =>
        eq_of_value_eq Extended.regular.precision_pos canonical known sign number⟩

/-- The least number below zero, scaled by more than 32 bits hold, and taken apart.  Rounded to
single precision, one and a bit in the last place scaled by one is two. -/
theorem scaling_exact_least :
    let x : Extended := ⟨true, 0, 1⟩
    let s : Extended := ⟨false, 0x4027, 0x8000000000000000⟩
    let single : Environment := { precision := .single }
    let y : Extended := ⟨false, 0x3FFF, 0x8000000000000001⟩
    let one : Extended := ⟨false, 0x3FFF, 0x8000000000000000⟩
    x.kind = .finite ∧ s.IsFinite ∧
      IsRounded {} 64 true (x.value ℚ * 2 ^ (2 ^ 40 : ℤ)) (scaleBy {} x s) ∧
      scaleBy {} x s = ⟨infinity extended80 true, Flags.overflow ||| Flags.inexact⟩ ∧
      (∃ k : ℤ, (Extended.getExponent {} x).value.value ℚ = k ∧
        (Extended.scale {} (Extended.getMantissa {} x).value k).value = x) ∧
      y.kind = .finite ∧ one.IsFinite ∧
      IsRounded single 24 false (y.value ℚ * 2 ^ (1 : ℤ)) (scaleBy single y one) ∧
      scaleBy single y one = ⟨⟨false, 0x4000, 0x8000000000000000⟩, Flags.inexact⟩ := by
  intro x s single y one
  have integer {scale : Extended} {n : ℤ} (coefficient unit : ℤ)
      (significand : scale.signedCoefficient = coefficient) (place : scale.unitExponent = unit)
      (number : (coefficient : ℚ) * 2 ^ unit = n) :
      RoundingMode.toZero.toInteger (scale.value ℚ) = n := by
    rw [value, significand, place, number, RoundingMode.toInteger_intCast]
  have finite : x.kind = .finite := by decide
  have finite' : s.IsFinite := by unfold IsFinite; decide
  have large : RoundingMode.toZero.toInteger (s.value ℚ) = 2 ^ 40 :=
    integer (2 ^ 63) (-23) (by decide) (by decide) (by norm_num)
  obtain ⟨scaled, -, -, -, k, exponent, whole⟩ := scaling_exact finite {}
  have rounded := (scaled s finite').1
  rw [large] at rounded
  obtain ⟨-, -, -, -, -, -, same⟩ := whole {} rfl
  have ordinary : y.kind = .finite := by decide
  have unity : one.IsFinite := by unfold IsFinite; decide
  have small : RoundingMode.toZero.toInteger (one.value ℚ) = 1 :=
    integer (2 ^ 63) (-63) (by decide) (by decide) (by norm_num)
  have short := ((scaling_exact ordinary single).1 one unity).1
  rw [small] at short
  exact ⟨finite, finite', rounded, by decide, ⟨k, exponent, same (by decide)⟩, ordinary, unity,
    short, by decide⟩

end Fpu

end M68k
