import M68k.Proofs.Fp.MagnitudeValue

/-!
# Encoding rounds correctly

`IsRounded` says what a number becomes in a format: the value rounded to `p` bits with the unit
never below that of the least normal number, or infinity or the largest number when the value
rounded with an unbounded exponent is too large, and which flags are raised.  `Fp.encode` does this
for every magnitude.

* `value_ofFields` — fields that hold a whole significand are read back;
* `assembled` — a carry out of the kept bits moves the leading one up;
* `encode_isRounded`, `encodeDyadic_isRounded` — encoding rounds correctly.
-/

namespace M68k

variable {K : Type*} [Field K] [LinearOrder K] [IsStrictOrderedRing K] {f : Format}

/-- The formats with room for two normal exponents at least, where no precision that the environment
can ask for exceeds that of the format. -/
structure Format.Regular (f : Format) : Prop where
  precision_pos : 1 ≤ f.precision
  exponentMax_ge : 3 ≤ f.exponentMax
  precision_explicit : f.explicitInteger = true → 64 ≤ f.precision

namespace Fp

/-- Whether the encoding denotes a number. -/
def IsFinite (x : Fp f) : Prop := x.exponent.toNat ≠ f.exponentMax

variable (K) in
/-- The number that a finite encoding denotes. -/
def value (x : Fp f) : K := x.signedCoefficient * 2 ^ x.unitExponent

omit [LinearOrder K] [IsStrictOrderedRing K] in
theorem value_eq_withSign (x : Fp f) :
    x.value K = withSign x.sign ((x.coefficient : K) * 2 ^ x.unitExponent) := by
  unfold value signedCoefficient
  cases x.sign with
  | false => simp
  | true => simp

/-- The magnitude of a finite encoding. -/
theorem abs_value (x : Fp f) : |x.value K| = x.coefficient * 2 ^ x.unitExponent := by
  have unit : (0 : K) < 2 ^ x.unitExponent := zpow_pos two_pos _
  rw [value_eq_withSign, abs_withSign, abs_mul, Nat.abs_cast, abs_of_pos unit]

/-- Fields that hold a whole significand are read back: a short one under the exponent zero, a full
one under another. -/
theorem coefficient_ofFields (sign : Bool) {e c : ℕ} (hp : 1 ≤ f.precision)
    (he : e < 2 ^ f.exponentBits) (hc : c < 2 ^ f.precision)
    (normal : if e = 0 then c < 2 ^ f.fractionBits else 2 ^ f.fractionBits ≤ c) :
    (ofFields f sign e c).exponent.toNat = e ∧ (ofFields f sign e c).coefficient = c := by
  have hexponent : (ofFields f sign e c).exponent.toNat = e := by
    simp [ofFields, Nat.mod_eq_of_lt he]
  refine ⟨hexponent, ?_⟩
  have hzero : (ofFields f sign e c).exponent = 0 ↔ e = 0 := by
    rw [← BitVec.toNat_inj, hexponent]
    simp
  have double : 2 ^ f.precision = 2 * 2 ^ f.fractionBits := by
    rw [← pow_succ']
    congr 1
    simp only [Format.fractionBits]
    omega
  simp only [coefficient, hzero]
  cases hi : f.explicitInteger with
  | true =>
    have hs : f.storedBits = f.precision := by simp [Format.storedBits, hi]
    simp [ofFields, hs, Nat.mod_eq_of_lt hc]
  | false =>
    have hs : f.storedBits = f.fractionBits := by simp [Format.storedBits, hi]
    simp only [ofFields, BitVec.toNat_ofNat, hs, Bool.false_eq_true, false_or]
    by_cases h : e = 0
    · simp only [h, if_true] at normal ⊢
      rw [Nat.mod_eq_of_lt normal]
      rfl
    · simp only [h, if_false] at normal ⊢
      rw [Nat.mod_eq_sub_mod normal, Nat.mod_eq_of_lt (by omega)]
      show c - 2 ^ f.fractionBits + 2 ^ f.fractionBits = c
      omega

theorem exponentMax_lt : f.exponentMax < 2 ^ f.exponentBits := by
  have : 0 < 2 ^ f.exponentBits := Nat.two_pow_pos _
  simp only [Format.exponentMax, Nat.pow_eq]
  omega

/-- A significand of `p` bits is whole at the top of the field as well. -/
theorem whole_shiftLeft {e c p : ℕ} (hp : 1 ≤ p) (hpf : p ≤ f.precision) (hc : c < 2 ^ p)
    (normal : if e = 0 then c < 2 ^ (p - 1) else 2 ^ (p - 1) ≤ c) :
    c <<< (f.precision - p) < 2 ^ f.precision ∧
      if e = 0 then c <<< (f.precision - p) < 2 ^ f.fractionBits
      else 2 ^ f.fractionBits ≤ c <<< (f.precision - p) := by
  have shift : f.fractionBits = (p - 1) + (f.precision - p) := by
    simp only [Format.fractionBits]
    omega
  have full : f.precision = p + (f.precision - p) := by omega
  have positive : 0 < 2 ^ (f.precision - p) := Nat.two_pow_pos _
  constructor
  · rw [Nat.shiftLeft_eq, full, pow_add, ← full]
    exact Nat.mul_lt_mul_of_pos_right hc positive
  · rw [Nat.shiftLeft_eq, shift, pow_add]
    split_ifs at normal ⊢
    · exact Nat.mul_lt_mul_of_pos_right normal positive
    · exact Nat.mul_le_mul_right _ normal

/-- The number that such fields denote, for a significand of `p` bits at the top of the field. -/
theorem value_ofFields (sign : Bool) {e c p : ℕ} (hp : 1 ≤ p) (hpf : p ≤ f.precision)
    (he : e < f.exponentMax) (hc : c < 2 ^ p)
    (normal : if e = 0 then c < 2 ^ (p - 1) else 2 ^ (p - 1) ≤ c) :
    (ofFields f sign e (c <<< (f.precision - p))).IsFinite ∧
      (ofFields f sign e (c <<< (f.precision - p))).value K =
        withSign sign ((c : K) * 2 ^ ((max 1 e : ℕ) - (f.bias : ℤ) - (p - 1 : ℕ))) := by
  have two : (2 : K) ≠ 0 := two_ne_zero
  have shift : f.fractionBits = (p - 1) + (f.precision - p) := by
    simp only [Format.fractionBits]
    omega
  obtain ⟨short, whole⟩ := whole_shiftLeft hp hpf hc normal
  obtain ⟨hexponent, hcoefficient⟩ := coefficient_ofFields (f := f) sign (e := e)
    (c := c <<< (f.precision - p)) (by omega) (he.trans exponentMax_lt) short whole
  refine ⟨by rw [IsFinite, hexponent]; omega, ?_⟩
  rw [value_eq_withSign, hcoefficient, unitExponent, hexponent]
  have hsign : (ofFields f sign e (c <<< (f.precision - p))).sign = sign := rfl
  rw [hsign, withSign_inj, Nat.shiftLeft_eq, shift]
  push_cast
  rw [mul_assoc, ← zpow_natCast, ← zpow_add₀ two]
  congr 2
  omega

end Fp

/-- Whether a mode sends numbers that are too large, of the sign of this one, to infinity. -/
def RoundingMode.ToInfinity (mode : RoundingMode) (x : K) : Prop :=
  match mode with
  | .nearestEven => True
  | .toZero => False
  | .down => x < 0
  | .up => 0 < x

variable [FloorRing K]

/-- Whether the value rounded with an unbounded exponent would need the exponent of infinities. -/
def Overflows (f : Format) (mode : RoundingMode) (p : ℕ) (x : K) : Prop :=
  2 ^ ((f.exponentMax : ℤ) - f.bias) ≤ |mode.unbounded p x|

/-- Whether a number lies below the normal range, judged before or after rounding it to `p` bits
with an unbounded exponent. -/
def Tiny (f : Format) (env : Environment) (p : ℕ) (x : K) : Prop :=
  match env.tininess with
  | .beforeRounding => |x| < 2 ^ (1 - (f.bias : ℤ))
  | .afterRounding => |env.rounding.unbounded p x| < 2 ^ (1 - (f.bias : ℤ))

/-- Whether a result is the number `x` correctly rounded to `p` bits, with the flags that this
raises; an exact zero has the sign `zeroSign`. -/
structure IsRounded (env : Environment) (p : ℕ) (zeroSign : Bool) (x : K) (r : Raised (Fp f)) :
    Prop where
  sign : r.value.sign = if x = 0 then zeroSign else decide (x < 0)
  rounded : ¬ Overflows f env.rounding p x →
    r.value.IsFinite ∧
      r.value.value K = env.rounding.bounded p (1 - (f.bias : ℤ) - (p - 1 : ℕ)) x
  infinite : Overflows f env.rounding p x → env.rounding.ToInfinity x →
    r.value = Fp.infinity f (decide (x < 0))
  largest : Overflows f env.rounding p x → ¬ env.rounding.ToInfinity x →
    r.value.IsFinite ∧
      |r.value.value K| = (2 ^ p - 1) * 2 ^ ((f.exponentMax : ℤ) - f.bias - p)
  inexact_iff : r.flags.includes Flags.inexact ↔ ¬ (r.value.IsFinite ∧ r.value.value K = x)
  overflow_iff : r.flags.includes Flags.overflow ↔ Overflows f env.rounding p x
  underflow_iff : r.flags.includes Flags.underflow ↔
    ¬ (r.value.IsFinite ∧ r.value.value K = x) ∧ Tiny f env p x
  no_other_flag :
    r.flags &&& ~~~(Flags.inexact ||| Flags.overflow ||| Flags.underflow) = Flags.none

/-- Rounding a split magnitude at its own last place is rounding the number with an unbounded
exponent. -/
theorem RoundingMode.round_at_lead (mode : RoundingMode) {p : ℕ} (hp : 1 ≤ p) (sign : Bool)
    {x : Magnitude} {v : K} (h : x.Denotes v) :
    let rounded := mode.round sign (x.split (x.lead - (p - 1 : ℕ)))
    2 ^ (p - 1) ≤ rounded ∧ rounded ≤ 2 ^ p ∧
      |mode.unbounded p (withSign sign v)| = rounded * 2 ^ (x.lead - (p - 1 : ℕ)) := by
  intro rounded
  have nonzero : withSign sign v ≠ 0 := (withSign_eq_zero_iff sign).not.mpr h.pos.ne'
  obtain ⟨n, lower, upper, heq⟩ := mode.exists_abs_unbounded_eq hp nonzero
  have lead : Int.log 2 |withSign sign v| = x.lead := by
    rw [Magnitude.lead_eq_log h, abs_withSign, abs_of_pos h.pos]
  have unit : (0 : K) < 2 ^ (x.lead - (p - 1 : ℕ)) := zpow_pos two_pos _
  have hrounded : |mode.unbounded p (withSign sign v)| = rounded * 2 ^ (x.lead - (p - 1 : ℕ)) := by
    rw [unbounded, unitExponent, lead, toUnit, withSign_div,
      toInteger_withSign mode sign (Magnitude.splits_split h _), withSign_mul, abs_withSign,
      abs_mul, Nat.abs_cast, abs_of_pos unit]
  have : n = rounded := by
    rw [hrounded, lead] at heq
    exact_mod_cast (mul_right_cancel₀ unit.ne' heq).symm
  subst this
  exact ⟨lower, upper, hrounded⟩

namespace Fp

theorem tiny_iff_isTiny (env : Environment) {p : ℕ} (hp : 1 ≤ p) (sign : Bool) {x : Magnitude}
    {v : K} (h : x.Denotes v) :
    isTiny f env p sign x = true ↔ Tiny f env p (withSign sign v) := by
  have lead : x.lead = Int.log 2 |withSign sign v| := by
    rw [Magnitude.lead_eq_log h, abs_withSign, abs_of_pos h.pos]
  have nonzero : withSign sign v ≠ 0 := (withSign_eq_zero_iff sign).not.mpr h.pos.ne'
  unfold isTiny Tiny
  cases env.tininess with
  | beforeRounding =>
    dsimp only
    rw [decide_eq_true_iff, lead, ← leastLead]
    simpa using (Int.lt_zpow_iff_log_lt one_lt_two (abs_pos.mpr nonzero)).symm
  | afterRounding =>
    obtain ⟨lower, upper, heq⟩ := env.rounding.round_at_lead hp sign h
    dsimp only
    rw [decide_eq_true_iff, heq, RoundingMode.carry_lt_iff hp lower upper]
    exact Iff.rfl

/-- The significand and leading exponent that an encoding is built from. -/
structure Assembled (f : Format) (mode : RoundingMode) (p : ℕ) (x : K) (sign : Bool)
    (coefficient : ℕ) (lead : ℤ) : Prop where
  coefficient_lt : coefficient < 2 ^ p
  lead_ge : leastLead f ≤ lead
  lead_of_short : coefficient < 2 ^ (p - 1) → lead = leastLead f
  bounded_eq : mode.bounded p (leastLead f - (p - 1 : ℕ)) x =
    withSign sign ((coefficient : K) * 2 ^ (lead - (p - 1 : ℕ)))
  overflows_iff : Overflows f mode p x ↔
    2 ^ (p - 1) ≤ coefficient ∧ (f.exponentMax : ℤ) ≤ lead + f.bias

section

variable {p : ℕ} (sign : Bool) {x : Magnitude} {v : K}

/-- The unit that `encode` takes is that of the bounded rounding. -/
theorem bounded_eq_round (mode : RoundingMode) (h : x.Denotes v) :
    mode.bounded p (leastLead f - (p - 1 : ℕ)) (withSign sign v) =
      withSign sign
        ((mode.round sign (x.split (max x.lead (leastLead f) - (p - 1 : ℕ))) : K)
          * 2 ^ (max x.lead (leastLead f) - (p - 1 : ℕ))) := by
  have unit : max (RoundingMode.unitExponent p (withSign sign v)) (leastLead f - (p - 1 : ℕ)) =
      max x.lead (leastLead f) - (p - 1 : ℕ) := by
    rw [RoundingMode.unitExponent, abs_withSign, abs_of_pos h.pos, ← Magnitude.lead_eq_log h]
    omega
  rw [RoundingMode.bounded, unit, RoundingMode.toUnit, withSign_div,
    RoundingMode.toInteger_withSign mode sign (Magnitude.splits_split h _), withSign_mul]

/-- Nothing is left beyond the whole units exactly when the rounding leaves the number in place. -/
theorem remnant_eq_zero_iff (mode : RoundingMode) (h : x.Denotes v) :
    (x.split (max x.lead (leastLead f) - (p - 1 : ℕ))).2 = .zero ↔
      mode.bounded p (leastLead f - (p - 1 : ℕ)) (withSign sign v) = withSign sign v := by
  have unit : (2 : K) ^ (max x.lead (leastLead f) - (p - 1 : ℕ)) ≠ 0 :=
    zpow_ne_zero _ two_ne_zero
  rw [bounded_eq_round sign mode h, withSign_inj, ← eq_div_iff unit]
  exact (mode.round_eq_iff sign (Magnitude.splits_split h _)).symm

/-- Below the normal range the rounding reaches the least normal number at most. -/
theorem round_le_of_lead_lt (hp : 1 ≤ p) (mode : RoundingMode) (h : x.Denotes v) {lead : ℤ}
    (small : x.lead < lead) :
    |withSign sign v| < 2 ^ lead ∧
      mode.round sign (x.split (lead - (p - 1 : ℕ))) ≤ 2 ^ (p - 1) := by
  have unit : (0 : K) < 2 ^ (lead - (p - 1 : ℕ)) := zpow_pos two_pos _
  have below : v < 2 ^ lead := by
    rw [Magnitude.lead_eq_log h] at small
    simpa using (Int.lt_zpow_iff_log_lt one_lt_two h.pos).mpr small
  refine ⟨by rwa [abs_withSign, abs_of_pos h.pos], ?_⟩
  have scaled : |withSign sign (v / 2 ^ (lead - (p - 1 : ℕ)))| ≤ ((2 ^ (p - 1) : ℕ) : K) := by
    rw [abs_withSign, abs_of_pos (div_pos h.pos unit), div_le_iff₀ unit]
    push_cast
    rw [(RoundingMode.two_pow_mul_zpow hp lead).1]
    exact below.le
  have bound := mode.natAbs_toInteger_le scaled
  have value := RoundingMode.toInteger_withSign mode sign
    (Magnitude.splits_split h (lead - (p - 1 : ℕ)))
  have : ((mode.toInteger (withSign sign (v / 2 ^ (lead - (p - 1 : ℕ))))).natAbs : K) =
      mode.round sign (x.split (lead - (p - 1 : ℕ))) := by
    rw [Nat.cast_natAbs, Int.cast_abs, value, abs_withSign, Nat.abs_cast]
  have := Nat.cast_injective this
  omega

/-- In the normal range the rounding keeps a full significand or carries out of it; below, it can
only just reach a full one. -/
theorem assembled (regular : f.Regular) (hp : 1 ≤ p) (mode : RoundingMode) (h : x.Denotes v) :
    let lead := max x.lead (leastLead f)
    let rounded := mode.round sign (x.split (lead - (p - 1 : ℕ)))
    if rounded = 2 ^ p then
      Assembled f mode p (withSign sign v) sign (2 ^ (p - 1)) (lead + 1)
    else Assembled f mode p (withSign sign v) sign rounded lead := by
  have bounded := bounded_eq_round (f := f) (p := p) sign mode h
  have exponents := regular.exponentMax_ge
  have double : 2 ^ p = 2 * 2 ^ (p - 1) := by
    rw [← pow_succ']
    congr 1
    omega
  have positive : 0 < 2 ^ (p - 1) := Nat.two_pow_pos _
  generalize hlead : max x.lead (leastLead f) = lead at bounded
  obtain ⟨-, high⟩ := RoundingMode.two_pow_mul_zpow (K := K) hp lead
  obtain ⟨next, -⟩ := RoundingMode.two_pow_mul_zpow (K := K) hp (lead + 1)
  dsimp only
  rcases le_or_gt (leastLead f) x.lead with normal | small
  · -- the unbounded rounding is the same, and overflow is judged on it
    obtain rfl : lead = x.lead := by omega
    obtain ⟨lower, upper, unbounded⟩ := mode.round_at_lead hp sign h
    generalize mode.round sign (x.split (x.lead - (p - 1 : ℕ))) = rounded at *
    have overflows : Overflows f mode p (withSign sign v) ↔
        (f.exponentMax : ℤ) ≤ (if rounded = 2 ^ p then x.lead + 1 else x.lead) + f.bias := by
      rw [Overflows, unbounded, ← not_lt, RoundingMode.carry_lt_iff hp lower upper]
      omega
    split_ifs at overflows ⊢ with carry
    · refine ⟨by omega, by omega, by omega, ?_, overflows.trans (by omega)⟩
      rw [bounded, carry]
      push_cast
      rw [next, high]
    · exact ⟨by omega, by omega, by omega, bounded, overflows.trans (by omega)⟩
  · obtain rfl : lead = leastLead f := by omega
    obtain ⟨below, upper⟩ := round_le_of_lead_lt sign hp mode h small
    rw [if_neg (by omega)]
    refine ⟨by omega, le_rfl, fun _ => rfl, bounded, ?_⟩
    have overflows : ¬ Overflows f mode p (withSign sign v) := by
      rw [Overflows, not_le]
      refine (mode.abs_unbounded_le hp below).trans_lt ?_
      refine (zpow_lt_zpow_iff_right₀ one_lt_two).mpr ?_
      simp only [leastLead]
      omega
    refine iff_of_false overflows ?_
    simp only [leastLead]
    omega

theorem encode_eq (regular : f.Regular) (hp : 1 ≤ p) (env : Environment) (h : x.Denotes v) :
    ∃ (c : ℕ) (lead : ℤ), Assembled f env.rounding p (withSign sign v) sign c lead ∧
      let inexact : Bool :=
        (x.split (max x.lead (leastLead f) - (p - 1 : ℕ))).2 ≠ .zero
      let exponent : ℤ := if c < 2 ^ (p - 1) then 0 else lead + f.bias
      encode f env p sign x =
        if f.exponentMax ≤ exponent then overflow f env.rounding p sign
        else
          ⟨ofFields f sign exponent.toNat (c <<< (f.precision - p)),
            Flags.when inexact Flags.inexact |||
              Flags.when (inexact && isTiny f env p sign x) Flags.underflow⟩ := by
  have assembly := assembled sign regular hp env.rounding h
  dsimp only at assembly
  split_ifs at assembly with carry
  · refine ⟨_, _, assembly, ?_⟩
    unfold encode
    simp only [Nat.pow_eq, carry, if_true]
  · refine ⟨_, _, assembly, ?_⟩
    unfold encode
    simp only [Nat.pow_eq, carry, if_false]

omit [FloorRing K] in
theorem overflowsToInfinity_iff (mode : RoundingMode) (hv : 0 < v) :
    mode.overflowsToInfinity sign = true ↔ mode.ToInfinity (withSign sign v) := by
  have hv' : ¬ v < 0 := hv.not_gt
  cases mode <;> cases sign <;>
    simp [RoundingMode.overflowsToInfinity, RoundingMode.ToInfinity, hv, hv']

theorem isFinite_value_largest (regular : f.Regular) (hp : 1 ≤ p) (hpf : p ≤ f.precision) :
    (largest f p sign).IsFinite ∧
      |(largest f p sign).value K| = (2 ^ p - 1) * 2 ^ ((f.exponentMax : ℤ) - f.bias - p) := by
  have exponents := regular.exponentMax_ge
  have double : 2 ^ p = 2 * 2 ^ (p - 1) := by
    rw [← pow_succ']
    congr 1
    omega
  have positive : 0 < 2 ^ (p - 1) := Nat.two_pow_pos _
  obtain ⟨finite, value⟩ := value_ofFields (K := K) (f := f) sign
    (e := f.exponentMax - 1) (c := 2 ^ p - 1) hp hpf (by omega) (by omega)
    (by rw [if_neg (by omega)]; omega)
  refine ⟨finite, ?_⟩
  have one_le : (1 : K) ≤ 2 ^ p := one_le_pow₀ one_le_two
  have fields : largest f p sign =
      ofFields f sign (f.exponentMax - 1) ((2 ^ p - 1) <<< (f.precision - p)) := rfl
  rw [fields, value, abs_withSign,
    abs_of_nonneg (mul_nonneg (Nat.cast_nonneg _) (zpow_pos two_pos _).le), Nat.cast_sub (by omega)]
  push_cast
  congr 2
  omega

/-- The largest number does not itself overflow. -/
theorem not_overflows_largest (mode : RoundingMode) (hp : 1 ≤ p) {y : K}
    (hy : |y| = (2 ^ p - 1) * 2 ^ ((f.exponentMax : ℤ) - f.bias - p)) :
    ¬ Overflows f mode p y := by
  generalize hk : (f.exponentMax : ℤ) - f.bias - p = k at hy
  have unit : (0 : K) < 2 ^ k := zpow_pos two_pos k
  obtain ⟨low, high⟩ := RoundingMode.two_pow_mul_zpow (K := K) hp (k + (p - 1 : ℕ))
  rw [add_sub_cancel_right] at low high
  have double : (2 : K) ^ p = 2 * 2 ^ (p - 1) := by
    rw [← pow_succ']
    congr 1
    omega
  have half : (1 : K) ≤ 2 ^ (p - 1) := one_le_pow₀ one_le_two
  have lower : (2 : K) ^ (k + (p - 1 : ℕ)) ≤ |y| := by
    rw [hy, ← low]
    exact mul_le_mul_of_nonneg_right (by linarith) unit.le
  have upper : |y| < (2 : K) ^ (k + (p - 1 : ℕ) + 1) := by
    rw [hy, ← high]
    exact mul_lt_mul_of_pos_right (by linarith) unit
  have exponent : RoundingMode.unitExponent p y = k := by
    rw [RoundingMode.unitExponent, log_two_eq lower upper]
    omega
  have kept : mode.unbounded p y = y := by
    rw [RoundingMode.unbounded, exponent, RoundingMode.toUnit_eq_self_iff]
    rcases abs_choice y with h | h
    · exact ⟨2 ^ p - 1, by rw [← h, hy]; push_cast; rfl⟩
    · exact ⟨-(2 ^ p - 1), by rw [← neg_neg y, ← h, hy]; push_cast; ring⟩
  rw [Overflows, kept, not_le]
  refine upper.trans_le (zpow_le_zpow_right₀ one_le_two ?_)
  omega

theorem infinity_not_isFinite : ¬ (infinity f sign).IsFinite := by
  have : 0 < 2 ^ f.exponentBits := Nat.two_pow_pos _
  have small : Nat.pow 2 f.exponentBits - 1 < 2 ^ f.exponentBits := by
    rw [Nat.pow_eq]
    omega
  rw [IsFinite, not_ne_iff, infinity, ofFields, BitVec.toNat_ofNat, Nat.mod_eq_of_lt small]

omit [FloorRing K] in
theorem decide_withSign_neg (hv : 0 < v) : decide (withSign sign v < 0) = sign := by
  cases sign with
  | false => exact decide_eq_false hv.not_gt
  | true => exact decide_eq_true (neg_lt_zero.mpr hv)

/-- The result of an overflow is the rounded number. -/
theorem overflow_isRounded (regular : f.Regular) (hp : 1 ≤ p) (hpf : p ≤ f.precision)
    (env : Environment) (zeroSign : Bool) (hv : 0 < v)
    (overflows : Overflows f env.rounding p (withSign sign v)) :
    IsRounded env p zeroSign (withSign sign v) (overflow f env.rounding p sign) := by
  have exponents := regular.exponentMax_ge
  have nonzero : withSign sign v ≠ 0 := (withSign_eq_zero_iff sign).not.mpr hv.ne'
  have hsign := decide_withSign_neg sign hv
  have toInfinity := overflowsToInfinity_iff sign env.rounding hv
  obtain ⟨finite, value⟩ := isFinite_value_largest (K := K) sign regular hp hpf
  have inexact : ¬ ((overflow f env.rounding p sign).value.IsFinite ∧
      (overflow f env.rounding p sign).value.value K = withSign sign v) := by
    rintro ⟨hfinite, hvalue⟩
    unfold overflow at hfinite hvalue
    split_ifs at hfinite hvalue
    · exact infinity_not_isFinite sign hfinite
    · rw [hvalue] at value
      exact not_overflows_largest env.rounding hp value overflows
  -- a number that overflows lies above the normal range before and after rounding
  have normal : ¬ Tiny f env p (withSign sign v) := by
    have range : (2 : K) ^ leastLead f < 2 ^ ((f.exponentMax : ℤ) - f.bias) :=
      (zpow_lt_zpow_iff_right₀ one_lt_two).mpr (by simp only [leastLead]; omega)
    unfold Tiny
    cases env.tininess with
    | beforeRounding =>
      intro tiny
      have := env.rounding.abs_unbounded_le hp tiny
      exact absurd overflows (not_le.mpr (this.trans_lt range))
    | afterRounding =>
      intro tiny
      exact absurd overflows (not_le.mpr (tiny.trans range))
  have flags : (overflow f env.rounding p sign).flags = Flags.overflow ||| Flags.inexact := rfl
  refine ⟨?_, fun h => absurd overflows h, ?_, ?_, ?_, ?_, ?_, ?_⟩
  · rw [if_neg nonzero, hsign]
    unfold overflow
    split_ifs <;> rfl
  · intro _ h
    rw [hsign]
    simp only [overflow, toInfinity.mpr h, if_true]
  · intro _ h
    rw [← toInfinity] at h
    simp only [overflow, h]
    exact ⟨finite, value⟩
  · exact iff_of_true (by rw [flags]; decide) inexact
  · exact iff_of_true (by rw [flags]; decide) overflows
  · exact iff_of_false (by rw [flags]; decide) (fun h => normal h.2)
  · rw [flags]
    decide

/-- The encoding that is assembled when nothing overflows, read back. -/
theorem value_assembled (hp : 1 ≤ p) (hpf : p ≤ f.precision) {mode : RoundingMode}
    {c : ℕ} {lead : ℤ} (assembly : Assembled f mode p (withSign sign v) sign c lead)
    (exponents : 3 ≤ f.exponentMax) (overflows : ¬ Overflows f mode p (withSign sign v)) :
    let exponent : ℤ := if c < 2 ^ (p - 1) then 0 else lead + f.bias
    ¬ (f.exponentMax : ℤ) ≤ exponent ∧
      (ofFields f sign exponent.toNat (c <<< (f.precision - p))).IsFinite ∧
      (ofFields f sign exponent.toNat (c <<< (f.precision - p))).value K =
        mode.bounded p (leastLead f - (p - 1 : ℕ)) (withSign sign v) := by
  intro exponent
  have hlead := assembly.lead_ge
  have hshort := assembly.lead_of_short
  have hoverflow := mt assembly.overflows_iff.mpr overflows
  have least : leastLead f = 1 - (f.bias : ℤ) := rfl
  have small : ¬ (f.exponentMax : ℤ) ≤ exponent := by
    simp only [exponent]
    split_ifs <;> omega
  have unit : (max 1 exponent.toNat : ℕ) - (f.bias : ℤ) = lead := by
    simp only [exponent]
    split_ifs <;> omega
  obtain ⟨finite, value⟩ := value_ofFields (K := K) (f := f) sign
    (e := exponent.toNat) (c := c) hp hpf (by omega) assembly.coefficient_lt
    (by simp only [exponent]; split_ifs <;> omega)
  refine ⟨small, finite, ?_⟩
  rw [value, unit, assembly.bounded_eq]

theorem flags_encoded (inexact tiny : Bool) :
    let flags := Flags.when inexact Flags.inexact ||| Flags.when (inexact && tiny) Flags.underflow
    flags.includes Flags.inexact = inexact ∧ flags.includes Flags.overflow = false ∧
      flags.includes Flags.underflow = (inexact && tiny) ∧
      flags &&& ~~~(Flags.inexact ||| Flags.overflow ||| Flags.underflow) = Flags.none := by
  cases inexact <;> cases tiny <;> decide

/-- Encoding rounds correctly. -/
theorem encode_isRounded (regular : f.Regular) (hp : 1 ≤ p) (hpf : p ≤ f.precision)
    (env : Environment) (zeroSign : Bool) (h : x.Denotes v) :
    IsRounded env p zeroSign (withSign sign v) (encode f env p sign x) := by
  obtain ⟨c, lead, assembly, heq⟩ := encode_eq sign regular hp env h
  have exponents := regular.exponentMax_ge
  by_cases overflows : Overflows f env.rounding p (withSign sign v)
  · obtain ⟨full, large⟩ := assembly.overflows_iff.mp overflows
    rw [heq, if_neg (by omega : ¬ c < 2 ^ (p - 1)), if_pos large]
    exact overflow_isRounded sign regular hp hpf env zeroSign h.pos overflows
  · obtain ⟨small, finite, value⟩ := value_assembled sign hp hpf assembly exponents overflows
    rw [heq, if_neg small]
    have exact_iff := remnant_eq_zero_iff (f := f) (p := p) sign env.rounding h
    have tiny_iff := tiny_iff_isTiny (f := f) env hp sign h
    rw [← value] at exact_iff
    generalize (if c < 2 ^ (p - 1) then (0 : ℤ) else lead + f.bias) = exponent at *
    generalize (x.split (max x.lead (leastLead f) - (p - 1 : ℕ))).2 = remnant at exact_iff ⊢
    generalize isTiny f env p sign x = tiny at tiny_iff ⊢
    have inexact_iff : decide (remnant ≠ .zero) = true ↔
        ¬ ((ofFields f sign exponent.toNat (c <<< (f.precision - p))).IsFinite ∧
          (ofFields f sign exponent.toNat (c <<< (f.precision - p))).value K =
            withSign sign v) := by
      rw [decide_eq_true_iff, ne_eq, exact_iff]
      simp only [finite, true_and]
    generalize decide (remnant ≠ .zero) = inexact at inexact_iff ⊢
    obtain ⟨inexact_flag, overflow_flag, underflow_flag, no_other⟩ := flags_encoded inexact tiny
    refine ⟨?_, fun _ => ⟨finite, value⟩, fun h => absurd h overflows, fun h => absurd h overflows,
      ?_, ?_, ?_, ?_⟩
    · rw [if_neg ((withSign_eq_zero_iff sign).not.mpr h.pos.ne'), decide_withSign_neg sign h.pos]
      rfl
    · rw [← inexact_iff, inexact_flag]
    · exact iff_of_false (by rw [overflow_flag]; decide) overflows
    · rw [← inexact_iff, ← tiny_iff, underflow_flag, Bool.and_eq_true]
    · exact no_other

/-- An exact zero is kept, with the sign asked for. -/
theorem zero_isRounded (regular : f.Regular) (env : Environment) (zeroSign : Bool) :
    IsRounded env p zeroSign (0 : K) (pure (zero f zeroSign)) := by
  have exponents := regular.exponentMax_ge
  have finite : (zero f zeroSign).IsFinite := by
    have : (zero f zeroSign).exponent.toNat = 0 := by simp [zero, ofFields]
    rw [IsFinite, this]
    omega
  have value : (zero f zeroSign).value K = 0 := by
    have : (zero f zeroSign).coefficient = 0 := by simp [coefficient, zero, ofFields]
    rw [value_eq_withSign, this, withSign_eq_zero_iff, Nat.cast_zero, zero_mul]
  have overflows : ¬ Overflows f env.rounding p (0 : K) := by
    rw [Overflows, RoundingMode.unbounded, RoundingMode.toUnit_zero, abs_zero, not_le]
    exact zpow_pos two_pos _
  have kept : ¬ ¬ ((zero f zeroSign).IsFinite ∧ (zero f zeroSign).value K = 0) :=
    not_not_intro ⟨finite, value⟩
  refine ⟨by rw [if_pos rfl]; rfl, fun _ => ⟨finite, ?_⟩, fun h => absurd h overflows,
    fun h => absurd h overflows, iff_of_false ?_ kept, iff_of_false ?_ overflows,
    iff_of_false ?_ fun h => kept h.1, ?_⟩
  · rw [RoundingMode.bounded, RoundingMode.toUnit_zero]
    exact value
  all_goals
    rw [Raised.pure_flags]
    decide

theorem encodeDyadic_isRounded (regular : f.Regular) (hp : 1 ≤ p) (hpf : p ≤ f.precision)
    (env : Environment) (zeroSign : Bool) (c e : ℤ) :
    IsRounded env p zeroSign ((c : K) * 2 ^ e) (encodeDyadic f env p zeroSign c e) := by
  unfold encodeDyadic
  split_ifs with hc
  · subst hc
    rw [Int.cast_zero, zero_mul]
    exact zero_isRounded regular env zeroSign
  · have denotes : (Magnitude.dyadic c.natAbs e).Denotes ((c.natAbs : K) * 2 ^ e) :=
      Magnitude.denotes_dyadic (by omega) e
    have value : (c : K) * 2 ^ e = withSign (decide (c < 0)) ((c.natAbs : K) * 2 ^ e) := by
      rw [← withSign_mul, Nat.cast_natAbs]
      congr 1
      by_cases h : c < 0
      · rw [decide_eq_true h, abs_of_neg h, withSign_true]
        push_cast
        ring
      · rw [decide_eq_false h, abs_of_nonneg (by omega), withSign_false]
    rw [value]
    exact encode_isRounded _ regular hp hpf env zeroSign denotes

end

end Fp

end M68k
