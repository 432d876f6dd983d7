import M68k.Fp.Extended
import M68k.Proofs.Fp.DenotedNumber
import M68k.Proofs.Fp.Order

/-!
# Encodings of one number

In extended precision one number has many encodings.  Operations unpack and round, so that they find
the same for all of them, but for those that hand back an operand which they need not round: it
stays as it is encoded.

* `SameNumber` — encodings of one number;
* `ExtendedOp.HandsBack` — the operands that an operation hands back;
* `apply_congr` — all other results depend on the numbers only;
* `apply_same_number` — operations, conversions and comparisons on encodings of the same numbers.
-/

namespace M68k

namespace Extended

open Fp

/-- Whether two encodings, which are no NaNs, denote the same number, with the same sign. -/
structure SameNumber (a b : Extended) : Prop where
  number : a.isNaN = false
  kind : b.kind = a.kind
  sign : b.sign = a.sign
  value : a.kind = .finite → b.value ℚ = a.value ℚ

namespace SameNumber

variable {a a' : Extended} (h : SameNumber a a')
include h

theorem value_of_isFinite (finite : a.IsFinite) : a'.value ℚ = a.value ℚ := by
  have kinds := kind_of_isFinite finite
  by_cases zero : a.coefficient = 0
  · rw [if_pos zero] at kinds
    rw [value_of_kind_zero (h.kind.trans kinds), value_of_kind_zero kinds]
  · rw [if_neg zero] at kinds
    exact h.value kinds

theorem number' : a'.isNaN = false := by
  rw [isNaN, h.kind]
  exact h.number

theorem symm : SameNumber a' a :=
  ⟨h.number', h.kind.symm, h.sign.symm, fun finite => (h.value (h.kind.symm.trans finite)).symm⟩

theorem negate : SameNumber a.negate a'.negate := by
  refine ⟨h.number, h.kind, congrArg (!·) h.sign, fun finite => ?_⟩
  rw [value_negate, value_negate, h.value finite]

section Finite

variable (finite : a.kind = .finite)
include finite

theorem magnitude :
    (a'.coefficient : ℚ) * 2 ^ a'.unitExponent = a.coefficient * 2 ^ a.unitExponent := by
  have value := h.value finite
  rwa [value_eq_withSign, value_eq_withSign, h.sign, withSign_inj] at value

theorem magnitude_real :
    (a'.coefficient : ℝ) * 2 ^ a'.unitExponent = a.coefficient * 2 ^ a.unitExponent := by
  simpa only [Rat.cast_mul, Rat.cast_natCast, Rat.cast_zpow, Rat.cast_ofNat] using
    congrArg (Rat.cast : ℚ → ℝ) (h.magnitude finite)

theorem denotes : a'.magnitude.Denotes ((a.coefficient : ℚ) * 2 ^ a.unitExponent) := by
  rw [← h.magnitude finite]
  exact denotes_magnitude (h.kind.trans finite)

theorem lead_eq : a'.lead = a.lead := by
  rw [lead_eq_log (h.kind.trans finite), lead_eq_log finite, h.magnitude finite]

theorem split_eq (q : ℤ) : a'.magnitude.split q = a.magnitude.split q :=
  Magnitude.split_eq_of_denotes (h.denotes finite) (denotes_magnitude finite) q

theorem encode_eq (f : Format) (env : Environment) (p : ℕ) (sign : Bool) :
    encode f env p sign a'.magnitude = encode f env p sign a.magnitude :=
  encode_eq_of_denotes (h.denotes finite) (denotes_magnitude finite) env p sign

end Finite

/-- Encodings of one number stand for the same extended real number. -/
theorem extended_eq : a'.extended = a.extended := by
  cases kind : a.kind with
  | nan => simpa [isNaN, kind] using h.number
  | infinity => rw [extended_of_infinity kind, extended_of_infinity (h.kind.trans kind), h.sign]
  | zero =>
    rw [extended_of_number (.inl kind), extended_of_number (.inl (h.kind.trans kind)),
      value_of_kind_zero kind, value_of_kind_zero (h.kind.trans kind)]
  | finite =>
    have cast (x : Extended) : ((x.value ℚ : ℚ) : ℝ) = x.value ℝ := by
      simp only [Fp.value]
      push_cast
      rfl
    rw [extended_of_number (.inr kind), extended_of_number (.inr (h.kind.trans kind)), ← cast,
      ← cast, h.value kind]

end SameNumber

/-! ## Operations -/

/-- The operations in extended precision; those with one operand ignore the second. -/
inductive ExtendedOp where
  | add
  | sub
  | mul
  | div
  | sqrt
  | remainder (nearest : Bool)
  | roundToIntegral (mode : RoundingMode)
  | roundToPrecision
  | scale (n : ℤ)
  deriving DecidableEq, Repr

namespace ExtendedOp

/-- The result of an operation, for a remainder without the quotient. -/
def apply (op : ExtendedOp) (env : Environment) (a b : Extended) : Raised Extended :=
  match op with
  | add => a.add env b
  | sub => a.sub env b
  | mul => a.mul env b
  | div => a.div env b
  | sqrt => a.sqrt env
  | remainder nearest =>
    ⟨(a.remainder env nearest b).value.value, (a.remainder env nearest b).flags⟩
  | roundToIntegral mode => a.roundToIntegral env mode
  | roundToPrecision => Extended.roundToPrecision env a
  | scale n => Extended.scale env a n

/-- Whether the operation hands back its first operand, which needs no rounding. -/
def HandsBack (op : ExtendedOp) (a b : Extended) : Prop :=
  match op with
  | add => a.kind = .infinity ∧ (b.kind = .infinity → b.sign = a.sign)
  | sub => a.kind = .infinity ∧ (b.kind = .infinity → b.sign ≠ a.sign)
  | mul | div => False
  | sqrt => a.kind = .zero ∨ a.kind = .infinity ∧ a.sign = false
  | remainder _ => a.kind = .zero ∧ b.kind ≠ .zero ∨ a.kind = .finite ∧ b.kind = .infinity
  | roundToIntegral _ => a.kind ≠ .finite ∨ 2 ^ 63 ≤ |a.value ℚ|
  | roundToPrecision | scale _ => a.kind ≠ .finite

variable {a a' b b' : Extended} (h : SameNumber a a') (h' : SameNumber b b')

include h h' in
theorem handsBack_congr (op : ExtendedOp) : op.HandsBack a' b' ↔ op.HandsBack a b := by
  cases op with
  | roundToIntegral mode =>
    by_cases kind : a.kind = .finite
    · simp only [HandsBack, h.kind, h.value kind]
    · simp only [HandsBack, h.kind, kind, not_false_iff, ne_eq, true_or]
  | _ => simp only [HandsBack, h.kind, h'.kind, h.sign, h'.sign]

/-- A difference is a sum with the other sign of the second operand. -/
theorem apply_sub (env : Environment) (ha : a.isNaN = false) (hb : b.isNaN = false) :
    apply .sub env a b = apply .add env a b.negate := by
  show Fp.sub env a b = Fp.add env a b.negate
  rw [Fp.sub, ha, hb]
  rfl

theorem handsBack_sub : HandsBack .sub a b ↔ HandsBack .add a b.negate := by
  have sign : b.sign ≠ a.sign ↔ (!b.sign) = a.sign := by
    cases a.sign <;> cases b.sign <;> decide
  exact and_congr_right fun _ => imp_congr_right fun _ => sign

theorem kind_ne_nan {x : Extended} (number : x.isNaN = false) : x.kind ≠ .nan := by
  intro nan
  simp [isNaN, nan] at number

theorem apply_add_of_handsBack (env : Environment) (hb : b.isNaN = false)
    (back : HandsBack .add a b) : apply .add env a b = pure a := by
  obtain ⟨infinite, signs⟩ := back
  cases kind : b.kind with
  | nan => exact absurd kind (kind_ne_nan hb)
  | infinity => simp [apply, Fp.add, infinite, kind, signs kind]
  | zero => simp [apply, Fp.add, infinite, kind]
  | finite => simp [apply, Fp.add, infinite, kind]

theorem remainder_of_handsBack (env : Environment) (nearest : Bool) (hb : b.isNaN = false)
    (back : HandsBack (.remainder nearest) a b) :
    a.remainder env nearest b = pure ⟨a, 0, a.sign ^^ b.sign⟩ := by
  obtain ⟨zero, nonzero⟩ | ⟨finite, infinite⟩ := back
  · cases kind : b.kind with
    | nan => exact absurd kind (kind_ne_nan hb)
    | zero => exact absurd kind nonzero
    | infinity => simp only [Fp.remainder, zero, kind]
    | finite => simp only [Fp.remainder, zero, kind]
  · simp only [Fp.remainder, finite, infinite]

/-- What is handed back is the first operand as it is encoded, and no flag is raised. -/
theorem apply_of_handsBack (op : ExtendedOp) (env : Environment) (ha : a.isNaN = false)
    (hb : b.isNaN = false) (back : op.HandsBack a b) : op.apply env a b = pure a := by
  have special (finite : a.kind ≠ .finite) : a.kind = .zero ∨ a.kind = .infinity := by
    have := kind_ne_nan ha
    cases kind : a.kind <;> simp_all
  cases op with
  | add => exact apply_add_of_handsBack env hb back
  | sub =>
    rw [apply_sub env ha hb]
    exact apply_add_of_handsBack env hb (handsBack_sub.mp back)
  | mul => exact absurd back not_false
  | div => exact absurd back not_false
  | sqrt =>
    obtain zero | ⟨infinite, sign⟩ := back
    · simp [apply, Fp.sqrt, zero]
    · simp [apply, Fp.sqrt, infinite, sign]
  | remainder nearest =>
    rw [apply, remainder_of_handsBack env nearest hb back]
    rfl
  | roundToIntegral mode =>
    by_cases kind : a.kind = .finite
    · have large : (63 : ℤ) ≤ a.lead :=
        (le_lead_iff kind 63).mpr (back.resolve_left (not_not_intro kind))
      simp only [apply, Fp.roundToIntegral, kind]
      exact if_pos large
    · obtain zero | infinite := special kind
      · simp [apply, Fp.roundToIntegral, zero]
      · simp [apply, Fp.roundToIntegral, infinite]
  | roundToPrecision =>
    obtain zero | infinite := special back
    · simp [apply, Extended.roundToPrecision, zero]
    · simp [apply, Extended.roundToPrecision, infinite]
  | scale n =>
    obtain zero | infinite := special back
    · simp [apply, Extended.scale, zero]
    · simp [apply, Extended.scale, infinite]

/-! ### Other results -/

section Congr

variable (env : Environment)
include h

include h'

theorem addFinite_congr (ha : a.IsFinite) (hb : b.IsFinite) :
    addFinite env a' b' = addFinite env a b := by
  unfold addFinite
  dsimp only
  rw [h.sign, h'.sign]
  refine encodeDyadic_eq_of_value ?_ env _ _
  rw [alignedSum_value, alignedSum_value]
  exact congrArg₂ (· + ·) (h.value_of_isFinite ha) (h'.value_of_isFinite hb)

theorem add_congr (moved : ¬ HandsBack .add a b) : Fp.add env a' b' = Fp.add env a b := by
  have sum (ha : a.kind = .zero ∨ a.kind = .finite) (hb : b.kind = .zero ∨ b.kind = .finite) :=
    addFinite_congr h h' env (isFinite_of_kind ha) (isFinite_of_kind hb)
  unfold Fp.add
  rw [h.kind, h'.kind, h.sign, h'.sign]
  cases hb : b.kind with
  | nan => exact absurd hb (kind_ne_nan h'.number)
  | infinity =>
    cases ha : a.kind with
    | nan => exact absurd ha (kind_ne_nan h.number)
    | infinity =>
      have opposite : ¬ a.sign = b.sign := fun same => moved ⟨ha, fun _ => same.symm⟩
      simp only [if_neg opposite]
    | zero => rfl
    | finite => rfl
  | zero =>
    cases ha : a.kind with
    | nan => exact absurd ha (kind_ne_nan h.number)
    | infinity => exact absurd ⟨ha, fun infinite => by simp [hb] at infinite⟩ moved
    | zero => exact sum (.inl ha) (.inl hb)
    | finite => exact sum (.inr ha) (.inl hb)
  | finite =>
    cases ha : a.kind with
    | nan => exact absurd ha (kind_ne_nan h.number)
    | infinity => exact absurd ⟨ha, fun infinite => by simp [hb] at infinite⟩ moved
    | zero => exact sum (.inl ha) (.inr hb)
    | finite => exact sum (.inr ha) (.inr hb)

theorem sub_congr (moved : ¬ HandsBack .sub a b) : Fp.sub env a' b' = Fp.sub env a b := by
  have sum := add_congr h h'.negate env (mt handsBack_sub.mpr moved)
  rw [Fp.sub, Fp.sub, h.number, h'.number, h.number', h'.number']
  exact sum

section Finite

variable (ha : a.kind = .finite) (hb : b.kind = .finite)
include ha hb

theorem encode_product_congr (p : ℕ) (sign : Bool) :
    encode extended80 env p sign (.dyadic (a'.coefficient * b'.coefficient)
        (a'.unitExponent + b'.unitExponent)) =
      encode extended80 env p sign (.dyadic (a.coefficient * b.coefficient)
        (a.unitExponent + b.unitExponent)) := by
  have denotes {x y : Extended} (hx : x.kind = .finite) (hy : y.kind = .finite) :
      (Magnitude.dyadic (x.coefficient * y.coefficient)
        (x.unitExponent + y.unitExponent)).Denotes
        (((x.coefficient : ℚ) * 2 ^ x.unitExponent) * (y.coefficient * 2 ^ y.unitExponent)) := by
    refine ⟨Nat.mul_pos (coefficient_pos hx) (coefficient_pos hy), Nat.one_pos, ?_⟩
    rw [zpow_add₀ two_ne_zero]
    push_cast
    ring
  refine encode_eq_of_denotes (denotes (h.kind.trans ha) (h'.kind.trans hb)) ?_ env p sign
  rw [h.magnitude ha, h'.magnitude hb]
  exact denotes ha hb

theorem encode_quotient_congr (p : ℕ) (sign : Bool) :
    encode extended80 env p sign (.ratio a'.coefficient b'.coefficient
        (a'.unitExponent - b'.unitExponent)) =
      encode extended80 env p sign (.ratio a.coefficient b.coefficient
        (a.unitExponent - b.unitExponent)) := by
  have denotes {x y : Extended} (hx : x.kind = .finite) (hy : y.kind = .finite) :
      (Magnitude.ratio x.coefficient y.coefficient (x.unitExponent - y.unitExponent)).Denotes
        (((x.coefficient : ℚ) * 2 ^ x.unitExponent) / (y.coefficient * 2 ^ y.unitExponent)) := by
    refine ⟨coefficient_pos hx, coefficient_pos hy, ?_⟩
    rw [zpow_sub₀ two_ne_zero, div_mul_div_comm]
  refine encode_eq_of_denotes (denotes (h.kind.trans ha) (h'.kind.trans hb)) ?_ env p sign
  rw [h.magnitude ha, h'.magnitude hb]
  exact denotes ha hb

/-- The division to an integer finds one quotient, and rests that are one number. -/
theorem divideToInteger_congr (nearest : Bool) :
    let found := divideToInteger nearest a.coefficient a.unitExponent b.coefficient b.unitExponent
    let found' :=
      divideToInteger nearest a'.coefficient a'.unitExponent b'.coefficient b'.unitExponent
    found'.1 = found.1 ∧ (found'.2.1 : ℚ) * 2 ^ found'.2.2 = found.2.1 * 2 ^ found.2.2 := by
  intro found found'
  obtain ⟨parts, splits, quotient, rest⟩ := divideToInteger_spec nearest a.coefficient
    a.unitExponent (coefficient_pos hb) b.unitExponent
  obtain ⟨parts', splits', quotient', rest'⟩ := divideToInteger_spec nearest a'.coefficient
    a'.unitExponent (coefficient_pos (h'.kind.trans hb)) b'.unitExponent
  rw [h.magnitude ha, h'.magnitude hb] at splits' rest'
  obtain rfl := splits'.unique splits
  have same : found'.1 = found.1 := quotient'.trans quotient.symm
  refine ⟨same, rest'.trans ?_⟩
  rw [show (divideToInteger nearest a'.coefficient a'.unitExponent b'.coefficient
    b'.unitExponent).1 = _ from same]
  exact rest.symm

end Finite

theorem mul_congr : Fp.mul env a' b' = Fp.mul env a b := by
  have na := kind_ne_nan h.number
  have nb := kind_ne_nan h'.number
  unfold Fp.mul
  dsimp only
  rw [h.kind, h'.kind, h.sign, h'.sign]
  by_cases finite : a.kind = .finite ∧ b.kind = .finite
  · obtain ⟨ha, hb⟩ := finite
    rw [ha, hb]
    exact encode_product_congr h h' env ha hb _ _
  · cases ha : a.kind <;> cases hb : b.kind <;> simp_all

theorem div_congr : Fp.div env a' b' = Fp.div env a b := by
  have na := kind_ne_nan h.number
  have nb := kind_ne_nan h'.number
  unfold Fp.div
  dsimp only
  rw [h.kind, h'.kind, h.sign, h'.sign]
  by_cases finite : a.kind = .finite ∧ b.kind = .finite
  · obtain ⟨ha, hb⟩ := finite
    rw [ha, hb]
    exact encode_quotient_congr h h' env ha hb _ _
  · cases ha : a.kind <;> cases hb : b.kind <;> simp_all

/-- Remainder and quotient look at the numbers only. -/
theorem remainder_congr (nearest : Bool) (moved : ¬ HandsBack (.remainder nearest) a b) :
    Fp.remainder env nearest a' b' = Fp.remainder env nearest a b := by
  have na := kind_ne_nan h.number
  have nb := kind_ne_nan h'.number
  unfold Fp.remainder
  dsimp only
  rw [h.kind, h'.kind, h.sign, h'.sign]
  by_cases finite : a.kind = .finite ∧ b.kind = .finite
  · obtain ⟨ha, hb⟩ := finite
    obtain ⟨quotient, rest⟩ := divideToInteger_congr h h' ha hb nearest
    have signed {c e c' e' : ℤ} (same : (c' : ℚ) * 2 ^ e' = c * 2 ^ e) :
        (((if a.sign then -c' else c' : ℤ) : ℚ)) * 2 ^ e' =
          (if a.sign then -c else c : ℤ) * 2 ^ e := by
      split
      · rw [Int.cast_neg, Int.cast_neg, neg_mul, neg_mul, same]
      · exact same
    rw [ha, hb]
    dsimp only
    rw [quotient, encodeDyadic_eq_of_value (signed rest)]
  · unfold HandsBack at moved
    cases ha : a.kind <;> cases hb : b.kind <;> simp_all

end Congr

section Unary

variable (env : Environment)
include h

theorem sqrt_congr (moved : ¬ HandsBack .sqrt a b) : Fp.sqrt env a' = Fp.sqrt env a := by
  unfold Fp.sqrt
  rw [h.kind, h.sign]
  cases ha : a.kind with
  | nan => exact absurd ha (kind_ne_nan h.number)
  | infinity =>
    have negative : a.sign = true := by
      by_contra positive
      exact moved (.inr ⟨ha, by simpa using positive⟩)
    simp only [if_pos negative]
  | zero => exact absurd (.inl ha) moved
  | finite =>
    have denotes := denotes_rootMagnitude (coefficient_pos (h.kind.trans ha)) a'.unitExponent
    rw [h.magnitude_real ha] at denotes
    dsimp only
    rw [encode_eq_of_denotes denotes (denotes_rootMagnitude (coefficient_pos ha) a.unitExponent)]

theorem roundToIntegral_congr (mode : RoundingMode)
    (moved : ¬ HandsBack (.roundToIntegral mode) a b) :
    Fp.roundToIntegral env mode a' = Fp.roundToIntegral env mode a := by
  obtain ⟨ha, small⟩ := not_or.mp moved
  have ha := not_not.mp ha
  have short : ¬ (extended80.fractionBits : ℤ) ≤ a.lead := mt (le_lead_iff ha 63).mp small
  unfold Fp.roundToIntegral
  rw [h.kind, h.sign, ha, h.lead_eq ha, h.split_eq ha]
  simp only [if_neg short]

theorem roundToPrecision_congr (ha : a.kind = .finite) :
    Extended.roundToPrecision env a' = Extended.roundToPrecision env a := by
  unfold Extended.roundToPrecision
  rw [h.kind, h.sign, ha]
  exact h.encode_eq ha _ env _ _

theorem scale_congr (n : ℤ) (ha : a.kind = .finite) :
    Extended.scale env a' n = Extended.scale env a n := by
  have denotes := denotes_scaled (h.kind.trans ha) (clampScale n)
  rw [h.magnitude ha] at denotes
  unfold Extended.scale
  rw [h.kind, h.sign, ha]
  exact encode_eq_of_denotes denotes (denotes_scaled ha _) env _ _

end Unary

include h h'

/-- **Results that are not handed back look at the numbers only.** -/
theorem apply_congr (op : ExtendedOp) (env : Environment) (moved : ¬ op.HandsBack a b) :
    op.apply env a' b' = op.apply env a b := by
  cases op with
  | add => exact add_congr h h' env moved
  | sub => exact sub_congr h h' env moved
  | mul => exact mul_congr h h' env
  | div => exact div_congr h h' env
  | sqrt => exact sqrt_congr h env moved
  | remainder nearest => simp only [apply, remainder_congr h h' env nearest moved]
  | roundToIntegral mode => exact roundToIntegral_congr h env mode moved
  | roundToPrecision => exact roundToPrecision_congr h env (not_not.mp moved)
  | scale n => exact scale_congr h env n (not_not.mp moved)

/-- The quotient of a remainder looks at the numbers only, handed back or not. -/
theorem quotient_congr (env : Environment) (nearest : Bool) :
    (a'.remainder env nearest b').value.quotient = (a.remainder env nearest b).value.quotient ∧
      (a'.remainder env nearest b').value.negative =
        (a.remainder env nearest b).value.negative := by
  refine ⟨?_, by rw [remainder_negative, remainder_negative, h.sign, h'.sign]⟩
  by_cases back : HandsBack (.remainder nearest) a b
  · have back' := (handsBack_congr h h' _).mpr back
    rw [remainder_of_handsBack env nearest h'.number back,
      remainder_of_handsBack env nearest h'.number' back']
    rfl
  · rw [remainder_congr h h' env nearest back]

end ExtendedOp

/-! ## Conversions and comparisons -/

section Conversions

variable {a a' b b' : Extended} (h : SameNumber a a') (h' : SameNumber b b')

include h in
theorem convert_congr (g : Format) (env : Environment) : convert g env a' = convert g env a := by
  unfold convert
  rw [h.kind, h.sign]
  cases ha : a.kind with
  | nan => simpa [isNaN, ha] using h.number
  | infinity => rfl
  | zero => rfl
  | finite => exact h.encode_eq ha g env _ _

include h in
theorem toInt_congr (width : ℕ) (mode : RoundingMode) :
    toInt width mode a' = toInt width mode a := by
  unfold toInt
  rw [h.kind, h.sign]
  cases ha : a.kind with
  | nan => rfl
  | infinity => rfl
  | zero => rfl
  | finite => rw [h.lead_eq ha, h.split_eq ha]

include h h' in
theorem compareWith_congr (signaling : Bool) :
    compareWith signaling a' b' = compareWith signaling a b := by
  have known : extended80 ∈ [binary32, binary64, extended80, binary128] := by simp
  have order : Fp.order a' b' = Fp.order a b := by
    have compares := order_compares known h.number' h'.number'
    rw [h.extended_eq, h'.extended_eq] at compares
    exact compares.inj (order_compares known h.number h'.number)
  rw [compareWith, compareWith, h.number, h'.number, h.number', h'.number', order]
  rfl

end Conversions

/-! ## The order of summands -/

section Sum

variable {a b : Extended} (ha : a.isNaN = false) (hb : b.isNaN = false) (env : Environment)

theorem alignedSum_comm (m p n q : ℤ) : alignedSum m p n q = alignedSum n q m p := by
  simp only [alignedSum, min_comm p q, Int.add_comm]

theorem addFinite_comm : addFinite env b a = addFinite env a b := by
  have zeroSign : (if b.sign = a.sign then b.sign else env.rounding = .down) =
      (if a.sign = b.sign then a.sign else env.rounding = .down) := by
    by_cases same : a.sign = b.sign
    · rw [if_pos same, if_pos same.symm, same]
    · rw [if_neg same, if_neg (Ne.symm same)]
  simp only [addFinite, alignedSum_comm b.signedCoefficient, zeroSign]

/-- What sums in both orders have in common: the flags and the number, and the encoding unless a
summand is an infinity with the integer bit clear. -/
structure Exchanged (a b : Extended) (sum sum' : Raised Extended) : Prop where
  flags : sum'.flags = sum.flags
  value : sum'.value = sum.value ∨ SameNumber sum.value sum'.value
  canonical : (a.kind = .infinity → a.Canonical) → (b.kind = .infinity → b.Canonical) → sum' = sum

namespace Exchanged

variable {a b : Extended} {sum sum' : Raised Extended}

theorem of_eq (same : sum' = sum) : Exchanged a b sum sum' := by
  subst same
  exact ⟨rfl, .inl rfl, fun _ _ => rfl⟩

theorem symm (h : Exchanged a b sum sum') : Exchanged b a sum' sum :=
  ⟨h.flags.symm, h.value.imp Eq.symm SameNumber.symm, fun hb ha => (h.canonical ha hb).symm⟩

/-- Two infinities that are the sums. -/
theorem of_infinity {x y : Extended} (kx : x.kind = .infinity) (ky : y.kind = .infinity)
    (sign : y.sign = x.sign)
    (canonical : (a.kind = .infinity → a.Canonical) → (b.kind = .infinity → b.Canonical) →
      x.Canonical ∧ y.Canonical) : Exchanged a b (pure x) (pure y) := by
  have number : x.isNaN = false := by rw [isNaN, kx]; rfl
  refine ⟨rfl, .inr ⟨number, ky.trans kx.symm, sign, fun finite => by simp [kx] at finite⟩,
    fun ha hb => ?_⟩
  obtain ⟨cx, cy⟩ := canonical ha hb
  rw [eq_infinity regular cx kx, eq_infinity regular cy ky, sign]

end Exchanged

include hb in
/-- The sums with an infinity. -/
theorem exchanged_infinity (ka : a.kind = .infinity) :
    Exchanged a b (Fp.add env a b) (Fp.add env b a) := by
  have standard : (infinity extended80 a.sign).Canonical := canonical_infinity a.sign regular
  cases kb : b.kind with
  | nan => exact absurd kb (ExtendedOp.kind_ne_nan hb)
  | infinity =>
    by_cases same : a.sign = b.sign
    · have sum : Fp.add env a b = pure a := by simp [Fp.add, ka, kb, same]
      have sum' : Fp.add env b a = pure b := by simp [Fp.add, ka, kb, same]
      rw [sum, sum']
      exact .of_infinity ka kb same.symm fun ca cb => ⟨ca ka, cb kb⟩
    · refine .of_eq ?_
      simp [Fp.add, ka, kb, same, Ne.symm same]
  | zero =>
    have sum : Fp.add env a b = pure a := by simp [Fp.add, ka, kb]
    have sum' : Fp.add env b a = pure (infinity extended80 a.sign) := by simp [Fp.add, ka, kb]
    rw [sum, sum']
    exact .of_infinity ka (kind_infinity _ _) rfl fun ca _ => ⟨ca ka, standard⟩
  | finite =>
    have sum : Fp.add env a b = pure a := by simp [Fp.add, ka, kb]
    have sum' : Fp.add env b a = pure (infinity extended80 a.sign) := by simp [Fp.add, ka, kb]
    rw [sum, sum']
    exact .of_infinity ka (kind_infinity _ _) rfl fun ca _ => ⟨ca ka, standard⟩

include ha hb

theorem exchanged_add : Exchanged a b (Fp.add env a b) (Fp.add env b a) := by
  have na := ExtendedOp.kind_ne_nan ha
  have nb := ExtendedOp.kind_ne_nan hb
  by_cases ka : a.kind = .infinity
  · exact exchanged_infinity hb env ka
  · by_cases kb : b.kind = .infinity
    · exact (exchanged_infinity ha env kb).symm
    · refine .of_eq ?_
      have finite := addFinite_comm (a := a) (b := b) env
      unfold Fp.add
      cases ha : a.kind <;> cases hb : b.kind <;> simp_all

end Sum

/-! ## The results together -/

/-- **The numbers decide, and not their encodings.**  Operations on other encodings of the same
numbers raise the same flags and have the same results bit by bit, but for operands that they hand
back as they are encoded.  Quotients, conversions and comparisons are the same in any case.  Sums in
both orders are the same, except for the encoding if a summand is an infinity with the integer bit
clear. -/
theorem apply_same_number {a a' b b' : Extended} (h : SameNumber a a') (h' : SameNumber b b')
    (env : Environment) :
    (∀ op : ExtendedOp, (op.apply env a' b').flags = (op.apply env a b).flags ∧
        (op.HandsBack a b → (op.apply env a b).value = a ∧ (op.apply env a' b').value = a') ∧
        (¬ op.HandsBack a b → (op.apply env a' b').value = (op.apply env a b).value)) ∧
      (∀ nearest,
        (a'.remainder env nearest b').value.quotient = (a.remainder env nearest b).value.quotient ∧
          (a'.remainder env nearest b').value.negative =
            (a.remainder env nearest b).value.negative) ∧
      (∀ g, convert g env a' = convert g env a) ∧
      (∀ width mode, toInt width mode a' = toInt width mode a) ∧
      (∀ signaling, compareWith signaling a' b' = compareWith signaling a b) ∧
      Exchanged a b (a.add env b) (b.add env a) := by
  refine ⟨fun op => ?_, ExtendedOp.quotient_congr h h' env, fun g => convert_congr h g env,
    toInt_congr h, compareWith_congr h h', exchanged_add h.number h'.number env⟩
  by_cases back : op.HandsBack a b
  · have result := op.apply_of_handsBack env h.number h'.number back
    have result' := op.apply_of_handsBack env h.number' h'.number'
      ((ExtendedOp.handsBack_congr h h' op).mpr back)
    rw [result, result']
    exact ⟨rfl, fun _ => ⟨rfl, rfl⟩, fun moved => absurd back moved⟩
  · rw [ExtendedOp.apply_congr h h' op env back]
    exact ⟨rfl, fun handed => absurd handed back, fun _ => rfl⟩

/-- Three as an unnormal, and minus the least normal number as a pseudo-denormal. -/
theorem apply_same_number_unnormal :
    let a : Extended := ⟨false, 0x4000, 0xC000000000000000⟩
    let a' : Extended := ⟨false, 0x4001, 0x6000000000000000⟩
    let b : Extended := ⟨true, 1, 0x8000000000000000⟩
    let b' : Extended := ⟨true, 0, 0x8000000000000000⟩
    SameNumber a a' ∧ SameNumber b b' ∧
      (∀ op : ExtendedOp, (op.apply {} a' b').flags = (op.apply {} a b).flags ∧
        (op.HandsBack a b → (op.apply {} a b).value = a ∧ (op.apply {} a' b').value = a') ∧
        (¬ op.HandsBack a b → (op.apply {} a' b').value = (op.apply {} a b).value)) := by
  intro a a' b b'
  have first : SameNumber a a' := by
    refine ⟨by decide, by decide, rfl, fun _ => ?_⟩
    have coefficients : a.signedCoefficient = 2 * a'.signedCoefficient := by decide
    have units : a'.unitExponent = a.unitExponent + 1 := by decide
    rw [Fp.value, Fp.value, coefficients, units, zpow_add_one₀ two_ne_zero]
    push_cast
    ring
  have second : SameNumber b b' := by
    refine ⟨by decide, by decide, rfl, fun _ => ?_⟩
    have coefficients : b'.signedCoefficient = b.signedCoefficient := by decide
    have units : b'.unitExponent = b.unitExponent := by decide
    rw [Fp.value, Fp.value, coefficients, units]
  exact ⟨first, second, (apply_same_number first second {}).1⟩

/-- An operand that is handed back keeps its encoding: zero with an exponent field, and infinity
with the integer bit clear, which the other order of summands does not hand back. -/
theorem handed_back_encodings :
    let zero : Extended := Fp.zero extended80 false
    let unnormal : Extended := ⟨false, 0x1234, 0⟩
    let infinity : Extended := ⟨false, 0x7FFF, 0⟩
    SameNumber zero unnormal ∧ Fp.sqrt {} unnormal ≠ Fp.sqrt {} zero ∧
      Fp.add {} infinity zero ≠ Fp.add {} zero infinity := by
  intro zero unnormal infinity
  have same : SameNumber zero unnormal :=
    ⟨by decide, by decide, rfl, fun finite => absurd finite (by decide)⟩
  exact ⟨same, by decide, by decide⟩

end Extended

end M68k
