import M68k.Fp.Arithmetic
import M68k.Proofs.Fp.RoundedEncoding

/-!
# The four operations of arithmetic round correctly

Each operation forms its exact result and encodes it once, so all that is left to show is that the
exact result is the sum, difference, product or quotient of the numbers that the operands denote.
Nothing is asked of the operands beyond being finite: unnormals and subnormals are covered.

* `SignificantBits` — how many bits a result has in each format;
* `BinaryOp.apply_isRounded` — sums, differences, products and quotients.
-/

namespace M68k

variable {K : Type*} [Field K] [LinearOrder K] [IsStrictOrderedRing K] {f : Format}

theorem Format.regular_of_mem (hf : f ∈ [binary32, binary64, extended80, binary128]) :
    f.Regular := by
  simp only [List.mem_cons, List.not_mem_nil, or_false] at hf
  rcases hf with rfl | rfl | rfl | rfl <;> constructor <;> decide

theorem Extended.regular : extended80.Regular := Format.regular_of_mem (by simp)

/-- How many significant bits a result has: all that its format has room for, except that extended
results have as many as the environment asks for. -/
inductive SignificantBits (env : Environment) : Format → ℕ → Prop where
  | single : SignificantBits env binary32 24
  | double : SignificantBits env binary64 53
  | quadruple : SignificantBits env binary128 113
  | extendedToSingle (asked : env.precision = .single) : SignificantBits env extended80 24
  | extendedToDouble (asked : env.precision = .double) : SignificantBits env extended80 53
  | extended (asked : env.precision = .extended) : SignificantBits env extended80 64

namespace Fp

/-- Results have the significant bits that operations round them to. -/
theorem significantBits (hf : f ∈ [binary32, binary64, extended80, binary128])
    (env : Environment) : SignificantBits env f (workingPrecision f env) := by
  simp only [List.mem_cons, List.not_mem_nil, or_false] at hf
  rcases hf with rfl | rfl | rfl | rfl
  · exact .single
  · exact .double
  · have bits : workingPrecision extended80 env = env.precision.bits := rfl
    rw [bits]
    cases asked : env.precision with
    | single => exact .extendedToSingle asked
    | double => exact .extendedToDouble asked
    | extended => exact .extended asked
  · exact .quadruple

theorem workingPrecision_bounds (regular : f.Regular) (env : Environment) :
    1 ≤ workingPrecision f env ∧ workingPrecision f env ≤ f.precision := by
  have hp := regular.precision_pos
  have explicit := regular.precision_explicit
  unfold workingPrecision
  split_ifs with h
  · have := explicit h
    cases env.precision <;> simp only [Precision.bits] <;> omega
  · exact ⟨hp, le_rfl⟩

section Kind

variable {x : Fp f}

/-- A finite encoding is a zero exactly when its significand is zero. -/
theorem kind_of_isFinite (h : x.IsFinite) :
    x.kind = if x.coefficient = 0 then .zero else .finite := by
  have positive : 0 < Nat.pow 2 f.fractionBits := Nat.two_pow_pos _
  have condition : x.significand = 0 ∧ (x.exponent = 0 ∨ f.explicitInteger) ↔
      x.coefficient = 0 := by
    rw [← BitVec.toNat_inj, or_comm]
    unfold coefficient
    by_cases unbiased : f.explicitInteger ∨ x.exponent = 0
    · rw [if_pos unbiased, add_zero]
      exact and_iff_left unbiased
    · rw [if_neg unbiased]
      exact iff_of_false (fun h => unbiased h.2) (by omega)
  simp only [kind, if_neg h, condition]

theorem kind_of_not_isFinite (h : ¬ x.IsFinite) :
    x.kind = if x.fraction = 0 then .infinity else .nan := by
  rw [kind, if_pos (not_not.mp h)]

theorem isFinite_of_kind (h : x.kind = .zero ∨ x.kind = .finite) : x.IsFinite := by
  by_contra infinite
  rw [kind_of_not_isFinite infinite] at h
  split_ifs at h <;> simp at h

theorem coefficient_pos (h : x.kind = .finite) : 0 < x.coefficient := by
  rw [kind_of_isFinite (isFinite_of_kind (.inr h))] at h
  by_contra zero
  simp [Nat.eq_zero_of_not_pos zero] at h

theorem not_isNaN (h : x.IsFinite) : x.isNaN = false := by
  rw [isNaN, kind_of_isFinite h]
  split_ifs <;> rfl

variable (K) in
theorem value_eq_zero_iff : x.value K = 0 ↔ x.coefficient = 0 := by
  have unit : (2 : K) ^ x.unitExponent ≠ 0 := zpow_ne_zero _ two_ne_zero
  rw [value_eq_withSign, withSign_eq_zero_iff, mul_eq_zero, or_iff_left unit, Nat.cast_eq_zero]

theorem value_negate : x.negate.value K = -x.value K := by
  rw [value_eq_withSign, value_eq_withSign]
  cases hs : x.sign <;> simp [negate, hs, coefficient, unitExponent]

theorem isFinite_negate (h : x.IsFinite) : x.negate.IsFinite := h

end Kind

theorem alignedSum_value (a p b q : ℤ) :
    ((alignedSum a p b q).1 : K) * 2 ^ (alignedSum a p b q).2 = a * 2 ^ p + b * 2 ^ q := by
  have two : (2 : K) ≠ 0 := two_ne_zero
  have aligned (c e : ℤ) (h : min p q ≤ e) :
      (c : K) * 2 ^ (e - min p q).toNat * 2 ^ min p q = c * 2 ^ e := by
    rw [mul_assoc, ← zpow_natCast, ← zpow_add₀ two]
    congr 2
    omega
  simp only [alignedSum, Int.shiftLeft_eq]
  push_cast
  rw [add_mul, aligned a p (min_le_left p q), aligned b q (min_le_right p q)]

end Fp

/-- The operations of arithmetic with two operands. -/
inductive BinaryOp where
  | add
  | sub
  | mul
  | div
  deriving DecidableEq, Repr

namespace BinaryOp

/-- The operation on encodings. -/
def apply (op : BinaryOp) (env : Environment) (a b : Fp f) : Raised (Fp f) :=
  match op with
  | add => Fp.add env a b
  | sub => Fp.sub env a b
  | mul => Fp.mul env a b
  | div => Fp.div env a b

/-- The operation on numbers. -/
def exact (op : BinaryOp) (x y : K) : K :=
  match op with
  | add => x + y
  | sub => x - y
  | mul => x * y
  | div => x / y

/-- The sign of an exact zero, from the signs of the operands: a sum of operands that agree in sign
keeps it, any other is negative in mode `down` only. -/
def zeroSign (op : BinaryOp) (mode : RoundingMode) (a b : Bool) : Bool :=
  match op with
  | add => if a = b then a else mode = .down
  | sub => if a = !b then a else mode = .down
  | mul | div => a ^^ b

end BinaryOp

variable [FloorRing K]

namespace Fp

section Operations

variable (env : Environment) {a b : Fp f}

theorem add_isRounded (regular : f.Regular) (ha : a.IsFinite) (hb : b.IsFinite) :
    IsRounded env (workingPrecision f env)
      (if a.sign = b.sign then a.sign else env.rounding = .down) (a.value K + b.value K)
      (add env a b) := by
  obtain ⟨hp, hpf⟩ := workingPrecision_bounds regular env
  have sum : add env a b = addFinite env a b := by
    have hka := kind_of_isFinite ha
    have hkb := kind_of_isFinite hb
    split_ifs at hka hkb <;> simp only [add, hka, hkb]
  rw [sum, addFinite, value, value, ← alignedSum_value]
  exact encodeDyadic_isRounded regular hp hpf env _ _ _

theorem mul_isRounded (regular : f.Regular) (ha : a.IsFinite) (hb : b.IsFinite) :
    IsRounded env (workingPrecision f env) (a.sign ^^ b.sign) (a.value K * b.value K)
      (mul env a b) := by
  obtain ⟨hp, hpf⟩ := workingPrecision_bounds regular env
  have hka := kind_of_isFinite ha
  have hkb := kind_of_isFinite hb
  by_cases hza : a.coefficient = 0
  · have product : mul env a b = pure (zero f (a.sign ^^ b.sign)) := by
      rw [if_pos hza] at hka
      split_ifs at hkb <;> simp only [mul, hka, hkb]
    rw [product, (value_eq_zero_iff K).mpr hza, zero_mul]
    exact zero_isRounded regular env _
  by_cases hzb : b.coefficient = 0
  · have product : mul env a b = pure (zero f (a.sign ^^ b.sign)) := by
      rw [if_neg hza] at hka
      rw [if_pos hzb] at hkb
      simp only [mul, hka, hkb]
    rw [product, (value_eq_zero_iff K).mpr hzb, mul_zero]
    exact zero_isRounded regular env _
  rw [if_neg hza] at hka
  rw [if_neg hzb] at hkb
  have denotes : (Magnitude.dyadic (a.coefficient * b.coefficient)
      (a.unitExponent + b.unitExponent)).Denotes
        (((a.coefficient * b.coefficient : ℕ) : K) * 2 ^ (a.unitExponent + b.unitExponent)) :=
    Magnitude.denotes_dyadic (Nat.mul_pos (by omega) (by omega)) _
  have value : a.value K * b.value K = withSign (a.sign ^^ b.sign)
      (((a.coefficient * b.coefficient : ℕ) : K) * 2 ^ (a.unitExponent + b.unitExponent)) := by
    rw [value_eq_withSign, value_eq_withSign, zpow_add₀ two_ne_zero]
    push_cast
    cases a.sign <;> cases b.sign <;> simp <;> ring
  simp only [mul, hka, hkb]
  rw [value]
  exact encode_isRounded _ regular hp hpf env _ denotes

theorem div_isRounded (regular : f.Regular) (ha : a.IsFinite) (hb : b.IsFinite)
    (nonzero : b.value K ≠ 0) :
    IsRounded env (workingPrecision f env) (a.sign ^^ b.sign) (a.value K / b.value K)
      (div env a b) := by
  obtain ⟨hp, hpf⟩ := workingPrecision_bounds regular env
  have hka := kind_of_isFinite ha
  have hkb := kind_of_isFinite hb
  have hzb : b.coefficient ≠ 0 := fun h => nonzero ((value_eq_zero_iff K).mpr h)
  rw [if_neg hzb] at hkb
  by_cases hza : a.coefficient = 0
  · rw [if_pos hza] at hka
    simp only [div, hka, hkb]
    rw [(value_eq_zero_iff K).mpr hza, zero_div]
    exact zero_isRounded regular env _
  rw [if_neg hza] at hka
  have denotes : (Magnitude.ratio a.coefficient b.coefficient
      (a.unitExponent - b.unitExponent)).Denotes
        ((a.coefficient : K) / b.coefficient * 2 ^ (a.unitExponent - b.unitExponent)) :=
    ⟨by omega, by omega, rfl⟩
  have value : a.value K / b.value K = withSign (a.sign ^^ b.sign)
      ((a.coefficient : K) / b.coefficient * 2 ^ (a.unitExponent - b.unitExponent)) := by
    rw [value_eq_withSign, value_eq_withSign, zpow_sub₀ two_ne_zero, div_mul_div_comm]
    cases a.sign <;> cases b.sign <;> simp [neg_div, div_neg]
  simp only [div, hka, hkb]
  rw [value]
  exact encode_isRounded _ regular hp hpf env _ denotes

end Operations

end Fp

/-- **Correct rounding.**  Sums, differences, products and quotients of finite operands, in every
format and environment, are the exact results rounded to the significant bits that results have
there, with just the flags that this raises. -/
theorem BinaryOp.apply_isRounded (op : BinaryOp)
    (hf : f ∈ [binary32, binary64, extended80, binary128]) (env : Environment) {a b : Fp f}
    (ha : a.IsFinite) (hb : b.IsFinite) (nonzero : op = .div → b.value K ≠ 0) :
    ∃ p, SignificantBits env f p ∧
      IsRounded env p (op.zeroSign env.rounding a.sign b.sign)
        (op.exact (a.value K) (b.value K)) (op.apply env a b) := by
  have regular := Format.regular_of_mem hf
  refine ⟨_, Fp.significantBits hf env, ?_⟩
  cases op with
  | add => exact Fp.add_isRounded env regular ha hb
  | sub =>
    have difference : Fp.sub env a b = Fp.add env a b.negate := by
      rw [Fp.sub, Fp.not_isNaN ha, Fp.not_isNaN hb]
      rfl
    have := Fp.add_isRounded (K := K) env regular ha (Fp.isFinite_negate hb)
    rw [Fp.value_negate, ← sub_eq_add_neg, ← difference] at this
    exact this
  | mul => exact Fp.mul_isRounded env regular ha hb
  | div => exact Fp.div_isRounded env regular ha hb (nonzero rfl)

namespace Fp

/-- The encoding of one. -/
def one (f : Format) : Fp f := ofFields f false f.bias (1 <<< (f.precision - 1))

/-- The encoding of three. -/
def three (f : Format) : Fp f := ofFields f false (f.bias + 1) (3 <<< (f.precision - 2))

omit [FloorRing K] in
theorem value_one (hf : f ∈ [binary32, binary64, extended80, binary128]) :
    (one f).IsFinite ∧ (one f).value K = 1 := by
  have bounds : 1 ≤ f.precision ∧ 1 ≤ f.bias ∧ f.bias < f.exponentMax := by
    simp only [List.mem_cons, List.not_mem_nil, or_false] at hf
    rcases hf with rfl | rfl | rfl | rfl <;> decide
  obtain ⟨finite, value⟩ := value_ofFields (K := K) (f := f) false (e := f.bias) (c := 1) (p := 1)
    le_rfl bounds.1 bounds.2.2 (by norm_num) (by rw [if_neg (by omega)]; norm_num)
  refine ⟨finite, value.trans ?_⟩
  rw [max_eq_right bounds.2.1]
  simp

omit [FloorRing K] in
theorem value_three (hf : f ∈ [binary32, binary64, extended80, binary128]) :
    (three f).IsFinite ∧ (three f).value K = 3 := by
  have bounds : 2 ≤ f.precision ∧ f.bias + 1 < f.exponentMax := by
    simp only [List.mem_cons, List.not_mem_nil, or_false] at hf
    rcases hf with rfl | rfl | rfl | rfl <;> decide
  obtain ⟨finite, value⟩ := value_ofFields (K := K) (f := f) false (e := f.bias + 1) (c := 3)
    (p := 2) (by norm_num) bounds.1 bounds.2 (by norm_num) (by rw [if_neg (by omega)]; norm_num)
  refine ⟨finite, value.trans ?_⟩
  rw [max_eq_right (by omega)]
  simp

end Fp

/-- One third, in single precision and in extended precision rounded to all three numbers of
bits. -/
theorem third_isRounded :
    let third (f : Format) (env : Environment) : Raised (Fp f) := Fp.div env (Fp.one f) (Fp.three f)
    let keeping (precision : Precision) : Environment := ⟨.nearestEven, .beforeRounding, precision⟩
    (IsRounded default 24 false (1 / 3 : ℚ) (third binary32 default) ∧
      third binary32 default = ⟨Fp.ofFields _ false 0x7D 0x2AAAAB, Flags.inexact⟩) ∧
    (IsRounded (keeping .single) 24 false (1 / 3 : ℚ) (third extended80 (keeping .single)) ∧
      third extended80 (keeping .single) = ⟨⟨false, 0x3FFD, 0xAAAAAB0000000000⟩, Flags.inexact⟩) ∧
    (IsRounded (keeping .double) 53 false (1 / 3 : ℚ) (third extended80 (keeping .double)) ∧
      third extended80 (keeping .double) = ⟨⟨false, 0x3FFD, 0xAAAAAAAAAAAAA800⟩, Flags.inexact⟩) ∧
    IsRounded (keeping .extended) 64 false (1 / 3 : ℚ) (third extended80 (keeping .extended)) ∧
      third extended80 (keeping .extended) =
        ⟨⟨false, 0x3FFD, 0xAAAAAAAAAAAAAAAB⟩, Flags.inexact⟩ := by
  intro third keeping
  have rounds {f : Format} (hf : f ∈ [binary32, binary64, extended80, binary128])
      (env : Environment) :
      ∃ p, SignificantBits env f p ∧ IsRounded env p false (1 / 3 : ℚ) (third f env) := by
    obtain ⟨finite, one⟩ := Fp.value_one (K := ℚ) hf
    obtain ⟨finite', three⟩ := Fp.value_three (K := ℚ) hf
    have rounded := BinaryOp.apply_isRounded (K := ℚ) .div hf env finite finite'
      (fun _ => by rw [three]; norm_num)
    rw [one, three] at rounded
    exact rounded
  have single := rounds (f := binary32) (by simp) default
  have toSingle := rounds (f := extended80) (by simp) (keeping .single)
  have toDouble := rounds (f := extended80) (by simp) (keeping .double)
  have extended := rounds (f := extended80) (by simp) (keeping .extended)
  refine ⟨⟨?_, by decide +kernel⟩, ⟨?_, by decide +kernel⟩, ⟨?_, by decide +kernel⟩, ?_,
    by decide +kernel⟩
  · obtain ⟨p, bits, rounded⟩ := single
    cases bits
    exact rounded
  · obtain ⟨p, bits, rounded⟩ := toSingle
    cases bits with
    | extendedToSingle => exact rounded
    | extendedToDouble asked | extended asked => cases asked
  · obtain ⟨p, bits, rounded⟩ := toDouble
    cases bits with
    | extendedToDouble => exact rounded
    | extendedToSingle asked | extended asked => cases asked
  · obtain ⟨p, bits, rounded⟩ := extended
    cases bits with
    | extended => exact rounded
    | extendedToSingle asked | extendedToDouble asked => cases asked

end M68k
