import M68k.Proofs.Fp.WorkingArithmetic
import M68k.Proofs.Fp.WorkingRounding

/-!
# Arithmetic on encodings in machine words

Unpacked operands are numbers in working form, the kernels have results that stand for the exact
ones, and these are rounded as if they were exact.  So the operations on encodings, computed in
machine words, have the results that they are to have.

* `add_eq`, `sub_eq`, `mul_eq`, `div_eq`, `sqrt_eq`, `remainder_eq` — operation by operation.
-/

namespace M68k

namespace Checked

open Fp Wide Working

variable {f : Format}

theorem signed_eq_value {x : Fp f} {w : Working} (h : Unpacks x w) : w.signed = x.value ℚ := by
  rw [Working.signed, h.sign, h.size_eq, value_eq_withSign]

/-- An operand stands for its number. -/
theorem Unpacks.holds {x : Fp f} {w : Working} (h : Unpacks x w) (zeroSign : Bool) :
    w.Holds zeroSign (x.value ℚ) := by
  rw [← signed_eq_value h]
  exact h.operand.standsFor.holds rfl zeroSign

/-- The same number with another sign. -/
theorem Unpacks.withSign {x : Fp f} {w : Working} (h : Unpacks x w) (sign : Bool) :
    Unpacks ({ x with sign } : Fp f) { w with sign } :=
  ⟨⟨h.operand.normal, h.operand.clear, h.operand.range⟩, rfl, h.exponent, h.significand⟩

section Sum

variable (narrow : f.Narrow) (env : Environment) {a b : Fp f}
include narrow

/-- Working precisions are within the format. -/
theorem workingPrecision_within :
    1 ≤ workingPrecision f env ∧ workingPrecision f env ≤ f.precision :=
  workingPrecision_bounds narrow.toRegular env

/-- A number in working form for the sum is rounded to the sum. -/
theorem roundPack_sum {w : Working}
    (h : w.Holds (if a.sign = b.sign then a.sign else env.rounding = .down)
      (a.value ℚ + b.value ℚ)) :
    roundPack f env w (workingPrecision f env) = some (addFinite env a b) := by
  obtain ⟨low, high⟩ := workingPrecision_within narrow env
  exact roundPack_of_holds narrow high low env h (alignedSum_value _ _ _ _)

/-- The sum of two zeros. -/
theorem addFinite_zeros (ha : a.kind = .zero) (hb : b.kind = .zero) :
    addFinite env a b =
      pure (Fp.zero f (if a.sign = b.sign then a.sign else env.rounding = .down)) := by
  have sum : a.value ℚ + b.value ℚ = 0 := by
    rw [value_of_kind_zero ha, value_of_kind_zero hb, add_zero]
  have held := roundPack_sum narrow env (a := a) (b := b) (sum.symm ▸ holds_zero (K := ℚ) _)
  rw [← Option.some_inj, ← held]
  exact congrArg (fun z => some (pure z)) (zero_eq _)

/-- Sum and difference of numbers. -/
theorem addWith_eq (negated : Bool) (ha : a.kind ≠ .nan) (hb : b.kind ≠ .nan) :
    addWith negated env a b = some (Fp.add env a { b with sign := b.sign ^^ negated }) := by
  have same : Fp.kind { b with sign := b.sign ^^ negated } = b.kind := rfl
  unfold addWith Fp.add
  rw [kind_eq narrow, kind_eq narrow, same]
  generalize (b.sign ^^ negated) = sign
  refine Yields.eq_some (.step rfl (.step rfl ?_))
  cases hka : a.kind with
  | nan => exact absurd hka ha
  | infinity =>
    cases hkb : b.kind with
    | nan => exact absurd hkb hb
    | infinity =>
      dsimp only
      split_ifs
      · exact .some rfl
      · rw [invalid_eq narrow]
        exact .some rfl
    | zero => exact .some rfl
    | finite => exact .some rfl
  | zero =>
    cases hkb : b.kind with
    | nan => exact absurd hkb hb
    | infinity => exact .step (infinity_eq narrow _) (.some rfl)
    | zero =>
      have zeros := addFinite_zeros narrow env hka (b := { b with sign }) hkb
      have signs : (if a.sign = sign then sign else env.rounding = .down : Bool) =
          if a.sign = sign then a.sign else env.rounding = .down := by
        split_ifs with equal
        · exact equal.symm
        · rfl
      dsimp only
      rw [zeros, zero_eq, signs]
      exact .some rfl
    | finite =>
      refine (unpack_yields narrow hkb).bind fun w unpacked => ?_
      have held := (unpacked.withSign sign).holds
        (if a.sign = sign then a.sign else env.rounding = .down)
      rw [← zero_add (value ℚ _), ← value_of_kind_zero (K := ℚ) hka] at held
      rw [roundPack_sum narrow env (a := a) (b := { b with sign }) held]
      exact .some rfl
  | finite =>
    cases hkb : b.kind with
    | nan => exact absurd hkb hb
    | infinity => exact .step (infinity_eq narrow _) (.some rfl)
    | zero =>
      have none := value_of_kind_zero (K := ℚ) (x := { b with sign }) hkb
      refine (unpack_yields narrow hka).bind fun w unpacked => ?_
      have held := unpacked.holds (if a.sign = sign then a.sign else env.rounding = .down)
      rw [← add_zero (value ℚ a), ← none] at held
      rw [roundPack_sum narrow env (a := a) (b := { b with sign }) held]
      exact .some rfl
    | finite =>
      refine (unpack_yields narrow hka).bind fun v first => ?_
      refine (unpack_yields narrow hkb).bind fun w second => ?_
      have second := second.withSign sign
      have zeroSign (other : v.sign ≠ sign) :
          (if a.sign = sign then a.sign else env.rounding = .down : Bool) =
            decide (env.rounding = .down) := by
        rw [if_neg (first.sign ▸ other)]
      refine (add_yields env.rounding first.operand second.operand zeroSign).bind fun sum held => ?_
      rw [signed_eq_value first, signed_eq_value second] at held
      rw [roundPack_sum narrow env (a := a) (b := { b with sign }) held]
      exact .some rfl

/-- A NaN among the operands. -/
theorem addWith_eq_of_nan (negated : Bool) (nan : a.kind = .nan ∨ b.kind = .nan) :
    addWith negated env a b = some (Fp.propagateNaN a b) := by
  unfold addWith
  rw [kind_eq narrow, kind_eq narrow]
  refine Yields.eq_some (.step rfl (.step rfl ?_))
  rw [propagateNaN_eq narrow]
  rcases nan with first | second
  · rw [first]
    exact .some rfl
  · rw [second]
    cases a.kind <;> exact .some rfl

theorem add_eq : add env a b = some (Fp.add env a b) := by
  by_cases nan : a.kind = .nan ∨ b.kind = .nan
  · have result : Fp.add env a b = Fp.propagateNaN a b := by
      unfold Fp.add
      rcases nan with first | second
      · rw [first]
      · rw [second]
        cases a.kind <;> rfl
    rw [result]
    exact addWith_eq_of_nan narrow env false nan
  · have same : ({ b with sign := b.sign ^^ false } : Fp f) = b := by rw [Bool.xor_false]
    have sum := addWith_eq narrow env false (not_or.mp nan).1 (not_or.mp nan).2
    rwa [same] at sum

theorem sub_eq : sub env a b = some (Fp.sub env a b) := by
  unfold Fp.sub Fp.isNaN
  by_cases nan : a.kind = .nan ∨ b.kind = .nan
  · rw [if_pos (by simpa using nan)]
    exact addWith_eq_of_nan narrow env true nan
  · have same : ({ b with sign := b.sign ^^ true } : Fp f) = b.negate := by
      rw [Bool.xor_true]
      rfl
    have sum := addWith_eq narrow env true (not_or.mp nan).1 (not_or.mp nan).2
    rw [if_neg (by simpa using nan)]
    rwa [same] at sum

end Sum

/-! ## Products, quotients and roots -/

section

variable (narrow : f.Narrow) (env : Environment) (a b : Fp f)

theorem denotes_product {a b : Fp f} (ha : a.kind = .finite) (hb : b.kind = .finite) :
    (Magnitude.dyadic (a.coefficient * b.coefficient) (a.unitExponent + b.unitExponent)).Denotes
      ((a.coefficient : ℚ) * 2 ^ a.unitExponent * (b.coefficient * 2 ^ b.unitExponent)) := by
  refine ⟨Nat.mul_pos (coefficient_pos ha) (coefficient_pos hb), Nat.one_pos, ?_⟩
  rw [zpow_add₀ two_ne_zero]
  push_cast
  ring

theorem denotes_quotient {a b : Fp f} (ha : a.kind = .finite) (hb : b.kind = .finite) :
    (Magnitude.ratio a.coefficient b.coefficient (a.unitExponent - b.unitExponent)).Denotes
      ((a.coefficient : ℚ) * 2 ^ a.unitExponent / (b.coefficient * 2 ^ b.unitExponent)) := by
  refine ⟨coefficient_pos ha, coefficient_pos hb, ?_⟩
  rw [zpow_sub₀ two_ne_zero, div_mul_div_comm]

include narrow

/-- What a kernel finds for two operands is rounded like the number that it stands for. -/
theorem roundPack_kernel (op : ℚ → ℚ → ℚ) {a b : Fp f} (ha : a.kind = .finite)
    (hb : b.kind = .finite) {kernel : Working → Working → Option Working} {x : Magnitude}
    (yields : ∀ {v w : Working}, v.Operand → w.Operand → Yields (kernel v w) fun r =>
      r.sign = (v.sign ^^ w.sign) ∧ r.StandsFor (op (v.size ℚ) (w.size ℚ)))
    (denotes : x.Denotes
      (op (a.coefficient * 2 ^ a.unitExponent) (b.coefficient * 2 ^ b.unitExponent))) :
    Yields (do roundPack f env (← kernel (← unpack a) (← unpack b)) (workingPrecision f env))
      (· = Fp.encode f env (workingPrecision f env) (a.sign ^^ b.sign) x) := by
  obtain ⟨low, high⟩ := workingPrecision_within narrow env
  refine (unpack_yields narrow ha).bind fun v first => ?_
  refine (unpack_yields narrow hb).bind fun w second => ?_
  refine (yields first.operand second.operand).bind fun r stands => ?_
  obtain ⟨sign, stands⟩ := stands
  rw [first.size_eq, second.size_eq] at stands
  rw [roundPack_of_standsFor narrow high low env stands denotes, sign, first.sign, second.sign]
  exact .some rfl

theorem mul_eq : mul env a b = some (Fp.mul env a b) := by
  unfold mul Fp.mul
  rw [kind_eq narrow, kind_eq narrow]
  refine Yields.eq_some (.step rfl (.step rfl ?_))
  rw [propagateNaN_eq narrow, invalid_eq narrow, infinity_eq narrow, zero_eq]
  cases ha : a.kind with
  | finite =>
    cases hb : b.kind with
    | finite =>
      exact roundPack_kernel narrow env (· * ·) ha hb mul_yields (denotes_product ha hb)
    | _ => exact .some rfl
  | _ => cases b.kind <;> exact .some rfl

theorem div_eq : div env a b = some (Fp.div env a b) := by
  unfold div Fp.div
  rw [kind_eq narrow, kind_eq narrow]
  refine Yields.eq_some (.step rfl (.step rfl ?_))
  rw [propagateNaN_eq narrow, invalid_eq narrow, infinity_eq narrow, zero_eq]
  cases ha : a.kind with
  | finite =>
    cases hb : b.kind with
    | finite =>
      exact roundPack_kernel narrow env (· / ·) ha hb div_yields (denotes_quotient ha hb)
    | _ => exact .some rfl
  | _ => cases b.kind <;> exact .some rfl

theorem sqrt_eq : sqrt env a = some (Fp.sqrt env a) := by
  obtain ⟨low, high⟩ := workingPrecision_within narrow env
  unfold sqrt Fp.sqrt
  rw [kind_eq narrow]
  refine Yields.eq_some (.step rfl ?_)
  rw [propagateNaN_eq narrow, invalid_eq narrow]
  cases ha : a.kind with
  | nan => exact .some rfl
  | zero => exact .some rfl
  | infinity =>
    dsimp only
    split_ifs <;> exact .some rfl
  | finite =>
    dsimp only
    split_ifs
    · exact .some rfl
    · refine (unpack_yields narrow ha).bind fun v unpacked => ?_
      refine (sqrt_yields unpacked.operand).bind fun root stands => ?_
      obtain ⟨sign, stands⟩ := stands
      rw [unpacked.size_eq] at stands
      rw [roundPack_of_standsFor narrow high low env stands
        (denotes_rootMagnitude (coefficient_pos ha) a.unitExponent), sign]
      exact .some rfl

/-! ## Remainders -/

omit narrow in
/-- The rest in working form belongs to the quotient that the division to an integer finds. -/
theorem divideToInteger_of_isRemainder {nearest : Bool} {v w : Working} {r : Working × BitVec 64}
    (first : Unpacks a v) (second : Unpacks b w) (hb : b.kind = .finite)
    (h : IsRemainder nearest v w r) :
    let found := divideToInteger nearest a.coefficient a.unitExponent b.coefficient b.unitExponent
    r.2 = BitVec.ofNat 64 found.1 ∧
      r.1.Holds a.sign (((if a.sign then -found.2.1 else found.2.1 : ℤ) : ℚ) * 2 ^ found.2.2) := by
  intro found
  obtain ⟨parts, splits, quotient, rest⟩ := h
  obtain ⟨parts', splits', quotient', rest'⟩ := divideToInteger_spec nearest a.coefficient
    a.unitExponent (coefficient_pos hb) b.unitExponent
  rw [first.size_eq, second.size_eq] at splits rest
  obtain rfl := splits.unique splits'
  rw [← quotient'] at quotient rest
  rw [← rest', first.sign] at rest
  have signed : withSign a.sign ((found.2.1 : ℚ) * 2 ^ found.2.2) =
      ((if a.sign then -found.2.1 else found.2.1 : ℤ) : ℚ) * 2 ^ found.2.2 := by
    cases a.sign
    · rfl
    · push_cast
      exact (neg_mul ..).symm
  exact ⟨quotient, signed ▸ rest⟩

theorem remainder_eq (nearest : Bool) :
    remainder env nearest a b = some (Fp.remainder env nearest a b) := by
  have clean (r : Raised (Fp f)) (quotient : BitVec 64) (negative : Bool) :
      (⟨⟨r.value, quotient, negative⟩, r.flags⟩ : Raised (Fp.Remainder f)) =
        (do return ⟨← r, quotient, negative⟩) :=
    congrArg (Raised.mk _) BitVec.or_zero.symm
  unfold remainder Fp.remainder
  rw [kind_eq narrow, kind_eq narrow]
  refine Yields.eq_some (.step rfl (.step rfl ?_))
  rw [propagateNaN_eq narrow, invalid_eq narrow]
  cases ha : a.kind with
  | finite =>
    cases hb : b.kind with
    | finite =>
      refine (unpack_yields narrow ha).bind fun v first => ?_
      refine (unpack_yields narrow hb).bind fun w second => ?_
      refine (remainder_yields nearest first.operand second.operand).bind fun r found => ?_
      obtain ⟨quotient, rest⟩ := divideToInteger_of_isRemainder a b first second hb found
      refine .step (roundPack_of_holds narrow le_rfl narrow.precision_pos env rest rfl) (.some ?_)
      rw [quotient]
      exact clean _ _ _
    | infinity => exact .some rfl
    | _ => exact .some (clean _ _ _)
  | _ => cases b.kind <;> first | exact .some rfl | exact .some (clean _ _ _)

end

end Checked

end M68k
