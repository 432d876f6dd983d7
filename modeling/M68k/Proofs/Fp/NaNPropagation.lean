import M68k.Proofs.Fp.RangeFlags
import M68k.Proofs.Fp.Widening

/-!
# What operations make of NaNs

The first NaN among the operands is the result, made quiet, with its sign and payload.  Whatever the
operands are, no result is a signalling NaN, and a signalling operand makes the operation invalid.

* `isNaN_encode` — rounding never ends in a NaN;
* `PropagatesNaN` — what an operation makes of NaNs among its operands;
* `propagatesNaN_add` and the like — the operations, one by one.
-/

namespace M68k

namespace Fp

variable {f : Format}

/-! ## Quiet NaNs -/

theorem fraction_quiet (hp : 2 ≤ f.precision) (x : Fp f) :
    x.quiet.fraction = x.fraction ||| 2 ^ (f.fractionBits - 1) := by
  apply Nat.eq_of_testBit_eq
  intro i
  rw [testBit_fraction, quiet, BitVec.getLsbD_or, getLsbD_quietMask hp, Nat.testBit_or,
    testBit_fraction, Nat.testBit_two_pow]
  by_cases inside : i < f.fractionBits
  · simp [inside, inside.ne, eq_comm]
  · have above : f.fractionBits - 1 ≠ i := by
      simp only [Format.fractionBits] at inside ⊢
      omega
    simp [inside, above]

theorem quietBit_quiet (hp : 2 ≤ f.precision) (x : Fp f) : x.quiet.quietBit = true := by
  rw [quietBit, quiet, BitVec.getLsbD_or, getLsbD_quietMask hp, decide_eq_true rfl, Bool.true_or,
    Bool.or_true]

theorem isSignaling_quiet (hp : 2 ≤ f.precision) (x : Fp f) : x.quiet.isSignaling = false := by
  rw [isSignaling, quietBit_quiet hp, Bool.not_true, Bool.and_false]

theorem isNaN_quiet (hp : 2 ≤ f.precision) (x : Fp f) : x.quiet.isNaN = true := by
  have exponent : x.quiet.exponent.toNat = f.exponentMax := toNat_allOnes_exponent
  have fraction : x.quiet.fraction ≠ 0 := by
    rw [fraction_quiet hp]
    intro none
    exact (Nat.two_pow_pos _).ne' (Nat.or_eq_zero_iff.mp none).2
  rw [isNaN, kind, if_pos exponent, if_neg fraction]
  rfl

/-- Whether a NaN is another one made quiet, with the sign and the payload kept. -/
structure Quieted (x y : Fp f) : Prop where
  nan : y.isNaN = true
  quiet : y.isSignaling = false
  sign : y.sign = x.sign
  payload : y.fraction = x.fraction ||| 2 ^ (f.fractionBits - 1)

theorem quieted_quiet (hp : 2 ≤ f.precision) (x : Fp f) : Quieted x x.quiet :=
  ⟨isNaN_quiet hp x, isSignaling_quiet hp x, rfl, fraction_quiet hp x⟩

/-- A NaN that is quiet already. -/
theorem quieted_self (hp : 2 ≤ f.precision) {x : Fp f} (nan : x.isNaN = true)
    (quiet : x.isSignaling = false) : Quieted x x := by
  refine ⟨nan, quiet, rfl, ?_⟩
  have bit := testBit_fraction_of_quiet hp nan quiet
  apply Nat.eq_of_testBit_eq
  intro i
  rw [Nat.testBit_or, Nat.testBit_two_pow]
  by_cases top : f.fractionBits - 1 = i
  · simp [← top, bit]
  · simp [top]

theorem Quieted.trans {x y z : Fp f} (first : Quieted x y) (second : Quieted y z) :
    Quieted x z := by
  refine ⟨second.nan, second.quiet, second.sign.trans first.sign, ?_⟩
  rw [second.payload, first.payload, Nat.or_assoc, Nat.or_self]

/-! ## Results that are no signalling NaNs -/

theorem isSignaling_of_number {x : Fp f} (number : x.isNaN = false) : x.isSignaling = false := by
  rw [isSignaling, number, Bool.false_and]

@[grind =]
theorem isNaN_infinity (sign : Bool) : (infinity f sign).isNaN = false := by
  rw [isNaN, kind_infinity]
  rfl

/-- Rounding never ends in a NaN. -/
theorem isNaN_encode (regular : f.Regular) (env : Environment) (p : ℕ) (sign : Bool)
    (x : Magnitude) : (encode f env p sign x).value.isNaN = false := by
  have exponents := regular.exponentMax_ge
  have below {e : ℕ} (c : ℕ) (small : e < f.exponentMax) :
      (ofFields f sign e c).isNaN = false := by
    have exponent : (ofFields f sign e c).exponent.toNat = e := by
      rw [ofFields, BitVec.toNat_ofNat, Nat.mod_eq_of_lt (small.trans exponentMax_lt)]
    exact not_isNaN (by rw [IsFinite, exponent]; exact small.ne)
  obtain shape | ⟨exponent, significand, inexact, tiny, small, shape⟩ :=
    encode_shape (f := f) env p sign x
  · rw [shape, overflow]
    split
    · exact isNaN_infinity sign
    · exact below _ (Nat.sub_lt (by omega) one_pos)
  · rw [shape]
    exact below significand small

end Fp

/-- Whether the result is no signalling NaN. -/
def Raised.Quiet {f : Format} (r : Raised (Fp f)) : Prop := r.value.isSignaling = false

/-- What an operation makes of NaNs: the first among the operands is the result, made quiet, and
signalling operands make it invalid. -/
structure PropagatesNaN {f : Format} (operands : List (Fp f)) (r : Raised (Fp f)) : Prop where
  quiet : r.Quiet
  first : ∀ x, operands.find? Fp.isNaN = some x → Fp.Quieted x r.value
  invalid : operands.any Fp.isSignaling = true → r.flags.includes Flags.invalid = true

namespace Extended

open Fp

variable (env : Environment)

@[grind =]
theorem isNaN_zero (sign : Bool) : (zero extended80 sign).isNaN = false :=
  not_isNaN (isFinite_zero regular sign)

section Quiet

variable {x : Extended}

@[grind .]
theorem quiet_of_number (number : x.isNaN = false) (flags : Flags) :
    Raised.Quiet ⟨x, flags⟩ := isSignaling_of_number number

@[grind .]
theorem quiet_pure (number : x.isNaN = false) : (pure x : Raised Extended).Quiet :=
  isSignaling_of_number number

@[grind .]
theorem quiet_pure_value {r : Raised Extended} (quiet : r.Quiet) :
    (pure r.value : Raised Extended).Quiet := quiet

@[grind .]
theorem quiet_bind {α : Type} {r : Raised α} {next : α → Raised Extended}
    (last : (next r.value).Quiet) : (r >>= next).Quiet := last

@[grind .]
theorem quiet_encode (p : ℕ) (sign : Bool) (x : Magnitude) :
    (encode extended80 env p sign x).Quiet :=
  isSignaling_of_number (isNaN_encode regular env p sign x)

@[grind .]
theorem quiet_encodeDyadic (p : ℕ) (zeroSign : Bool) (c e : ℤ) :
    (encodeDyadic extended80 env p zeroSign c e).Quiet := by
  unfold encodeDyadic
  split
  · exact quiet_pure (isNaN_zero zeroSign)
  · exact quiet_encode env _ _ _

@[grind .]
theorem quiet_invalid : (invalid extended80).Quiet := by
  show (defaultNaN extended80).isSignaling = false
  decide

@[grind .]
theorem quiet_propagateNaN (a b : Extended) : (propagateNaN a b).Quiet := by
  show (if a.isNaN then a.quiet else b.quiet).isSignaling = false
  split <;> exact isSignaling_quiet (by decide) _

end Quiet

/-! ## One operand -/

section Unary

/-- An operation that propagates the NaN that is its operand. -/
theorem propagatesNaN_one {x : Extended} {r : Raised Extended}
    (nan : x.kind = .nan → r = propagateNaN x x) (number : x.isNaN = false → r.Quiet) :
    PropagatesNaN [x] r := by
  cases found : x.isNaN with
  | false =>
    refine ⟨number found, ?_, ?_⟩
    · simp [found]
    · simp [isSignaling_of_number found]
  | true =>
    obtain rfl := nan (by simpa [isNaN] using found)
    have value : (propagateNaN x x).value = x.quiet := if_pos found
    refine ⟨quiet_propagateNaN x x, ?_, ?_⟩
    · intro y first
      obtain rfl : x = y := by simpa [found] using first
      rw [value]
      exact quieted_quiet (by decide) x
    · intro signaling
      have signaling : x.isSignaling = true := by simpa using signaling
      show (Flags.when (x.isSignaling || x.isSignaling) Flags.invalid).includes Flags.invalid = true
      rw [signaling]
      decide

/-- An operation on what another one makes of the operand. -/
theorem propagatesNaN_bind {x : Extended} {r : Raised Extended} {next : Extended → Raised Extended}
    (first : PropagatesNaN [x] r) (rest : ∀ y, PropagatesNaN [y] (next y)) :
    PropagatesNaN [x] (r >>= next) := by
  refine ⟨(rest r.value).quiet, ?_, ?_⟩
  · intro y found
    have before := first.first y found
    exact before.trans ((rest r.value).first r.value (by simp [before.nan]))
  · intro signaling
    rw [Raised.bind_flags, Flags.includes_or (by decide), first.invalid signaling, Bool.true_or]

variable (x : Extended)

theorem propagatesNaN_sqrt : PropagatesNaN [x] (sqrt env x) := by
  refine propagatesNaN_one (fun nan => by simp only [sqrt, nan]) fun number => ?_
  unfold sqrt
  grind

theorem propagatesNaN_roundToIntegral (mode : RoundingMode) :
    PropagatesNaN [x] (roundToIntegral env mode x) := by
  refine propagatesNaN_one (fun nan => by simp only [roundToIntegral, nan]) fun number => ?_
  unfold roundToIntegral
  grind

theorem propagatesNaN_scale (n : ℤ) : PropagatesNaN [x] (scale env x n) := by
  refine propagatesNaN_one (fun nan => by simp only [scale, nan]) fun number => ?_
  unfold scale
  grind

theorem propagatesNaN_getExponent : PropagatesNaN [x] (getExponent env x) := by
  refine propagatesNaN_one (fun nan => by simp only [getExponent, nan]) fun number => ?_
  unfold getExponent ofInt
  grind

theorem propagatesNaN_getMantissa : PropagatesNaN [x] (getMantissa env x) := by
  refine propagatesNaN_one (fun nan => by simp only [getMantissa, nan]) fun number => ?_
  unfold getMantissa
  grind

/-- Rounding to a precision leaves a quiet NaN as it is encoded. -/
theorem propagatesNaN_roundToPrecision : PropagatesNaN [x] (roundToPrecision env x) := by
  by_cases still : x.isNaN = true ∧ x.isSignaling = false
  · obtain ⟨nan, quiet⟩ := still
    have kind : x.kind = .nan := by simpa [isNaN] using nan
    have same : roundToPrecision env x = pure x := by simp [roundToPrecision, kind, quiet]
    rw [same]
    refine ⟨quiet, ?_, ?_⟩
    · intro y first
      obtain rfl : x = y := by simpa [nan] using first
      exact quieted_self (by decide) nan quiet
    · simp [quiet]
  · refine propagatesNaN_one (fun nan => ?_) fun number => ?_
    · have signaling : x.isSignaling = true := by simpa [isNaN, nan] using still
      simp [roundToPrecision, nan, signaling]
    · unfold roundToPrecision
      grind

end Unary

/-! ## Two operands -/

section Binary

/-- An operation that propagates the first NaN of its operands. -/
theorem propagatesNaN_two {a b : Extended} {r : Raised Extended}
    (left : a.kind = .nan → r = propagateNaN a b) (right : b.kind = .nan → r = propagateNaN a b)
    (numbers : a.isNaN = false → b.isNaN = false → r.Quiet) : PropagatesNaN [a, b] r := by
  cases found : a.isNaN || b.isNaN with
  | false =>
    obtain ⟨ha, hb⟩ := Bool.or_eq_false_iff.mp found
    refine ⟨numbers ha hb, ?_, ?_⟩
    · simp [ha, hb]
    · simp [isSignaling_of_number ha, isSignaling_of_number hb]
  | true =>
    obtain rfl : r = propagateNaN a b := by
      obtain nan | nan := Bool.or_eq_true_iff.mp found
      · exact left (by simpa [isNaN] using nan)
      · exact right (by simpa [isNaN] using nan)
    refine ⟨quiet_propagateNaN a b, ?_, ?_⟩
    · intro y first
      have chosen : y = if a.isNaN then a else b := by
        cases ha : a.isNaN <;> simp_all
      show Quieted y (if a.isNaN then a.quiet else b.quiet)
      rw [chosen]
      split <;> exact quieted_quiet (by decide) _
    · intro signaling
      have signaling : (a.isSignaling || b.isSignaling) = true := by simpa using signaling
      show (Flags.when (a.isSignaling || b.isSignaling) Flags.invalid).includes Flags.invalid = true
      rw [signaling]
      decide

variable (a b : Extended)

theorem propagatesNaN_add : PropagatesNaN [a, b] (add env a b) := by
  refine propagatesNaN_two (fun nan => by simp only [add, nan])
    (fun nan => by cases ha : a.kind <;> simp only [add, ha, nan]) fun ha hb => ?_
  unfold add addFinite
  grind

theorem propagatesNaN_sub : PropagatesNaN [a, b] (sub env a b) := by
  have negated : b.negate.isNaN = b.isNaN := rfl
  refine propagatesNaN_two (fun nan => by simp [sub, isNaN, nan])
    (fun nan => by simp [sub, isNaN, nan]) fun ha hb => ?_
  have last := (propagatesNaN_add env a b.negate).quiet
  simpa [sub, ha, hb] using last

theorem propagatesNaN_mul : PropagatesNaN [a, b] (mul env a b) := by
  refine propagatesNaN_two (fun nan => by simp only [mul, nan])
    (fun nan => by cases ha : a.kind <;> simp only [mul, ha, nan]) fun ha hb => ?_
  unfold mul
  grind

theorem propagatesNaN_div : PropagatesNaN [a, b] (div env a b) := by
  refine propagatesNaN_two (fun nan => by simp only [div, nan])
    (fun nan => by cases ha : a.kind <;> simp only [div, ha, nan]) fun ha hb => ?_
  unfold div
  grind

theorem propagatesNaN_remainder (nearest : Bool) :
    PropagatesNaN [a, b]
      ⟨(remainder env nearest a b).value.value, (remainder env nearest a b).flags⟩ := by
  have returned (r : Raised Extended) : (⟨r.value, r.flags ||| Flags.none⟩ : Raised Extended) = r :=
    congrArg (Raised.mk r.value) BitVec.or_zero
  refine propagatesNaN_two
    (fun nan => by simp only [remainder, nan]; exact returned _)
    (fun nan => by cases ha : a.kind <;> simp only [remainder, ha, nan] <;> exact returned _)
    fun ha hb => ?_
  unfold remainder
  dsimp only
  split
  · exact quiet_propagateNaN a b
  · exact quiet_propagateNaN a b
  · exact quiet_invalid
  · exact quiet_invalid
  · exact isSignaling_of_number ha
  · exact isSignaling_of_number ha
  · exact quiet_encodeDyadic env _ _ _ _

end Binary

end Extended

end M68k
