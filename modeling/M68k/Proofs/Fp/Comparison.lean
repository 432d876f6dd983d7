import M68k.Proofs.Fp.Order

/-!
# Comparisons

A comparison finds the order of the numbers that its operands stand for as extended reals, and none
where one of them is a NaN.  The relations that are asked for by name are those of the numbers, so
that a NaN is in none of them.  A flag is raised for NaNs only: for every one by a signalling
comparison, and for signalling ones by a quiet one.

* `Comparison` — the relations, each with a signalling and a quiet form;
* `compareWith_value`, `compareWith_flags` — three-way comparison;
* `compares_numbers` — all comparisons together.
-/

namespace M68k

namespace Fp

variable {f : Format}

/-- The relations that numbers are tested for. -/
inductive Comparison where
  | equal
  | lessThan
  | lessEqual
  deriving DecidableEq, Repr

namespace Comparison

/-- The test of two encodings, signalling or quiet. -/
def test (signaling : Bool) : Comparison → Fp f → Fp f → Raised Bool
  | equal => if signaling then Fp.equalSignaling else Fp.equal
  | lessThan => if signaling then Fp.lessThan else Fp.lessThanQuiet
  | lessEqual => if signaling then Fp.lessEqual else Fp.lessEqualQuiet

/-- The relation of two numbers. -/
def Holds (x y : EReal) : Comparison → Prop
  | equal => x = y
  | lessThan => x < y
  | lessEqual => x ≤ y

/-- The orders in which numbers have a relation. -/
def admits (order : Ordering) : Comparison → Bool
  | equal => order == .eq
  | lessThan => order == .lt
  | lessEqual => order.isLE

theorem admits_compare_iff (relation : Comparison) (x y : EReal) :
    relation.admits (compare x y) = true ↔ relation.Holds x y := by
  cases relation with
  | equal => exact beq_iff_eq.trans compare_eq_iff_eq
  | lessThan => exact beq_iff_eq.trans compare_lt_iff_lt
  | lessEqual => exact Ordering.isLE_iff_ne_gt.trans compare_le_iff_le

/-- Each test looks at the order that the three-way comparison of its kind finds. -/
theorem test_eq (relation : Comparison) (signaling : Bool) (a b : Fp f) :
    relation.test signaling a b =
      ⟨(compareWith signaling a b).value.any relation.admits,
        (compareWith signaling a b).flags⟩ := by
  have found (o : Ordering) (order : Option Ordering) :
      decide (order = some o) = order.any (· == o) := by
    cases order <;> simp [beq_eq_decide]
  have same {r : Raised (Option Ordering)} {p q : Option Ordering → Bool}
      (h : ∀ order, p order = q order) :
      (do return p (← r)) = (⟨q r.value, r.flags⟩ : Raised Bool) := by
    rw [← h]
    exact congrArg (Raised.mk _) BitVec.or_zero
  cases relation with
  | equal => cases signaling <;> exact same (found .eq)
  | lessThan => cases signaling <;> exact same (found .lt)
  | lessEqual => cases signaling <;> exact same fun _ => rfl

end Comparison

/-- Only comparisons with a NaN raise a flag. -/
theorem compareWith_flags (signaling : Bool) (a b : Fp f) :
    (compareWith signaling a b).flags =
      Flags.when ((a.isNaN || b.isNaN) && (signaling || a.isSignaling || b.isSignaling))
        Flags.invalid := by
  unfold compareWith
  split
  · next unordered => rw [unordered, Bool.true_and]
  · next ordered =>
    rw [Bool.eq_false_iff.mpr ordered]
    rfl

section

variable (hf : f ∈ [binary32, binary64, extended80, binary128])
include hf

/-- The order found is that of the numbers. -/
theorem compareWith_value (signaling : Bool) (a b : Fp f) :
    (compareWith signaling a b).value = Option.map₂ compare a.number? b.number? := by
  unfold compareWith
  cases ha : a.isNaN with
  | true => simp [number?, ha]
  | false =>
    cases hb : b.isNaN with
    | true => simp [number?, hb]
    | false =>
      have order : compare a.extended b.extended = order a b :=
        (compare_iff _ _).mpr (order_compares hf ha hb)
      simp [number?, ha, hb, order]

/-- **Comparisons are those of the numbers.**  In every format and of every two encodings the order
found is that of what they stand for as extended reals, unnormals and zeros of either sign included,
and `invalid` is raised just if one is a NaN and the comparison or one of the NaNs is signalling.
Each named relation, signalling or quiet, has just the numbers that are so related, and raises what
the three-way comparison does. -/
theorem compares_numbers (signaling : Bool) (a b : Fp f) :
    let compared := compareWith signaling a b
    compared.value = Option.map₂ compare a.number? b.number? ∧
      compared.flags =
        Flags.when ((a.isNaN || b.isNaN) && (signaling || a.isSignaling || b.isSignaling))
          Flags.invalid ∧
      (signaling = false → compareQuiet a b = compared) ∧
      ∀ relation : Comparison,
        ((relation.test signaling a b).value = true ↔
          ∃ x y, a.number? = some x ∧ b.number? = some y ∧ relation.Holds x y) ∧
        (relation.test signaling a b).flags = compared.flags := by
  intro compared
  have value := compareWith_value hf signaling a b
  refine ⟨value, compareWith_flags signaling a b, ?_, ?_⟩
  · intro quiet
    rw [compareQuiet, ← quiet]
  · intro relation
    rw [relation.test_eq]
    refine ⟨?_, rfl⟩
    rw [value]
    constructor
    · intro related
      obtain ⟨order, found, admitted⟩ := (Option.any_eq_true _ _).mp related
      obtain ⟨x, y, ha, hb, rfl⟩ := Option.map₂_eq_some_iff.mp found
      exact ⟨x, y, ha, hb, (relation.admits_compare_iff x y).mp admitted⟩
    · rintro ⟨x, y, ha, hb, holds⟩
      rw [ha, hb]
      exact (relation.admits_compare_iff x y).mpr holds

end

/-- Two, also as an unnormal, and a quiet NaN in signalling comparisons. -/
theorem compares_numbers_unnormal :
    let two : Extended := ⟨false, 0x4000, 0x8000000000000000⟩
    let unnormal : Extended := ⟨false, 0x4001, 0x4000000000000000⟩
    let nan : Extended := ⟨false, 0x7FFF, 0xC000000000000000⟩
    extended80 ∈ [binary32, binary64, extended80, binary128] ∧
      (compareWith true unnormal two).value = some .eq ∧
      (compareWith true unnormal two).flags = Flags.none ∧
      (lessEqual unnormal two).value = true ∧
      (compareWith true nan two).value = none ∧
      (compareWith true nan two).flags = Flags.invalid ∧
      (lessEqual nan two).value ≠ true ∧ (lessEqual nan two).flags = Flags.invalid := by
  intro two unnormal nan
  have known : extended80 ∈ [binary32, binary64, extended80, binary128] := by simp
  have finite (x : Extended) (kind : x.kind = .finite) (c e : ℤ)
      (coefficient : x.signedCoefficient = c) (unit : x.unitExponent = e) :
      x.number? = some ((c * 2 ^ e : ℝ) : EReal) := by
    have number : x.isNaN = false := by rw [isNaN, kind]; rfl
    rw [number?, if_neg (by simp [number]), extended_of_number (.inr kind), value, coefficient,
      unit]
  have n2 : two.number? = some ((2 : ℝ) : EReal) := by
    rw [finite two (by decide) (2 ^ 63) (-62) (by decide) (by decide)]
    norm_num
  have nu : unnormal.number? = some ((2 : ℝ) : EReal) := by
    rw [finite unnormal (by decide) (2 ^ 62) (-61) (by decide) (by decide)]
    norm_num
  have nn : nan.number? = none := if_pos (by decide)
  obtain ⟨order, noFlag, -, relation⟩ := compares_numbers known true unnormal two
  obtain ⟨order', flag, -, relation'⟩ := compares_numbers known true nan two
  rw [nu, n2] at order
  rw [nn] at order'
  have invalid := flag.trans (show _ = Flags.invalid by decide)
  refine ⟨known, order.trans ?_, noFlag, ?_, order', invalid, ?_, ?_⟩
  · exact congrArg some (compare_eq_iff_eq.mpr rfl)
  · exact (relation .lessEqual).1.mpr ⟨_, _, nu, n2, le_rfl⟩
  · intro related
    obtain ⟨x, -, number, -⟩ := (relation' .lessEqual).1.mp related
    exact absurd (nn.symm.trans number) (by simp)
  · exact (relation' .lessEqual).2.trans invalid

end Fp

end M68k
