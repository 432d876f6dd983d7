import Mathlib.Data.EReal.Operations
import M68k.Fp.Conversion
import M68k.Proofs.Fp.Widening

/-!
# The order of encodings

Every encoding but a NaN stands for an extended real number: a finite one for its value, the others
for the two infinities.  Sorting by keys is sorting by these numbers, so that unnormals are ordered
by what they denote and the two zeros are equal.

* `Measures.compares` — exponent and significand of a key order the magnitudes;
* `keyed_sortKey` — what the key of an encoding says of it;
* `order_compares` — encodings are ordered as what they stand for.
-/

namespace M68k

namespace Fp

variable {f : Format}

/-- What an encoding other than a NaN stands for. -/
noncomputable def extended (x : Fp f) : EReal :=
  if x.isInfinity then (if x.sign then ⊥ else ⊤) else (x.value ℝ : EReal)

/-- What an encoding stands for; a NaN is no number. -/
noncomputable def number? (x : Fp f) : Option EReal :=
  if x.isNaN then none else some x.extended

/-! ## Magnitudes -/

/-- Whether exponent and significand of a key are those of a positive number: the exponent above all
others is that of infinity, and a significand has its leading one in place. -/
inductive Measures : ℤ → ℕ → EReal → Prop where
  | infinity : Measures (Nat.pow 2 63 - 1) 0 ⊤
  | finite {e : ℤ} {s : ℕ} (small : e < Nat.pow 2 63 - 1) (low : 2 ^ 126 ≤ s) (high : s < 2 ^ 127) :
      Measures e s (((s : ℝ) * 2 ^ (e - 126) : ℝ) : EReal)

namespace Measures

variable {e e' : ℤ} {s s' : ℕ} {y y' : EReal}

theorem pos (h : Measures e s y) : 0 < y := by
  cases h with
  | infinity => exact EReal.zero_lt_top
  | finite small low high =>
    have positive : (0 : ℝ) < s := by exact_mod_cast (Nat.two_pow_pos 126).trans_le low
    exact EReal.coe_pos.mpr (mul_pos positive (zpow_pos two_pos _))

theorem significand_lt (h : Measures e s y) : s < 2 ^ 127 := by
  cases h with
  | infinity => exact Nat.two_pow_pos 127
  | finite small low high => exact high

/-- The greater exponent has the greater number. -/
theorem lt_of_exponent_lt (h : Measures e s y) (h' : Measures e' s' y') (less : e < e') :
    y < y' := by
  cases h with
  | infinity =>
    cases h' with
    | infinity => exact absurd less (lt_irrefl _)
    | finite small low high => omega
  | finite small low high =>
    cases h' with
    | infinity => exact EReal.coe_lt_top _
    | finite small' low' high' =>
      refine EReal.coe_lt_coe_iff.mpr ?_
      have two : (2 : ℝ) ≠ 0 := two_ne_zero
      have high : (s : ℝ) < 2 ^ (127 : ℤ) := by exact_mod_cast high
      have low' : (2 : ℝ) ^ (126 : ℤ) ≤ s' := by exact_mod_cast low'
      calc (s : ℝ) * 2 ^ (e - 126) < 2 ^ (127 : ℤ) * 2 ^ (e - 126) :=
            mul_lt_mul_of_pos_right high (zpow_pos two_pos _)
        _ = 2 ^ (e + 1) := by rw [← zpow_add₀ two, show 127 + (e - 126) = e + 1 by ring]
        _ ≤ 2 ^ e' := zpow_le_zpow_right₀ one_le_two less
        _ = 2 ^ (126 : ℤ) * 2 ^ (e' - 126) := by
            rw [← zpow_add₀ two, show 126 + (e' - 126) = e' by ring]
        _ ≤ s' * 2 ^ (e' - 126) := mul_le_mul_of_nonneg_right low' (zpow_pos two_pos _).le

/-- Of numbers with one exponent the greater significand has the greater. -/
theorem compares_of_exponent_eq (h : Measures e s y) (h' : Measures e s' y') :
    (compare s s').Compares y y' := by
  cases h with
  | infinity =>
    cases h' with
    | infinity => exact rfl
    | finite small low high => exact absurd small (lt_irrefl _)
  | finite small low high =>
    cases h' with
    | infinity => exact absurd small (lt_irrefl _)
    | finite small' low' high' =>
      have scale : StrictMono fun n : ℕ => (((n : ℝ) * 2 ^ (e - 126) : ℝ) : EReal) :=
        fun m n less => EReal.coe_lt_coe_iff.mpr
          (mul_lt_mul_of_pos_right (by exact_mod_cast less) (zpow_pos two_pos _))
      refine scale.compares.mpr ?_
      rw [← cmp_eq_compare]
      exact cmp_compares s s'

/-- Exponent and significand order the magnitudes. -/
theorem compares (h : Measures e s y) (h' : Measures e' s' y') :
    ((compare e e').then (compare s s')).Compares y y' := by
  rcases lt_trichotomy e e' with less | rfl | greater
  · rw [compare_lt_iff_lt.mpr less]
    exact h.lt_of_exponent_lt h' less
  · rw [compare_eq_iff_eq.mpr rfl]
    exact h.compares_of_exponent_eq h'
  · rw [compare_gt_iff_gt.mpr greater]
    exact h'.lt_of_exponent_lt h greater

end Measures

theorem compare_eq_reversed {α β : Type*} [LinearOrder α] [LinearOrder β] {a b : α} {a' b' : β}
    (less : a' < b' ↔ b < a) (greater : b' < a' ↔ a < b) : compare a' b' = compare b a := by
  rcases lt_trichotomy a b with h | rfl | h
  · rw [compare_gt_iff_gt.mpr (greater.mpr h), compare_gt_iff_gt.mpr h]
  · have same : a' = b' :=
      le_antisymm (not_lt.mp fun h => lt_irrefl a (greater.mp h))
        (not_lt.mp fun h => lt_irrefl a (less.mp h))
    rw [compare_eq_iff_eq.mpr same, compare_eq_iff_eq.mpr rfl]
  · rw [compare_lt_iff_lt.mpr (less.mpr h), compare_lt_iff_lt.mpr h]

/-! ## Keys -/

namespace SortKey

variable {e e' : ℤ} {s s' : ℕ} {y y' : EReal}

/-- Keys of numbers with one sign are ordered as the numbers; below zero the parts of the key turn
the order of the magnitudes around. -/
theorem order_ofParts_self (sign : Bool) (h : Measures e s y) (h' : Measures e' s' y') :
    ((ofParts sign e s).order (ofParts sign e' s')).Compares
      (withSign sign y) (withSign sign y') := by
  cases sign with
  | false => exact h.compares h'
  | true =>
    have bound : s < Nat.pow 2 128 - 1 := h.significand_lt.trans (by decide)
    have bound' : s' < Nat.pow 2 128 - 1 := h'.significand_lt.trans (by decide)
    have exponents : compare (-e) (-e') = compare e' e :=
      compare_eq_reversed neg_lt_neg_iff neg_lt_neg_iff
    have significands : compare (Nat.pow 2 128 - 1 - s) (Nat.pow 2 128 - 1 - s') = compare s' s :=
      compare_eq_reversed (by omega) (by omega)
    have reversed : (ofParts true e s).order (ofParts true e' s') =
        (compare e' e).then (compare s' s) := by
      rw [← exponents, ← significands]
      rfl
    rw [reversed]
    exact EReal.neg_strictAnti.compares.mpr (h'.compares h)

end SortKey

/-- What a key says of a number. -/
inductive Keyed : SortKey → EReal → Prop where
  | zero : Keyed ⟨0, 0, 0⟩ 0
  | ofParts {e : ℤ} {s : ℕ} {y : EReal} (sign : Bool) (h : Measures e s y) :
      Keyed (.ofParts sign e s) (withSign sign y)

/-- Keys are ordered as their numbers. -/
theorem Keyed.order_compares {k k' : SortKey} {u v : EReal} (h : Keyed k u) (h' : Keyed k' v) :
    (k.order k').Compares u v := by
  have below {y : EReal} (positive : 0 < y) : -y < 0 := EReal.neg_lt_zero.mpr positive
  cases h with
  | zero =>
    cases h' with
    | zero => exact rfl
    | ofParts sign h' =>
      cases sign with
      | false => exact h'.pos
      | true => exact below h'.pos
  | ofParts sign h =>
    cases h' with
    | zero =>
      cases sign with
      | false => exact h.pos
      | true => exact below h.pos
    | ofParts sign' h' =>
      cases sign with
      | false =>
        cases sign' with
        | false => exact SortKey.order_ofParts_self false h h'
        | true => exact (below h'.pos).trans h.pos
      | true =>
        cases sign' with
        | false => exact (below h.pos).trans h'.pos
        | true => exact SortKey.order_ofParts_self true h h'

/-! ## Encodings -/

variable {x : Fp f}

theorem extended_of_infinity (kind : x.kind = .infinity) :
    x.extended = withSign x.sign (⊤ : EReal) := by
  rw [extended, isInfinity, kind, if_pos (by rfl)]
  cases x.sign with
  | false => rfl
  | true => exact EReal.neg_top.symm

theorem extended_of_number (kind : x.kind = .zero ∨ x.kind = .finite) :
    x.extended = (x.value ℝ : EReal) := by
  rw [extended, isInfinity, if_neg (by rcases kind with h | h <;> simp [h])]

/-- The magnitude of a number with its leading one moved to bit 126. -/
theorem measures_lead (hp : 1 ≤ f.precision) (room : f.precision ≤ 127)
    (small : x.lead < Nat.pow 2 63 - 1) (positive : 0 < x.coefficient) :
    Measures x.lead (x.coefficient <<< (126 - x.coefficient.log2))
      (((x.coefficient : ℝ) * 2 ^ x.unitExponent : ℝ) : EReal) := by
  have two : (2 : ℝ) ≠ 0 := two_ne_zero
  have nonzero : x.coefficient ≠ 0 := positive.ne'
  have short : x.coefficient.log2 ≤ 126 := by
    have := (Nat.log2_lt nonzero).mpr ((x.coefficient_lt hp).trans_le
      (Nat.pow_le_pow_right two_pos room))
    omega
  have bits : x.coefficient.log2 + (126 - x.coefficient.log2) = 126 := by omega
  have low : 2 ^ 126 ≤ x.coefficient <<< (126 - x.coefficient.log2) := by
    rw [Nat.shiftLeft_eq, ← bits, pow_add, bits]
    exact Nat.mul_le_mul_right _ (Nat.log2_self_le nonzero)
  have high : x.coefficient <<< (126 - x.coefficient.log2) < 2 ^ 127 := by
    rw [Nat.shiftLeft_eq]
    calc x.coefficient * 2 ^ (126 - x.coefficient.log2)
        < 2 ^ (x.coefficient.log2 + 1) * 2 ^ (126 - x.coefficient.log2) :=
          Nat.mul_lt_mul_of_pos_right Nat.lt_log2_self (Nat.two_pow_pos _)
      _ = 2 ^ 127 := by
          rw [← pow_add]
          congr 1
          omega
  have scaled : ((x.coefficient <<< (126 - x.coefficient.log2) : ℕ) : ℝ) * 2 ^ (x.lead - 126) =
      x.coefficient * 2 ^ x.unitExponent := by
    rw [Nat.shiftLeft_eq, Nat.cast_mul, Nat.cast_pow, Nat.cast_ofNat, mul_assoc, ← zpow_natCast,
      ← zpow_add₀ two]
    congr 2
    rw [lead]
    omega
  rw [← scaled]
  exact .finite small low high

section

variable (hf : f ∈ [binary32, binary64, extended80, binary128])
include hf

/-- The exponents of numbers are far below that of infinity. -/
theorem lead_lt (x : Fp f) : x.lead < Nat.pow 2 63 - 1 := by
  have exponent := x.exponent.isLt
  have short : x.coefficient.log2 ≤ f.precision := by
    rcases Nat.eq_zero_or_pos x.coefficient with zero | positive
    · simp [zero]
    · exact ((Nat.log2_lt positive.ne').mpr
        (x.coefficient_lt (Format.regular_of_mem hf).precision_pos)).le
  simp only [List.mem_cons, List.not_mem_nil, or_false] at hf
  rcases hf with rfl | rfl | rfl | rfl <;>
  · simp only [lead, unitExponent, Format.fractionBits] at exponent short ⊢
    norm_num at exponent short ⊢
    omega

/-- What the key of an encoding says of it. -/
theorem keyed_sortKey (number : x.isNaN = false) : Keyed x.sortKey x.extended := by
  have hp := (Format.regular_of_mem hf).precision_pos
  have room : f.precision ≤ 127 := by
    simp only [List.mem_cons, List.not_mem_nil, or_false] at hf
    rcases hf with rfl | rfl | rfl | rfl <;> decide
  cases kind : x.kind with
  | nan => simp [isNaN, kind] at number
  | zero =>
    rw [extended_of_number (.inl kind), value_of_kind_zero kind, EReal.coe_zero, sortKey, kind]
    exact .zero
  | infinity =>
    rw [extended_of_infinity kind, sortKey, kind]
    exact .ofParts x.sign .infinity
  | finite =>
    have signed : x.extended = withSign x.sign
        (((x.coefficient : ℝ) * 2 ^ x.unitExponent : ℝ) : EReal) := by
      rw [extended_of_number (.inr kind), value_eq_withSign]
      cases x.sign with
      | false => rfl
      | true => exact EReal.coe_neg _
    rw [signed, sortKey, kind]
    exact .ofParts x.sign (measures_lead hp room (lead_lt hf x) (coefficient_pos kind))

/-- **Encodings other than NaNs are ordered as what they stand for.** -/
theorem order_compares {a b : Fp f} (ha : a.isNaN = false) (hb : b.isNaN = false) :
    (order a b).Compares a.extended b.extended :=
  (keyed_sortKey hf ha).order_compares (keyed_sortKey hf hb)

end

end Fp

end M68k
