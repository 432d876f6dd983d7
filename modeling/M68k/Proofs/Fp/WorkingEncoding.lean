import M68k.Fp.WorkingOperation
import M68k.Proofs.Fp.Widening
import M68k.Proofs.Fp.WorkingNumber
import Mathlib.Data.Nat.Bitwise

/-!
# Encodings in machine words

The fields of an encoding have room in words of 128 and 32 bits, so that what is read from them and
put together of them in machine words is what the formats say.

* `Format.Narrow` — the formats whose fields have so much room;
* `kind_eq`, `quiet_eq`, `propagateNaN_eq` — kinds of encodings and NaNs;
* `unpack_yields` — a finite encoding in working form.
-/

namespace M68k

/-- What the formats have in common: significands that leave fourteen bits of the working form
clear, and exponents of not more than fifteen bits with the bias in the middle. -/
structure Format.Narrow (f : Format) : Prop extends f.Regular where
  precision_ge : 2 ≤ f.precision
  precision_le : f.precision ≤ 113
  exponentMax_eq : f.exponentMax = 2 * f.bias + 1
  bias_le : f.bias ≤ 0x3FFF

theorem Format.narrow_of_mem {f : Format} (hf : f ∈ [binary32, binary64, extended80, binary128]) :
    f.Narrow := by
  refine ⟨Format.regular_of_mem hf, ?_, ?_, ?_, ?_⟩ <;>
  · simp only [List.mem_cons, List.not_mem_nil, or_false] at hf
    rcases hf with rfl | rfl | rfl | rfl <;> decide

namespace Checked

open Wide

variable {f : Format}

/-! ## Fields -/

theorem storedBits_bounds : f.fractionBits ≤ f.storedBits ∧ f.storedBits ≤ f.precision := by
  simp only [Format.storedBits, Format.fractionBits]
  split <;> omega

theorem exponent_le (x : Fp f) : x.exponent.toNat ≤ f.exponentMax := by
  have bound := x.exponent.isLt
  simp only [Format.exponentMax, Nat.pow_eq]
  omega

theorem exponentField_eq_iff (x : Fp f) (n : ℕ) : exponentField x = n ↔ x.exponent.toNat = n := by
  rw [exponentField, Int.natCast_inj]

theorem toNat_and_fractionMask {mask : Wide} (hmask : mask.toNat = 2 ^ f.fractionBits - 1)
    (a : Wide) : (a &&& mask).toNat = a.toNat % 2 ^ f.fractionBits := by
  rw [BitVec.toNat_and, hmask]
  exact Nat.and_two_pow_sub_one_eq_mod _ _

theorem and_single_bit_eq_zero_iff {a bit : Wide} {n : ℕ} (hbit : bit.toNat = 2 ^ n) :
    a &&& bit = 0 ↔ a.toNat.testBit n = false := by
  rw [← BitVec.toNat_inj, BitVec.toNat_and, hbit, Nat.and_two_pow]
  cases a.toNat.testBit n <;> simp

theorem assemble_eq (sign : Bool) {e : ℤ} {n : ℕ} (exponent : e = n) (significand : Wide) :
    assemble f sign e significand = Fp.ofFields f sign n significand.toNat := by
  subst exponent
  rw [assemble, Fp.ofFields, BitVec.ofInt_natCast]
  congr 1
  exact BitVec.eq_of_toNat_eq (by rw [BitVec.toNat_setWidth, BitVec.toNat_ofNat])

/-- Encodings with the greatest exponent are told apart by the bits of their significands. -/
theorem assemble_exponentMax_eq (sign : Bool) {significand : Wide} {s : BitVec f.storedBits}
    (bits : ∀ i < f.storedBits, significand.getLsbD i = s.getLsbD i) :
    assemble f sign f.exponentMax significand = ⟨sign, BitVec.allOnes _, s⟩ := by
  have exponent : BitVec.ofNat f.exponentBits f.exponentMax = BitVec.allOnes _ := by
    apply BitVec.eq_of_toNat_eq
    rw [Fp.toNat_allOnes_exponent, BitVec.toNat_ofNat, Nat.mod_eq_of_lt Fp.exponentMax_lt]
  have word : significand.setWidth f.storedBits = s := by
    apply BitVec.eq_of_getLsbD_eq
    intro i hi
    rw [BitVec.getLsbD_setWidth, decide_eq_true hi, Bool.true_and, bits i hi]
  rw [assemble, BitVec.ofInt_natCast, exponent, word]

theorem zero_eq (sign : Bool) : zero f sign = Fp.zero f sign := assemble_eq sign rfl 0

section Narrow

variable (narrow : f.Narrow)
include narrow

theorem fractionBits_lt : 1 ≤ f.fractionBits ∧ f.fractionBits < 113 := by
  have := narrow.precision_ge
  have := narrow.precision_le
  simp only [Format.fractionBits]
  omega

theorem toNat_significandField (x : Fp f) :
    (significandField x).toNat = x.significand.toNat := by
  have short : f.storedBits ≤ 128 :=
    storedBits_bounds.2.trans (narrow.precision_le.trans (by norm_num))
  have room : x.significand.toNat < 2 ^ 128 :=
    x.significand.isLt.trans_le (Nat.pow_le_pow_right two_pos short)
  rw [significandField, BitVec.toNat_setWidth, Nat.mod_eq_of_lt room]

theorem fractionMask_yields : Yields (fractionMask f) (·.toNat = 2 ^ f.fractionBits - 1) :=
  mask_yields ((fractionBits_lt narrow).2.trans (by norm_num))

/-- The integer bit. -/
theorem integerBit_yields : Yields (shl? 1 f.fractionBits) (·.toNat = 2 ^ f.fractionBits) :=
  shl_one_yields ((fractionBits_lt narrow).2.trans (by norm_num))

theorem quietBit_yields : Yields (quietBit f) (·.toNat = 2 ^ (f.fractionBits - 1)) := by
  obtain ⟨low, high⟩ := fractionBits_lt narrow
  exact .step (uint32?_eq (k := f.fractionBits - 1) (by omega) (by omega))
    (shl_one_yields (by omega))

/-! ## Kinds -/

/-- The kind of an encoding. -/
theorem kind_eq (x : Fp f) : kind x = some x.kind := by
  refine Yields.eq_some ((fractionMask_yields narrow).bind fun mask hmask => ?_)
  have fraction : significandField x &&& mask = 0 ↔ x.fraction = 0 := by
    rw [← BitVec.toNat_inj, toNat_and_fractionMask hmask, toNat_significandField narrow]
    rfl
  have nothing : significandField x = 0 ↔ x.significand = 0 := by
    rw [← BitVec.toNat_inj, toNat_significandField narrow, ← BitVec.toNat_inj]
    rfl
  have least : exponentField x = 0 ↔ x.exponent = 0 := by
    rw [← Int.natCast_zero, exponentField_eq_iff, ← BitVec.toNat_inj]
    rfl
  simp only [exponentField_eq_iff, fraction, nothing, least, Fp.kind]
  split_ifs <;> exact .some rfl

/-- Whether an encoding is a NaN that signals. -/
theorem isSignaling_eq (x : Fp f) : isSignaling x = some x.isSignaling := by
  refine Yields.eq_some (.step (kind_eq narrow x) ?_)
  by_cases nan : x.kind = .nan
  · rw [if_pos nan]
    refine (quietBit_yields narrow).bind fun bit hbit => .some ?_
    rw [Fp.isSignaling, Fp.isNaN, nan, Fp.quietBit, ← BitVec.testBit_toNat,
      ← toNat_significandField narrow]
    simp only [and_single_bit_eq_zero_iff hbit]
    cases (significandField x).toNat.testBit (f.fractionBits - 1) <;> rfl
  · rw [if_neg nan]
    refine .some ?_
    rw [Fp.isSignaling, Fp.isNaN, beq_false_of_ne nan, Bool.false_and]

/-! ## Infinities and NaNs -/

theorem infinity_eq (sign : Bool) : infinity f sign = some (Fp.infinity f sign) := by
  refine Yields.eq_some ?_
  unfold infinity Fp.infinity
  split_ifs with explicit
  · refine (integerBit_yields narrow).bind fun bit hbit => .some ?_
    rw [assemble_eq sign rfl, hbit]
    rfl
  · refine .some ?_
    have stored : f.storedBits = f.fractionBits := if_neg explicit
    rw [assemble_eq sign rfl, Fp.ofFields, Fp.ofFields]
    congr 1
    apply BitVec.eq_of_toNat_eq
    rw [BitVec.toNat_ofNat, BitVec.toNat_ofNat, stored, Nat.pow_eq, Nat.mod_self]
    rfl

theorem defaultNaN_eq : defaultNaN f = some (Fp.defaultNaN f) := by
  have high := narrow.precision_le
  have stored := (storedBits_bounds (f := f)).2
  refine Yields.eq_some ?_
  unfold defaultNaN
  refine (shl_one_yields (n := f.storedBits) (by omega)).bind fun power hpower => ?_
  refine (sub_yields (hpower ▸ Nat.two_pow_pos _)).bind fun mask hmask => .some ?_
  rw [hpower] at hmask
  refine assemble_exponentMax_eq false fun i hi => ?_
  rw [BitVec.getLsbD_allOnes, ← BitVec.testBit_toNat, hmask,
    show (1 : Wide).toNat = 1 from rfl, Nat.testBit_two_pow_sub_one]

theorem invalid_eq : invalid f = some (Fp.invalid f) := by
  rw [invalid, defaultNaN_eq narrow]
  rfl

omit narrow in
/-- The bits of a NaN made quiet. -/
theorem getLsbD_quieted {s q : Wide} (hq : q.toNat = 2 ^ (f.fractionBits - 1)) (i : ℕ) :
    (s ||| q).getLsbD i = (s.getLsbD i || decide (i = f.fractionBits - 1)) := by
  rw [BitVec.getLsbD_or, ← BitVec.testBit_toNat (x := q), hq, Nat.testBit_two_pow]
  congr 1
  exact decide_eq_decide.mpr eq_comm

theorem quiet_eq (x : Fp f) : quiet x = some x.quiet := by
  have field (i : ℕ) : (significandField x).getLsbD i = x.significand.getLsbD i := by
    rw [← BitVec.testBit_toNat, toNat_significandField narrow, BitVec.testBit_toNat]
  refine Yields.eq_some ((quietBit_yields narrow).bind fun bit hbit => ?_)
  dsimp only
  split_ifs with explicit
  · refine (integerBit_yields narrow).bind fun integer hinteger => .some ?_
    refine assemble_exponentMax_eq x.sign fun i _ => ?_
    rw [BitVec.getLsbD_or, getLsbD_quieted hbit, field, BitVec.getLsbD_or,
      Fp.getLsbD_quietMask narrow.precision_ge, explicit, Bool.true_and, Bool.or_assoc,
      ← BitVec.testBit_toNat (x := integer), hinteger, Nat.testBit_two_pow]
    simp only [eq_comm]
  · refine .some (assemble_exponentMax_eq x.sign fun i _ => ?_)
    rw [getLsbD_quieted hbit, field, BitVec.getLsbD_or,
      Fp.getLsbD_quietMask narrow.precision_ge, Bool.eq_false_of_not_eq_true explicit,
      Bool.false_and, Bool.or_false]

theorem propagateNaN_eq (a b : Fp f) : propagateNaN a b = some (Fp.propagateNaN a b) := by
  rw [propagateNaN, isSignaling_eq narrow, isSignaling_eq narrow, kind_eq narrow,
    quiet_eq narrow, quiet_eq narrow, Fp.propagateNaN, Fp.isNaN]
  by_cases nan : a.kind = .nan
  · simp [nan]
  · simp [nan]

omit narrow in
theorem shift_through_top (n : ℕ) {i j : ℕ} (hi : i ≤ 128) (hj : j ≤ 128) :
    n * 2 ^ (128 - i) / 2 ^ (128 - j) = if i ≤ j then n <<< (j - i) else n >>> (i - j) := by
  split_ifs with order
  · rw [show 128 - i = j - i + (128 - j) by omega, pow_add, ← Nat.mul_assoc,
      Nat.mul_div_cancel _ (Nat.two_pow_pos _), Nat.shiftLeft_eq]
  · rw [show 128 - j = i - j + (128 - i) by omega, pow_add,
      Nat.mul_div_mul_right _ _ (Nat.two_pow_pos _), Nat.shiftRight_eq_div_pow]

/-- A NaN in another format. -/
theorem convertNaN_eq {g : Format} (narrow' : g.Narrow) (x : Fp f) :
    convertNaN g x = some (Fp.convertNaN g x) := by
  obtain ⟨lowF, highF⟩ := fractionBits_lt narrow
  obtain ⟨lowG, highG⟩ := fractionBits_lt narrow'
  refine Yields.eq_some (.step (isSignaling_eq narrow x) ?_)
  refine (fractionMask_yields narrow).bind fun mask hmask => ?_
  have fraction : (significandField x &&& mask).toNat = x.fraction := by
    rw [toNat_and_fractionMask hmask, toNat_significandField narrow]
    rfl
  have room : (significandField x &&& mask).toNat * 2 ^ (128 - f.fractionBits) < 2 ^ 128 := by
    calc (significandField x &&& mask).toNat * 2 ^ (128 - f.fractionBits)
        < 2 ^ f.fractionBits * 2 ^ (128 - f.fractionBits) :=
          Nat.mul_lt_mul_of_pos_right (fraction ▸ x.fraction_lt) (Nat.two_pow_pos _)
      _ = 2 ^ 128 := by
          rw [← pow_add, Nat.add_sub_of_le (by omega)]
  refine .step (uint32?_eq (k := 128 - f.fractionBits) (by omega) (by omega)) ?_
  refine (shl_yields (by omega) room).bind fun payload hpayload => ?_
  refine .step (uint32?_eq (k := 128 - g.fractionBits) (by omega) (by omega)) ?_
  refine (shr_yields payload (by omega)).bind fun moved hmoved => ?_
  refine (quietBit_yields narrow').bind fun bit hbit => ?_
  rw [hpayload, fraction, shift_through_top _ (by omega) (by omega)] at hmoved
  have inner {i : ℕ} (hi : i < g.storedBits) :
      (Fp.ofFields g x.sign g.exponentMax moved.toNat).significand.getLsbD i =
        moved.getLsbD i := by
    rw [Fp.ofFields, BitVec.getLsbD_ofNat, decide_eq_true hi, Bool.true_and, BitVec.testBit_toNat]
  unfold Fp.convertNaN
  rw [← hmoved]
  dsimp only
  split_ifs with explicit
  · refine (integerBit_yields narrow').bind fun integer hinteger => .some ?_
    congr 1
    refine assemble_exponentMax_eq x.sign fun i hi => ?_
    rw [BitVec.getLsbD_or, getLsbD_quieted hbit, BitVec.getLsbD_or, inner hi,
      Fp.getLsbD_quietMask narrow'.precision_ge, explicit, Bool.true_and, Bool.or_assoc,
      ← BitVec.testBit_toNat (x := integer), hinteger, Nat.testBit_two_pow]
    simp only [eq_comm]
  · refine .some ?_
    congr 1
    refine assemble_exponentMax_eq x.sign fun i hi => ?_
    rw [getLsbD_quieted hbit, BitVec.getLsbD_or, inner hi,
      Fp.getLsbD_quietMask narrow'.precision_ge, Bool.eq_false_of_not_eq_true explicit,
      Bool.false_and, Bool.or_false]

/-! ## Finite encodings -/

/-- Exponent and significand of a finite encoding. -/
theorem parts_yields (x : Fp f) :
    Yields (parts x) fun r => r.1 = x.unitExponent + f.fractionBits ∧
      r.2.toNat = x.coefficient := by
  have exponents := exponent_le x
  have middle := narrow.exponentMax_eq
  have bias := narrow.bias_le
  have field := toNat_significandField narrow x
  unfold parts exponentField Fp.unitExponent
  by_cases explicit : f.explicitInteger = true
  · have whole : x.coefficient = x.significand.toNat := by
      rw [Fp.coefficient, if_pos (.inl explicit), Nat.add_zero]
    rw [if_pos explicit]
    refine .step (int32?_eq (by omega) (by omega)) (.some ⟨?_, field.trans whole.symm⟩)
    dsimp only
    omega
  rw [if_neg explicit]
  by_cases least : x.exponent = 0
  · have zero : x.exponent.toNat = 0 := by rw [least]; rfl
    have whole : x.coefficient = x.significand.toNat := by
      rw [Fp.coefficient, if_pos (.inr least), Nat.add_zero]
    rw [if_pos (by omega)]
    refine .step (int32?_eq (by omega) (by omega)) (.some ⟨?_, field.trans whole.symm⟩)
    dsimp only
    omega
  · have positive : x.exponent.toNat ≠ 0 := fun zero => least (BitVec.eq_of_toNat_eq zero)
    have stored : f.storedBits = f.fractionBits := if_neg explicit
    have small : x.significand.toNat < 2 ^ f.fractionBits := stored ▸ x.significand.isLt
    rw [if_neg (by omega)]
    refine .step (int32?_eq (by omega) (by omega)) ?_
    refine (integerBit_yields narrow).bind fun integer hinteger => .some ⟨?_, ?_⟩
    · dsimp only
      omega
    · have joined : 1 * 2 ^ f.fractionBits ||| x.significand.toNat = _ := or_eq_add small
      rw [Nat.one_mul] at joined
      rw [Fp.coefficient, if_neg (not_or.mpr ⟨explicit, least⟩), BitVec.toNat_or, hinteger, field,
        Nat.or_comm, joined, Nat.add_comm]
      rfl

/-- A finite encoding in working form. -/
structure Unpacks (x : Fp f) (w : Working) : Prop where
  operand : w.Operand
  sign : w.sign = x.sign
  exponent : w.exponent = x.lead
  significand : w.significand.toNat = x.coefficient <<< (126 - x.coefficient.log2)

omit narrow in
/-- It is the number that the encoding denotes. -/
theorem Unpacks.size_eq {K : Type*} [Field K] [LinearOrder K] [IsStrictOrderedRing K] {x : Fp f}
    {w : Working} (h : Unpacks x w) : w.size K = x.coefficient * 2 ^ x.unitExponent := by
  have nonzero : x.coefficient ≠ 0 := by
    intro zero
    have low := h.operand.normal.1
    rw [h.significand, zero, Nat.zero_shiftLeft] at low
    omega
  have length : x.coefficient.log2 < 127 := by
    refine (Nat.log2_lt nonzero).mpr (lt_of_le_of_lt ?_ h.operand.normal.2)
    rw [h.significand, Nat.shiftLeft_eq]
    exact Nat.le_mul_of_pos_right _ (Nat.two_pow_pos _)
  have moved : w.exponent = x.unitExponent + 126 - (126 - x.coefficient.log2 : ℕ) := by
    rw [h.exponent, Fp.lead]
    omega
  rw [Working.size_of_moved moved (h.significand.trans (Nat.shiftLeft_eq _ _))]
  congr 2
  ring

omit narrow in
theorem Unpacks.standsFor {K : Type*} [Field K] [LinearOrder K] [IsStrictOrderedRing K] {x : Fp f}
    {w : Working} (h : Unpacks x w) :
    w.StandsFor ((x.coefficient : K) * 2 ^ x.unitExponent) :=
  h.size_eq (K := K) ▸ h.operand.standsFor

omit narrow in
theorem log2_of_moved {c s : ℕ} (short : s ≤ 126) (low : 2 ^ 126 ≤ c * 2 ^ s)
    (high : c * 2 ^ s < 2 ^ 127) : c.log2 + s = 126 := by
  have unit : 0 < 2 ^ s := Nat.two_pow_pos s
  have nonzero : c ≠ 0 := by
    rintro rfl
    omega
  have split (n : ℕ) (hn : s ≤ n) : 2 ^ (n - s) * 2 ^ s = 2 ^ n := by
    rw [← pow_add, Nat.sub_add_cancel hn]
  have length : c.log2 = 126 - s := by
    refine (Nat.log2_eq_iff nonzero).mpr ⟨?_, ?_⟩
    · exact Nat.le_of_mul_le_mul_right ((split 126 short).trans_le low) unit
    · rw [show 126 - s + 1 = 127 - s by omega]
      exact Nat.lt_of_mul_lt_mul_right (high.trans_eq (split 127 (by omega)).symm)
  omega

theorem unpack_yields {x : Fp f} (kind : x.kind = .finite) : Yields (unpack x) (Unpacks x) := by
  have exponents := exponent_le x
  have middle := narrow.exponentMax_eq
  have bias := narrow.bias_le
  have precision := narrow.precision_le
  have fraction : f.fractionBits = f.precision - 1 := rfl
  have positive := Fp.coefficient_pos kind
  have bound := x.coefficient_lt narrow.precision_pos
  have small : x.coefficient < 2 ^ 113 :=
    bound.trans_le (Nat.pow_le_pow_right two_pos precision)
  have length : x.coefficient.log2 < f.precision := (Nat.log2_lt positive.ne').mpr bound
  have unit : x.unitExponent = (max 1 x.exponent.toNat : ℕ) - (f.bias : ℤ) - f.fractionBits := rfl
  have lead : x.lead = x.unitExponent + x.coefficient.log2 := rfl
  unfold unpack
  refine (parts_yields narrow x).bind fun r values => ?_
  obtain ⟨hexponent, hsignificand⟩ := values
  refine .step (int32?_eq (by omega) (by omega)) ?_
  refine .step (int32?_eq (by omega) (by omega)) ?_
  refine (Working.ofParts_yields_of_lt (by omega) (by omega) (by omega)).mono fun w placed => ?_
  obtain ⟨sign, normal, s, short, moved, value⟩ := placed
  rw [hsignificand] at value
  have whole := log2_of_moved short (value ▸ normal.1) (value ▸ normal.2)
  refine ⟨⟨normal, ?_, by omega⟩, sign, by omega, ?_⟩
  · rw [value]
    exact Dvd.dvd.mul_left (pow_dvd_pow 2 (by omega)) _
  · rw [value, Nat.shiftLeft_eq]
    congr 2
    omega

end Narrow

end Checked

end M68k
