import M68k.Proofs.Fp.IntegralRounding
import M68k.Proofs.Fp.WorkingRounding

/-!
# Conversions and comparisons in machine words

Rounding to integers and between formats, the order of encodings, and the operations of the extended
format only, which change an exponent.

* `roundToIntegral_eq`, `toInt_eq`, `ofInt_eq` — integers;
* `convert_eq`, `compareWith_eq` — other formats and comparison;
* `ofScaled_eq`, `scale_eq`, `getExponent_eq`, `getMantissa_eq` — exponents.
-/

namespace M68k

namespace Checked

open Fp Wide Working

variable {f : Format}

/-! ## Integers -/

/-- All shifts by the width of a word and more leave less than half a unit. -/
theorem parts_of_far {w : Working} (normal : w.Normal) {s : ℕ} (far : 128 ≤ s) :
    (w.significand.toNat / 2 ^ s,
      Remnant.ofRemainder (w.significand.toNat % 2 ^ s) (2 ^ s)) = (0, .low) := by
  obtain ⟨low, high⟩ := normal
  have unit : 2 ^ 128 ≤ 2 ^ s := Nat.pow_le_pow_right two_pos far
  have small : w.significand.toNat < 2 ^ s := by omega
  rw [Nat.div_eq_of_lt small, Nat.mod_eq_of_lt small, Remnant.ofRemainder, if_neg (by omega),
    if_pos (by omega)]

/-- The whole part, rounded. -/
theorem wholePart_yields (mode : RoundingMode) {w : Working} (normal : w.Normal)
    (range : -2 ^ 18 < w.exponent ∧ w.exponent ≤ 126) :
    Yields (wholePart mode w) fun r => r.1.toNat = mode.round w.sign (w.magnitude.split 0) ∧
      r.2 = decide ((w.magnitude.split 0).2 ≠ .zero) := by
  obtain ⟨s, hs⟩ : ∃ s : ℕ, 126 - w.exponent = s := ⟨(126 - w.exponent).toNat, by omega⟩
  have parts := w.split_magnitude s
  rw [show w.exponent - 126 + s = 0 by omega] at parts
  unfold wholePart
  refine .step (int32?_eq (n := 126 - w.exponent) (by omega) (by omega)) ?_
  refine .step (uint32?_eq (k := min s 250) (by omega) (by omega)) ?_
  refine (roundBits_yields mode w.sign w.significand (min s 250)).mono fun r found => ?_
  have same : w.magnitude.split 0 = (w.significand.toNat / 2 ^ min s 250,
      Remnant.ofRemainder (w.significand.toNat % 2 ^ min s 250) (2 ^ min s 250)) := by
    rcases le_or_gt s 250 with near | far
    · rw [parts, min_eq_left near]
    · rw [parts, min_eq_right far.le, parts_of_far normal (by omega),
        parts_of_far normal (s := 250) (by norm_num)]
  rw [same]
  exact found

/-- The whole part of an encoding. -/
theorem wholePart_of_unpacks (mode : RoundingMode) {a : Fp f} (kind : a.kind = .finite)
    {w : Working} (h : Unpacks a w) (small : a.lead ≤ 126) :
    Yields (wholePart mode w) fun r => r.1.toNat = mode.round a.sign (a.magnitude.split 0) ∧
      r.2 = decide ((a.magnitude.split 0).2 ≠ .zero) := by
  have denotes := h.operand.normal.denotes (K := ℚ)
  rw [h.size_eq] at denotes
  have same := Magnitude.split_eq_of_denotes denotes (denotes_magnitude kind) 0
  have range := h.operand.range
  rw [← same, ← h.sign]
  exact wholePart_yields mode h.operand.normal ⟨by omega, h.exponent.trans_le small⟩

/-- An integer as a number. -/
theorem ofInteger_yields {sign : Bool} {magnitude : Wide} (positive : 0 < magnitude.toNat) :
    Yields (ofInteger sign magnitude) fun w =>
      w.sign = sign ∧ w.StandsFor (magnitude.toNat : ℚ) := by
  refine ofParts_yields positive (by norm_num) (.inl ?_)
  rw [sub_self, zpow_zero, mul_one]

theorem denotes_integer {n : ℕ} (positive : 0 < n) : (Magnitude.dyadic n 0).Denotes (n : ℚ) := by
  have denotes := Magnitude.denotes_dyadic (K := ℚ) positive 0
  rwa [zpow_zero, mul_one] at denotes

section

variable (env : Environment) (a : Fp f) (hf : f ∈ [binary32, binary64, extended80, binary128])
include hf

theorem roundToIntegral_eq (mode : RoundingMode) :
    roundToIntegral env mode a = some (Fp.roundToIntegral env mode a) := by
  have narrow := Format.narrow_of_mem hf
  have precision := fractionBits_lt narrow
  unfold roundToIntegral Fp.roundToIntegral
  rw [kind_eq narrow]
  refine Yields.eq_some (.step rfl ?_)
  rw [propagateNaN_eq narrow]
  cases kind : a.kind with
  | finite =>
    refine (unpack_yields narrow kind).bind fun w unpacked => ?_
    rw [unpacked.exponent]
    dsimp only
    by_cases whole : (f.fractionBits : ℤ) ≤ a.lead
    · rw [if_pos whole, if_pos whole]
      exact .some rfl
    rw [if_neg whole, if_neg whole]
    refine (wholePart_of_unpacks mode kind unpacked (by omega)).bind fun r found => ?_
    obtain ⟨hmagnitude, hinexact⟩ := found
    rw [← hmagnitude, ← hinexact, unpacked.sign]
    by_cases none : r.1 = 0
    · have nothing : r.1.toNat = 0 := congrArg BitVec.toNat none
      rw [if_pos none, if_pos nothing, zero_eq]
      exact .some (congrArg (Raised.mk _) BitVec.or_zero.symm)
    · have positive : 0 < r.1.toNat :=
        Nat.pos_of_ne_zero fun zero => none (BitVec.eq_of_toNat_eq zero)
      rw [if_neg none, if_neg positive.ne']
      refine (ofInteger_yields positive).bind fun u stands => ?_
      refine .step (roundPack_of_standsFor narrow le_rfl narrow.precision_pos env stands.2
        (denotes_integer positive)) (.some ?_)
      rw [stands.1]
      exact congrArg (Raised.mk _) BitVec.or_zero.symm
  | _ => exact .some rfl

end

/-! ### Machine integers -/

theorem int64?_eq {n : ℤ} (low : -2 ^ 63 ≤ n) (high : n < 2 ^ 63) : int64? n = some n :=
  if_pos ⟨low, high⟩

theorem asInt64_eq {a : Wide} (small : a.toNat < 2 ^ 63) : asInt64 a = a.toNat := by
  have word : (a.setWidth 64).toNat = a.toNat := by
    rw [BitVec.toNat_setWidth, Nat.mod_eq_of_lt (by omega)]
  rw [asInt64, BitVec.toInt_eq_toNat_of_lt (by omega), word]

/-- The negative of a magnitude that a word has room for. -/
theorem toInt_neg_eq {a : Wide} (small : a.toNat ≤ 2 ^ 63) :
    (-a.setWidth 64).toInt = -(a.toNat : ℤ) := by
  have word : (a.setWidth 64).toNat = a.toNat := by
    rw [BitVec.toNat_setWidth, Nat.mod_eq_of_lt (by omega)]
  rcases small.lt_or_eq with less | equal
  · rw [BitVec.toInt_neg, BitVec.toInt_eq_toNat_of_lt (by omega), word,
      Int.bmod_eq_of_le (by omega) (by omega)]
  · have least : a.setWidth 64 = BitVec.ofNat 64 (2 ^ 63) :=
      BitVec.eq_of_toNat_eq (word.trans equal)
    rw [least, equal]
    decide

section

variable {width : ℕ} (wide : 1 ≤ width) (short : width ≤ 64)
include wide short

/-- The largest positive integer of a width. -/
theorem largestInteger_yields :
    Yields (largestInteger width) (·.toNat = 2 ^ (width - 1) - 1) :=
  .step (uint32?_eq (k := width - 1) (by omega) (by omega)) (mask_yields (by omega))

theorem power_le : 1 ≤ 2 ^ (width - 1) ∧ 2 ^ (width - 1) ≤ 2 ^ 63 :=
  ⟨Nat.one_le_two_pow, Nat.pow_le_pow_right two_pos (by omega)⟩

theorem saturated_eq {largest : Wide} (value : largest.toNat = 2 ^ (width - 1) - 1)
    (negative : Bool) : saturated largest negative = some (integerLimit width negative) := by
  obtain ⟨low, high⟩ := power_le wide short
  have integer := asInt64_eq (a := largest) (by omega)
  unfold saturated integerLimit
  rw [integer, value, Nat.pow_eq]
  refine Yields.eq_some ?_
  split_ifs
  · refine .step (int64?_eq (by omega) (by omega)) ?_
    rw [int64?_eq (by omega) (by omega)]
    exact .some (by omega)
  · exact .some rfl

theorem natAbs_integerLimit (negative : Bool) : (integerLimit width negative).natAbs =
    if negative then 2 ^ (width - 1) else 2 ^ (width - 1) - 1 := by
  obtain ⟨low, high⟩ := power_le wide short
  unfold integerLimit
  rw [Nat.pow_eq]
  split_ifs <;> omega

/-- A magnitude as an integer of the width, or the end of the range that it is beyond. -/
theorem limited_yields {sign inexact : Bool} {limit magnitude largest : Wide}
    (hlargest : largest.toNat = 2 ^ (width - 1) - 1)
    (hlimit : limit.toNat = (integerLimit width sign).natAbs) :
    Yields
      (if limit < magnitude then do
        return (⟨← saturated largest sign, Flags.invalid⟩ : Raised ℤ)
      else
        let value := if sign then (-magnitude.setWidth 64).toInt else asInt64 magnitude
        return ⟨value, Flags.when inexact Flags.inexact⟩)
      (· = if (integerLimit width sign).natAbs < magnitude.toNat then
          ⟨integerLimit width sign, Flags.invalid⟩
        else ⟨if sign then -(magnitude.toNat : ℤ) else magnitude.toNat,
          Flags.when inexact Flags.inexact⟩) := by
  obtain ⟨low, high⟩ := power_le wide short
  have ends := natAbs_integerLimit wide short sign
  have order : limit < magnitude ↔ (integerLimit width sign).natAbs < magnitude.toNat := by
    rw [BitVec.lt_def, hlimit]
  rw [saturated_eq wide short hlargest]
  by_cases large : limit < magnitude
  · rw [if_pos large, if_pos (order.mp large)]
    exact .some rfl
  · have small := mt order.mpr large
    rw [if_neg large, if_neg small]
    refine .some (congrArg (Raised.mk · _) ?_)
    split_ifs at ends ⊢
    · exact toInt_neg_eq (by omega)
    · exact asInt64_eq (by omega)

theorem toInt_eq (narrow : f.Narrow) (mode : RoundingMode) (a : Fp f) :
    toInt width mode a = some (Fp.toInt width mode a) := by
  obtain ⟨low, high⟩ := power_le wide short
  unfold toInt Fp.toInt
  rw [kind_eq narrow]
  refine Yields.eq_some ((largestInteger_yields wide short).bind fun largest value => .step rfl ?_)
  have saturated := saturated_eq wide short value
  cases kind : a.kind with
  | nan => exact .step (saturated _) (.some rfl)
  | infinity => exact .step (saturated _) (.some rfl)
  | zero => exact .some rfl
  | finite =>
    refine (unpack_yields narrow kind).bind fun w unpacked => ?_
    rw [unpacked.exponent, unpacked.sign]
    by_cases large : (width : ℤ) ≤ a.lead
    · rw [if_pos large]
      dsimp only
      rw [if_pos large]
      exact .step (saturated _) (.some rfl)
    rw [if_neg large]
    refine (wholePart_of_unpacks mode kind unpacked (by omega)).bind fun r found => ?_
    obtain ⟨hmagnitude, hinexact⟩ := found
    dsimp only
    rw [if_neg large, ← hmagnitude, ← hinexact]
    have ends := natAbs_integerLimit wide short a.sign
    cases sign : a.sign with
    | false =>
      rw [sign] at ends
      exact limited_yields wide short value (value.trans ends.symm)
    | true =>
      rw [sign] at ends
      have one : (1 : Wide).toNat = 1 := rfl
      refine (add_yields (a := largest) (b := 1) (by omega)).bind fun limit hlimit => ?_
      refine limited_yields wide short value ?_
      rw [hlimit, ends, value, one, if_pos rfl]
      omega

end

section

variable (narrow : f.Narrow) (env : Environment)
include narrow

theorem ofInt_eq {n : ℤ} (low : -2 ^ 63 ≤ n) (high : n < 2 ^ 63) :
    ofInt f env n = some (Fp.ofInt f env n) := by
  unfold ofInt
  by_cases none : n = 0
  · rw [if_pos none, zero_eq, Fp.ofInt, encodeDyadic, if_pos none]
    rfl
  have magnitude : (BitVec.ofNat 128 n.natAbs).toNat = n.natAbs := by
    rw [BitVec.toNat_ofNat, Nat.mod_eq_of_lt (by omega)]
  rw [if_neg none]
  refine Yields.eq_some ((ofInteger_yields (by omega)).bind fun w stands => ?_)
  obtain ⟨sign, stands⟩ := stands
  have value :
      withSign (decide (n < 0)) ((BitVec.ofNat 128 n.natAbs).toNat : ℚ) = n * 2 ^ (0 : ℤ) := by
    rw [magnitude, zpow_zero, mul_one]
    rcases lt_or_ge n 0 with negative | positive
    · rw [decide_eq_true negative, withSign_true, Nat.cast_natAbs, abs_of_neg negative]
      push_cast
      ring
    · rw [decide_eq_false (not_lt.mpr positive), withSign_false, Nat.cast_natAbs,
        abs_of_nonneg positive]
  rw [roundPack_of_holds narrow le_rfl narrow.precision_pos env (stands.holds sign false)
    value.symm]
  exact .some rfl

end

/-! ## Other formats -/

theorem convert_eq {g : Format} (narrow : f.Narrow) (narrow' : g.Narrow) (env : Environment)
    (a : Fp f) : convert g env a = some (Fp.convert g env a) := by
  unfold convert Fp.convert
  rw [kind_eq narrow]
  refine Yields.eq_some (.step rfl ?_)
  cases kind : a.kind with
  | nan =>
    dsimp only
    rw [convertNaN_eq narrow narrow']
    exact .some rfl
  | infinity => exact .step (infinity_eq narrow' _) (.some rfl)
  | zero => exact .some (congrArg _ (zero_eq _))
  | finite =>
    refine (unpack_yields narrow kind).bind fun w unpacked => ?_
    rw [roundPack_of_unpacks narrow' le_rfl narrow'.precision_pos env kind unpacked]
    exact .some rfl

/-! ## Comparison -/

section

variable (narrow : f.Narrow)

theorem keyOfParts_eq (negative : Bool) {exponent : ℤ}
    (range : -2 ^ 63 < exponent ∧ exponent < 2 ^ 63)
    (significand : Wide) : keyOfParts negative exponent significand =
      some (SortKey.ofParts negative exponent significand.toNat) := by
  have top : (BitVec.allOnes 128).toNat = 2 ^ 128 - 1 := BitVec.toNat_allOnes
  have bound := significand.isLt
  unfold keyOfParts SortKey.ofParts
  cases negative with
  | false => rfl
  | true =>
    refine Yields.eq_some (.step rfl (.step (int64?_eq (by omega) (by omega)) ?_))
    refine (sub_yields (by omega)).bind fun complement value => .some ?_
    rw [value, top]
    rfl

include narrow

theorem sortKey_eq {a : Fp f} (number : a.kind ≠ .nan) : sortKey a a.kind = some a.sortKey := by
  unfold sortKey Fp.sortKey
  refine Yields.eq_some ?_
  cases kind : a.kind with
  | nan => exact absurd kind number
  | zero => exact .some rfl
  | infinity =>
    dsimp only
    rw [keyOfParts_eq a.sign (by norm_num)]
    exact .some rfl
  | finite =>
    refine (unpack_yields narrow kind).bind fun w unpacked => ?_
    have range := unpacked.operand.range
    rw [keyOfParts_eq a.sign (by omega), unpacked.exponent, unpacked.significand]
    exact .some rfl

theorem compareWith_eq (signaling : Bool) (a b : Fp f) :
    compareWith signaling a b = some (Fp.compareWith signaling a b) := by
  unfold compareWith Fp.compareWith Fp.isNaN
  rw [kind_eq narrow, kind_eq narrow, isSignaling_eq narrow, isSignaling_eq narrow]
  refine Yields.eq_some (.step rfl (.step rfl ?_))
  by_cases nan : a.kind = .nan ∨ b.kind = .nan
  · rw [if_pos nan, if_pos (by simpa using nan)]
    exact .some rfl
  · obtain ⟨ha, hb⟩ := not_or.mp nan
    rw [if_neg nan, if_neg (by simpa using nan)]
    exact .step (sortKey_eq narrow ha) (.step (sortKey_eq narrow hb) (.some rfl))

end

/-! ## The extended format -/

section Extended

open Extended

variable (env : Environment) (x : Extended)

theorem narrow_extended : extended80.Narrow := Format.narrow_of_mem (by simp)

theorem precision_bits_bounds :
    1 ≤ env.precision.bits ∧ env.precision.bits ≤ extended80.precision := by
  cases env.precision <;> decide

theorem clampScale_bounds (n : ℤ) : -0x10000 ≤ clampScale n ∧ clampScale n ≤ 0x10000 := by
  simp only [clampScale, scaleLimit]
  omega

/-- With a limited amount added to its exponent, a number stands for the multiple. -/
theorem scaled_yields {w : Working} {v : ℚ} (h : w.StandsFor v)
    (range : -2 ^ 16 < w.exponent ∧ w.exponent < 2 ^ 16) (n : ℤ) :
    Yields (scaled w n) fun u => u.sign = w.sign ∧ u.StandsFor (v * 2 ^ clampScale n) := by
  have bounds := clampScale_bounds n
  refine .step (int32?_eq (n := w.exponent + clampScale n) (by omega) (by omega))
    (.some ⟨rfl, h.normal, by dsimp only; omega, ?_⟩)
  have scaled := h.alike.scale (clampScale n)
  have size : w.size ℚ * 2 ^ clampScale n =
      Working.size ℚ { w with exponent := w.exponent + clampScale n } := by
    rw [Working.size, Working.size, mul_assoc, ← zpow_add₀ two_ne_zero]
    congr 2
    ring
  rw [size] at scaled
  convert scaled using 1
  ring

/-- The exponent of an integer of a word. -/
theorem exponent_of_integer {w : Working} {n : ℕ} (h : w.StandsFor (n : ℚ)) (positive : 0 < n)
    (small : n < 2 ^ 128) : 0 ≤ w.exponent ∧ w.exponent < 128 := by
  obtain ⟨low, high⟩ := h.bounds
  have least : (2 : ℚ) ^ (0 : ℤ) ≤ n := by
    rw [zpow_zero]
    exact_mod_cast positive
  have greatest : (n : ℚ) < 2 ^ (128 : ℤ) := by exact_mod_cast small
  have := (zpow_lt_zpow_iff_right₀ one_lt_two).mp (least.trans_lt high)
  have := (zpow_lt_zpow_iff_right₀ one_lt_two).mp (low.trans_lt greatest)
  omega

theorem ofScaled_eq (sign : Bool) (mantissa : Wide) (exponent : ℤ) :
    ofScaled env sign mantissa exponent =
      some (Extended.ofScaled env sign mantissa.toNat exponent) := by
  obtain ⟨low, high⟩ := precision_bits_bounds env
  unfold ofScaled Extended.ofScaled
  by_cases none : mantissa = 0
  · have nothing : mantissa.toNat = 0 := congrArg BitVec.toNat none
    rw [if_pos none, if_pos nothing]
    exact congrArg (fun z => some (pure z)) (zero_eq sign)
  have positive : 0 < mantissa.toNat :=
    Nat.pos_of_ne_zero fun zero => none (BitVec.eq_of_toNat_eq zero)
  rw [if_neg none, if_neg positive.ne']
  refine Yields.eq_some ((ofInteger_yields positive).bind fun w stands => ?_)
  have range := exponent_of_integer stands.2 positive mantissa.isLt
  refine (scaled_yields stands.2 (by omega) exponent).bind fun u moved => ?_
  rw [roundPack_of_standsFor narrow_extended high low env moved.2
    (Magnitude.denotes_dyadic positive _), moved.1, stands.1]
  exact .some rfl

/-- Sign, significand and exponent of the last place. -/
theorem scaledInteger_eq : scaledInteger x = some (x.sign, x.coefficient, x.unitExponent) := by
  have exponents : x.exponent.toNat ≤ 0x7FFF := exponent_le x
  have unit : x.unitExponent = (max 1 x.exponent.toNat : ℕ) - 16383 - 63 := rfl
  have whole : x.coefficient = x.significand.toNat := by
    rw [Fp.coefficient, if_pos (.inl rfl), Nat.add_zero]
  rw [whole]
  unfold scaledInteger exponentField
  rw [show (extended80.bias : ℤ) = 16383 from rfl, show (extended80.fractionBits : ℤ) = 63 from rfl]
  refine Yields.eq_some (.step (int32?_eq (by omega) (by omega)) ?_)
  refine .step (int32?_eq (by omega) (by omega)) (.some ?_)
  rw [unit]
  congr 2
  omega

theorem roundToPrecision_eq : roundToPrecision env x = some (Extended.roundToPrecision env x) := by
  obtain ⟨low, high⟩ := precision_bits_bounds env
  unfold roundToPrecision Extended.roundToPrecision
  rw [kind_eq narrow_extended, isSignaling_eq narrow_extended, propagateNaN_eq narrow_extended]
  refine Yields.eq_some (.step rfl ?_)
  cases kind : x.kind with
  | finite =>
    refine (unpack_yields narrow_extended kind).bind fun w unpacked => ?_
    rw [roundPack_of_unpacks narrow_extended high low env kind unpacked]
    exact .some rfl
  | nan =>
    refine .step rfl ?_
    split_ifs <;> exact .some rfl
  | _ => exact .some rfl

theorem scale_eq (n : ℤ) : scale env x n = some (Extended.scale env x n) := by
  obtain ⟨low, high⟩ := precision_bits_bounds env
  unfold scale Extended.scale
  rw [kind_eq narrow_extended, propagateNaN_eq narrow_extended]
  refine Yields.eq_some (.step rfl ?_)
  cases kind : x.kind with
  | finite =>
    refine (unpack_yields narrow_extended kind).bind fun w unpacked => ?_
    have range := unpacked.operand.range
    refine (scaled_yields unpacked.standsFor (by omega) n).bind fun u moved => ?_
    rw [roundPack_of_standsFor narrow_extended high low env moved.2
      (denotes_scaled kind (clampScale n)), moved.1, unpacked.sign]
    exact .some rfl
  | _ => exact .some rfl

theorem getExponent_eq : getExponent env x = some (Extended.getExponent env x) := by
  unfold getExponent Extended.getExponent
  rw [kind_eq narrow_extended, propagateNaN_eq narrow_extended, invalid_eq narrow_extended]
  refine Yields.eq_some (.step rfl ?_)
  cases kind : x.kind with
  | finite =>
    refine (unpack_yields narrow_extended kind).bind fun w unpacked => ?_
    have range := unpacked.operand.range
    rw [ofInt_eq narrow_extended env (by omega) (by omega), unpacked.exponent]
    exact .some rfl
  | _ => exact .some rfl

theorem getMantissa_eq : getMantissa env x = some (Extended.getMantissa env x) := by
  unfold getMantissa Extended.getMantissa
  rw [kind_eq narrow_extended, propagateNaN_eq narrow_extended, invalid_eq narrow_extended]
  refine Yields.eq_some (.step rfl ?_)
  cases kind : x.kind with
  | finite =>
    refine (unpack_yields narrow_extended kind).bind fun w unpacked => ?_
    have stands : Working.StandsFor { w with exponent := 0 }
        ((x.coefficient : ℚ) * 2 ^ x.unitExponent * 2 ^ (-x.lead)) := by
      refine ⟨unpacked.operand.normal, by norm_num, .of_eq ?_⟩
      rw [← unpacked.size_eq, Working.size, Working.size, mul_assoc, ← zpow_add₀ two_ne_zero,
        unpacked.exponent]
      congr 2
      ring
    rw [roundPack_of_standsFor narrow_extended le_rfl (by norm_num) env stands
      (denotes_scaled kind (-x.lead)), unpacked.sign]
    exact .some rfl
  | _ => exact .some rfl

end Extended

end Checked

end M68k
