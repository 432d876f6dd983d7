import M68k.Fp.Conversion
import M68k.Proofs.Fp.Canonical
import M68k.Proofs.Fp.CorrectRounding

/-!
# Converting to a wider format and back

A format widens another if it has all its numbers and room for its payloads.  Converting to it then
loses nothing: the result means the same, no flag is raised, and the narrower format gets its
encoding back in every environment.

* `Format.widens_of_mem` — the pairs of formats of which the second is wider;
* `convertNaN_convertNaN` — payloads survive the shift to the top of a wider significand and back;
* `convert_widening` — widening is exact and reversible.
-/

namespace M68k

variable {f g : Format}

/-- Whether a format has all numbers of another and room for its payloads. -/
structure Format.Widens (f g : Format) : Prop where
  narrow : f.Regular
  wide : g.Regular
  quiet : 2 ≤ f.precision
  precision : f.precision ≤ g.precision
  least : Fp.leastLead g - g.fractionBits ≤ Fp.leastLead f - f.fractionBits
  greatest : (f.exponentMax : ℤ) - f.bias ≤ (g.exponentMax : ℤ) - g.bias

/-- The formats with those that are wider. -/
def wideningPairs : List (Format × Format) :=
  [(binary32, binary64), (binary32, extended80), (binary32, binary128), (binary64, extended80),
    (binary64, binary128), (extended80, binary128)]

theorem Format.widens_of_mem (pair : (f, g) ∈ wideningPairs) : f.Widens g := by
  have regular {h : Format} (known : h ∈ [binary32, binary64, extended80, binary128]) :=
    Format.regular_of_mem known
  simp only [wideningPairs, List.mem_cons, List.not_mem_nil, or_false, Prod.mk.injEq] at pair
  rcases pair with ⟨rfl, rfl⟩ | ⟨rfl, rfl⟩ | ⟨rfl, rfl⟩ | ⟨rfl, rfl⟩ | ⟨rfl, rfl⟩ | ⟨rfl, rfl⟩
  all_goals
    exact ⟨regular (by simp), regular (by simp), by decide, by decide, by decide, by decide⟩

/-- The numbers of a format are among those of a wider one. -/
theorem Format.Represents.widen {K : Type*} [Field K] [LinearOrder K] [IsStrictOrderedRing K]
    {v : K} (h : f.Represents v) (wider : f.Widens g) : g.Represents v := by
  obtain ⟨c, u, value, short, least⟩ := h.whole
  have bits : 2 ^ f.precision ≤ 2 ^ g.precision := Nat.pow_le_pow_right two_pos wider.precision
  exact ⟨⟨c, u, value, short.trans_le bits, wider.least.trans least⟩,
    h.small.trans_le (zpow_le_zpow_right₀ one_le_two wider.greatest)⟩

namespace Fp

/-! ## NaNs -/

theorem toNat_allOnes_exponent : (BitVec.allOnes f.exponentBits).toNat = f.exponentMax := by
  rw [BitVec.toNat_allOnes]
  rfl

theorem getLsbD_quietMask (hp : 2 ≤ f.precision) (i : ℕ) :
    (quietMask f).getLsbD i =
      (decide (i = f.fractionBits - 1) || (f.explicitInteger && decide (i = f.fractionBits))) := by
  have below : 2 ^ (f.fractionBits - 1) < 2 ^ f.fractionBits :=
    Nat.pow_lt_pow_right one_lt_two (by simp only [Format.fractionBits]; omega)
  cases explicit : f.explicitInteger with
  | true =>
    have stored : f.storedBits = f.precision := by simp [Format.storedBits, explicit]
    have both : 2 ^ (f.fractionBits - 1) + 2 ^ f.fractionBits =
        2 ^ f.fractionBits ||| 2 ^ (f.fractionBits - 1) := by
      rw [add_comm]
      simpa only [mul_one] using Nat.two_pow_add_eq_or_of_lt below 1
    simp only [quietMask, explicit, if_true, Nat.pow_eq, both, BitVec.getLsbD_ofNat, stored,
      Nat.testBit_or, Nat.testBit_two_pow, Bool.true_and]
    simp only [Format.fractionBits]
    grind
  | false =>
    have stored : f.storedBits = f.fractionBits := by simp [Format.storedBits, explicit]
    simp only [quietMask, explicit, Bool.false_eq_true, if_false, Nat.pow_eq, add_zero,
      BitVec.getLsbD_ofNat, stored, Nat.testBit_two_pow, Bool.false_and, Bool.or_false]
    simp only [Format.fractionBits]
    grind

theorem testBit_fraction (x : Fp f) (i : ℕ) :
    x.fraction.testBit i = (decide (i < f.fractionBits) && x.significand.getLsbD i) := by
  rw [fraction, Nat.pow_eq, Nat.testBit_mod_two_pow, BitVec.testBit_toNat]

theorem fraction_lt (x : Fp f) : x.fraction < 2 ^ f.fractionBits :=
  Nat.mod_lt _ (Nat.two_pow_pos _)

/-- Whether the payload of a NaN has the bit that makes it quiet. -/
theorem testBit_fraction_of_quiet (hp : 2 ≤ f.precision) {x : Fp f} (nan : x.isNaN = true)
    (quiet : x.isSignaling = false) : x.fraction.testBit (f.fractionBits - 1) = true := by
  have bit : x.quietBit = true := by
    simpa only [isSignaling, nan, Bool.true_and, Bool.not_eq_false'] using quiet
  rw [testBit_fraction, decide_eq_true (by simp only [Format.fractionBits]; omega), Bool.true_and]
  exact bit

/-- A NaN that is put together from a quiet payload. -/
theorem quiet_ofFields (hp : 2 ≤ f.precision) (sign : Bool) (e : ℕ) {payload : ℕ}
    (small : payload < 2 ^ f.fractionBits) (top : payload.testBit (f.fractionBits - 1) = true) :
    (ofFields f sign e payload).quiet.isNaN = true ∧
      (ofFields f sign e payload).quiet.isSignaling = false ∧
      (ofFields f sign e payload).quiet.fraction = payload := by
  have fraction : (ofFields f sign e payload).quiet.fraction = payload := by
    apply Nat.eq_of_testBit_eq
    intro i
    rw [testBit_fraction, quiet, BitVec.getLsbD_or, getLsbD_quietMask hp, ofFields,
      BitVec.getLsbD_ofNat]
    by_cases inside : i < f.fractionBits
    · have stored : i < f.storedBits := by
        simp only [Format.storedBits, Format.fractionBits] at inside ⊢
        split <;> omega
      by_cases last : i = f.fractionBits - 1
      · subst last
        simp [inside, stored, top]
      · simp [inside, stored, last, inside.ne]
    · have outside : payload.testBit i = false :=
        Nat.testBit_lt_two_pow (small.trans_le (Nat.pow_le_pow_right two_pos (not_lt.mp inside)))
      simp [inside, outside]
  have nonzero : payload ≠ 0 := by
    rintro rfl
    simp at top
  have nan : (ofFields f sign e payload).quiet.isNaN = true := by
    have exponent : (ofFields f sign e payload).quiet.exponent.toNat = f.exponentMax :=
      toNat_allOnes_exponent
    rw [isNaN, kind, if_pos exponent, fraction, if_neg nonzero]
    rfl
  have bit : (ofFields f sign e payload).quiet.quietBit = true := by
    have inside : f.fractionBits - 1 < f.fractionBits := by
      simp only [Format.fractionBits]
      omega
    have here := testBit_fraction (ofFields f sign e payload).quiet (f.fractionBits - 1)
    rw [fraction, top, decide_eq_true inside, Bool.true_and] at here
    exact here.symm
  exact ⟨nan, by rw [isSignaling, bit, Bool.not_true, Bool.and_false], fraction⟩

theorem canonical_quiet (regular : f.Regular) (hp : 2 ≤ f.precision) (x : Fp f) :
    x.quiet.Canonical := by
  intro explicit
  have exponents := regular.exponentMax_ge
  have nonzero : x.quiet.exponent ≠ 0 := by
    intro zero
    have most : x.quiet.exponent.toNat = f.exponentMax := toNat_allOnes_exponent
    rw [zero, BitVec.ofNat_eq_ofNat, BitVec.toNat_ofNat, Nat.zero_mod] at most
    omega
  refine iff_of_false ?_ nonzero
  rw [Fp.quiet, BitVec.getLsbD_or, getLsbD_quietMask hp, explicit, decide_eq_true rfl]
  simp

/-- A canonical quiet NaN is put together again from its sign and payload. -/
theorem quiet_ofFields_fraction (regular : f.Regular) (hp : 2 ≤ f.precision) {x : Fp f}
    (canonical : x.Canonical) (nan : x.isNaN = true) (quiet : x.isSignaling = false) :
    (ofFields f x.sign f.exponentMax x.fraction).quiet = x := by
  have exponent : x.exponent.toNat = f.exponentMax := by
    by_contra finite
    rw [not_isNaN finite] at nan
    exact Bool.false_ne_true nan
  have payload := (quiet_ofFields hp x.sign f.exponentMax x.fraction_lt
    (testBit_fraction_of_quiet hp nan quiet)).2.2
  exact eq_of_fraction_eq regular.precision_pos (canonical_quiet regular hp _) canonical rfl
    (BitVec.eq_of_toNat_eq (toNat_allOnes_exponent.trans exponent.symm)) payload

/-- Payloads are moved to the top of a wider significand. -/
theorem convertNaN_widens (wider : f.Widens g) {x : Fp f} (nan : x.isNaN = true)
    (quiet : x.isSignaling = false) :
    (convertNaN g x).flags = Flags.none ∧ (convertNaN g x).value.sign = x.sign ∧
      (convertNaN g x).value.isNaN = true ∧ (convertNaN g x).value.isSignaling = false ∧
      (convertNaN g x).value.fraction = x.fraction * 2 ^ (g.fractionBits - f.fractionBits) := by
  have bits : f.fractionBits ≤ g.fractionBits := Nat.sub_le_sub_right wider.precision 1
  have small : x.fraction <<< (g.fractionBits - f.fractionBits) < 2 ^ g.fractionBits := by
    have split :
        2 ^ g.fractionBits = 2 ^ f.fractionBits * 2 ^ (g.fractionBits - f.fractionBits) := by
      rw [← pow_add]
      congr 1
      omega
    rw [Nat.shiftLeft_eq, split]
    exact Nat.mul_lt_mul_of_pos_right x.fraction_lt (Nat.two_pow_pos _)
  have top : (x.fraction <<< (g.fractionBits - f.fractionBits)).testBit (g.fractionBits - 1) =
      true := by
    have before := testBit_fraction_of_quiet wider.quiet nan quiet
    have quietBit := wider.quiet
    have place : g.fractionBits - 1 - (g.fractionBits - f.fractionBits) = f.fractionBits - 1 := by
      simp only [Format.fractionBits] at bits ⊢
      omega
    rw [Nat.testBit_shiftLeft, place, before, Bool.and_true, decide_eq_true_iff]
    simp only [Format.fractionBits] at bits ⊢
    omega
  obtain ⟨wideNaN, wideQuiet, payload⟩ := quiet_ofFields (wider.quiet.trans wider.precision) x.sign
    g.exponentMax small top
  have flags : (convertNaN g x).flags = Flags.none := by
    rw [convertNaN, quiet]
    rfl
  have value : (convertNaN g x).value =
      (ofFields g x.sign g.exponentMax
        (x.fraction <<< (g.fractionBits - f.fractionBits))).quiet := by
    simp only [convertNaN, if_pos bits]
  rw [value]
  exact ⟨flags, rfl, wideNaN, wideQuiet, payload.trans (Nat.shiftLeft_eq _ _)⟩

/-- A payload moved to the top of a wider significand is moved back. -/
theorem payload_moved_back (wider : f.Widens g) {x : Fp f} {y : Fp g}
    (moved : y.fraction = x.fraction * 2 ^ (g.fractionBits - f.fractionBits)) :
    (if g.fractionBits ≤ f.fractionBits then y.fraction <<< (f.fractionBits - g.fractionBits)
      else y.fraction >>> (g.fractionBits - f.fractionBits)) = x.fraction := by
  have bits : f.fractionBits ≤ g.fractionBits := Nat.sub_le_sub_right wider.precision 1
  split
  · have same : f.fractionBits = g.fractionBits := by omega
    rw [moved, same, Nat.sub_self, pow_zero, mul_one, Nat.shiftLeft_zero]
  · rw [moved, Nat.shiftRight_eq_div_pow, Nat.mul_div_cancel _ (Nat.two_pow_pos _)]

/-- Payloads survive the way there and back. -/
theorem convertNaN_convertNaN (wider : f.Widens g) {x : Fp f} (canonical : x.Canonical)
    (nan : x.isNaN = true) (quiet : x.isSignaling = false) :
    convertNaN f (convertNaN g x).value = pure x := by
  obtain ⟨-, sign, -, wideQuiet, payload⟩ := convertNaN_widens wider nan quiet
  have back := payload_moved_back wider payload
  generalize (convertNaN g x).value = wide at sign wideQuiet back
  simp only [convertNaN, back, sign, wideQuiet,
    quiet_ofFields_fraction wider.narrow wider.quiet canonical nan quiet]
  rfl

/-! ## Infinities and zeros -/

theorem infinity_fields (f : Format) (sign : Bool) :
    (infinity f sign).exponent.toNat = f.exponentMax ∧ (infinity f sign).fraction = 0 := by
  constructor
  · simp only [infinity, ofFields, BitVec.toNat_ofNat, Nat.mod_eq_of_lt exponentMax_lt]
  · apply Nat.eq_of_testBit_eq
    intro i
    rw [testBit_fraction, infinity, ofFields, BitVec.getLsbD_ofNat, Nat.pow_eq, Nat.testBit_two_pow]
    by_cases inside : i < f.fractionBits
    · simp [inside.ne']
    · simp [inside]

theorem kind_infinity (f : Format) (sign : Bool) : (infinity f sign).kind = .infinity := by
  obtain ⟨exponent, fraction⟩ := infinity_fields f sign
  rw [kind_of_not_isFinite (not_not_intro exponent), if_pos fraction]

/-- A canonical infinity is known from its sign. -/
theorem eq_infinity (regular : f.Regular) {x : Fp f} (canonical : x.Canonical)
    (kind : x.kind = .infinity) : x = infinity f x.sign := by
  have infinite : ¬ x.IsFinite := by
    intro finite
    rw [kind_of_isFinite finite] at kind
    split_ifs at kind
  have fraction : x.fraction = 0 := by
    rw [kind_of_not_isFinite infinite] at kind
    by_contra nonzero
    simp [nonzero] at kind
  obtain ⟨full, none⟩ := infinity_fields f x.sign
  exact eq_of_fraction_eq regular.precision_pos canonical (canonical_infinity x.sign regular) rfl
    (BitVec.eq_of_toNat_eq ((not_not.mp infinite).trans full.symm)) (fraction.trans none.symm)

theorem coefficient_zero (f : Format) (sign : Bool) : (zero f sign).coefficient = 0 := by
  simp [coefficient, zero, ofFields]

theorem isFinite_zero (regular : f.Regular) (sign : Bool) : (zero f sign).IsFinite := by
  have exponents := regular.exponentMax_ge
  have exponent : (zero f sign).exponent.toNat = 0 := by simp [zero, ofFields]
  rw [IsFinite, exponent]
  omega

theorem kind_zero (regular : f.Regular) (sign : Bool) : (zero f sign).kind = .zero := by
  rw [kind_of_isFinite (isFinite_zero regular sign), if_pos (coefficient_zero f sign)]

theorem value_zero (f : Format) (sign : Bool) : (zero f sign).value ℚ = 0 :=
  (value_eq_zero_iff ℚ).mpr (coefficient_zero f sign)

theorem value_of_kind_zero {K : Type*} [Field K] [LinearOrder K] [IsStrictOrderedRing K] {x : Fp f}
    (kind : x.kind = .zero) : x.value K = 0 := by
  rw [value_eq_zero_iff]
  rw [kind_of_isFinite (isFinite_of_kind (.inl kind))] at kind
  by_contra nonzero
  simp [nonzero] at kind

/-- A canonical zero is known from its sign. -/
theorem eq_zero (regular : f.Regular) {x : Fp f} (canonical : x.Canonical)
    (kind : x.kind = .zero) : x = zero f x.sign :=
  eq_of_value_eq (K := ℚ) regular.precision_pos canonical
    (canonical_zero x.sign regular.precision_pos) rfl
    ((value_of_kind_zero kind).trans (value_zero f x.sign).symm)

/-! ## Numbers -/

/-- A number that the other format has is converted as it is. -/
theorem convert_of_represents (regular : g.Regular) (env : Environment) {x : Fp f}
    (kind : x.kind = .finite) (represents : g.Represents (x.value ℚ)) :
    let result := convert g env x
    result.flags = Flags.none ∧ result.value.Canonical ∧ result.value.kind = .finite ∧
      result.value.sign = x.sign ∧ result.value.value ℚ = x.value ℚ := by
  intro result
  have nonzero := coefficient_pos kind
  have denotes : x.magnitude.Denotes ((x.coefficient : ℚ) * 2 ^ x.unitExponent) :=
    Magnitude.denotes_dyadic nonzero _
  have encoded : result = encode g env g.precision x.sign x.magnitude := by
    simp only [result, convert, kind]
  obtain ⟨flags, finite, canonical, sign, value⟩ :=
    encode_of_represents regular env x.sign denotes (by rwa [← value_eq_withSign])
  rw [← encoded, ← value_eq_withSign] at value
  rw [← encoded] at flags finite canonical sign
  refine ⟨flags, canonical, ?_, sign, value⟩
  have kept : result.value.coefficient ≠ 0 := by
    rw [ne_eq, ← value_eq_zero_iff ℚ, value, value_eq_zero_iff]
    omega
  rw [kind_of_isFinite finite, if_neg kept]

end Fp

/-- Whether an encoding in another format means the same: it has the sign, is of the kind, and
then denotes the number, or is a NaN as quiet with the payload, counted from the top. -/
structure SameMeaning (x : Fp f) (y : Fp g) : Prop where
  sign : y.sign = x.sign
  kind : y.kind = x.kind
  value : x.IsFinite → y.value ℚ = x.value ℚ
  payload : x.isNaN = true → y.isSignaling = x.isSignaling ∧
    y.fraction * 2 ^ f.fractionBits = x.fraction * 2 ^ g.fractionBits

namespace Fp

variable (g) in
/-- Whether converting to another format and back loses nothing. -/
structure Lossless (env back : Environment) (x : Fp f) : Prop where
  flags : (convert g env x).flags = Flags.none
  meaning : SameMeaning x (convert g env x).value
  restored : convert f back (convert g env x).value = ⟨x, Flags.none⟩

section

variable (wider : f.Widens g) {x : Fp f} (canonical : x.Canonical) (env back : Environment)
include wider canonical

theorem lossless_nan (quiet : x.isSignaling = false) (kind : x.kind = .nan) :
    Lossless g env back x := by
  have nan : x.isNaN = true := by rw [isNaN, kind]; rfl
  have infinite : ¬ x.IsFinite := fun finite => by simp [not_isNaN finite] at nan
  obtain ⟨flags, sign, wideNaN, wideQuiet, payload⟩ := convertNaN_widens wider nan quiet
  have wide : convert g env x = convertNaN g x := by simp only [convert, kind]
  have wideKind : (convertNaN g x).value.kind = .nan := by simpa [isNaN] using wideNaN
  have bits : 2 ^ g.fractionBits = 2 ^ (g.fractionBits - f.fractionBits) * 2 ^ f.fractionBits := by
    rw [← pow_add, Nat.sub_add_cancel (Nat.sub_le_sub_right wider.precision 1)]
  constructor
  · rw [wide, flags]
  · rw [wide]
    refine ⟨sign, wideKind.trans kind.symm, fun finite => absurd finite infinite,
      fun _ => ⟨wideQuiet.trans quiet.symm, ?_⟩⟩
    rw [payload, bits, mul_assoc]
  · rw [wide, convert, wideKind]
    exact convertNaN_convertNaN wider canonical nan quiet

theorem lossless_infinity (kind : x.kind = .infinity) : Lossless g env back x := by
  have wide : convert g env x = pure (infinity g x.sign) := by simp only [convert, kind]
  have infinite : ¬ x.IsFinite := by
    intro finite
    rw [kind_of_isFinite finite] at kind
    split_ifs at kind
  have number : ¬ x.isNaN = true := by simp [isNaN, kind]
  constructor
  · rw [wide, Raised.pure_flags]
  · rw [wide, Raised.pure_value]
    exact ⟨rfl, (kind_infinity g x.sign).trans kind.symm, fun finite => absurd finite infinite,
      fun nan => absurd nan number⟩
  · rw [wide, Raised.pure_value]
    simp only [convert, kind_infinity]
    exact congrArg pure (eq_infinity wider.narrow canonical kind).symm

theorem lossless_zero (kind : x.kind = .zero) : Lossless g env back x := by
  have wide : convert g env x = pure (zero g x.sign) := by simp only [convert, kind]
  have wideKind := kind_zero wider.wide x.sign
  have number : ¬ x.isNaN = true := by simp [isNaN, kind]
  constructor
  · rw [wide, Raised.pure_flags]
  · rw [wide, Raised.pure_value]
    exact ⟨rfl, wideKind.trans kind.symm,
      fun _ => (value_zero g x.sign).trans (value_of_kind_zero kind).symm,
      fun nan => absurd nan number⟩
  · rw [wide, Raised.pure_value]
    simp only [convert, wideKind]
    exact congrArg pure (eq_zero wider.narrow canonical kind).symm

theorem lossless_finite (kind : x.kind = .finite) : Lossless g env back x := by
  have narrow := wider.narrow
  have number : ¬ x.isNaN = true := by simp [isNaN, kind]
  have represents := represents_value (K := ℚ) narrow (isFinite_of_kind (.inr kind))
  obtain ⟨flags, -, wideKind, sign, value⟩ :=
    convert_of_represents wider.wide env kind (represents.widen wider)
  refine ⟨flags, ⟨sign, wideKind.trans kind.symm, fun _ => value, fun nan => absurd nan number⟩, ?_⟩
  generalize (convert g env x).value = wide at wideKind sign value
  obtain ⟨restoredFlags, restoredCanonical, -, restoredSign, restoredValue⟩ :=
    convert_of_represents narrow back wideKind (by rwa [value])
  have restored : (convert f back wide).value = x :=
    eq_of_value_eq narrow.precision_pos restoredCanonical canonical (restoredSign.trans sign)
      (restoredValue.trans value)
  rw [← restored, ← restoredFlags]

end

end Fp

/-- **Widening is exact and reversible.**  In a wider format every encoding but a signalling NaN
means the same, no flag is raised on the way there, and the way back restores it without one, in
whatever environment each of the two goes. -/
theorem Fp.convert_widening (pair : (f, g) ∈ wideningPairs) {x : Fp f} (canonical : x.Canonical)
    (quiet : x.isSignaling = false) (env back : Environment) :
    (convert g env x).flags = Flags.none ∧ SameMeaning x (convert g env x).value ∧
      convert f back (convert g env x).value = ⟨x, Flags.none⟩ := by
  have wider := Format.widens_of_mem pair
  have lossless : Lossless g env back x := by
    cases kind : x.kind with
    | nan => exact lossless_nan wider canonical env back quiet kind
    | infinity => exact lossless_infinity wider canonical env back kind
    | zero => exact lossless_zero wider canonical env back kind
    | finite => exact lossless_finite wider canonical env back kind
  exact ⟨lossless.flags, lossless.meaning, lossless.restored⟩

/-- The least number in extended precision, below zero, which is normal in quadruple precision. -/
theorem Fp.convert_widening_least :
    let least : Extended := ⟨true, 0, 1⟩
    let back : Environment := ⟨.up, .afterRounding, .single⟩
    (extended80, binary128) ∈ wideningPairs ∧ least.Canonical ∧ least.isSignaling = false ∧
      (convert binary128 default least).flags = Flags.none ∧
      SameMeaning least (convert binary128 default least).value ∧
      convert extended80 back (convert binary128 default least).value = ⟨least, Flags.none⟩ := by
  have pair : (extended80, binary128) ∈ wideningPairs := by simp [wideningPairs]
  have canonical : (⟨true, 0, 1⟩ : Extended).Canonical := by decide
  have quiet : (⟨true, 0, 1⟩ : Extended).isSignaling = false := by decide
  exact ⟨pair, canonical, quiet,
    Fp.convert_widening pair canonical quiet default ⟨.up, .afterRounding, .single⟩⟩

end M68k
