import M68k.Fpu.Operand
import M68k.Proofs.Fp.IntegerConversion
import M68k.Proofs.Fp.NaNPropagation

/-!
# Operands are loaded and stored without loss

What an image in memory denotes is loaded as it is, whatever the environment: every integer and
every number of a binary format is an extended number, and a NaN keeps its payload and whether it
signals.  Storing the number in the format that it came from restores the image, its unused bits
apart.  Only a signalling NaN of single or double precision comes back quiet, and that is invalid.

* `convert_widen` — widening a number or NaN and converting it back;
* `RoundTrip` — how an image is loaded and stored again;
* `operand_round_trip` — the formats, one by one.
-/

namespace M68k

namespace Fp

variable {f : Format}

theorem quietBit_eq (hp : 2 ≤ f.precision) (x : Fp f) :
    x.quietBit = x.fraction.testBit (f.fractionBits - 1) := by
  rw [testBit_fraction, decide_eq_true (by simp only [Format.fractionBits]; omega), Bool.true_and]
  rfl

theorem fields_of_nan {x : Fp f} (nan : x.isNaN = true) :
    x.exponent.toNat = f.exponentMax ∧ x.fraction ≠ 0 := by
  have infinite : ¬ x.IsFinite := by
    intro finite
    rw [not_isNaN finite] at nan
    exact Bool.false_ne_true nan
  refine ⟨not_not.mp infinite, fun none => ?_⟩
  rw [isNaN, kind_of_not_isFinite infinite, if_pos none] at nan
  exact absurd nan (by decide)

theorem kind_of_fields {x : Fp f} (exponent : x.exponent.toNat = f.exponentMax)
    (fraction : x.fraction ≠ 0) : x.kind = .nan := by
  rw [kind_of_not_isFinite (not_not_intro exponent), if_neg fraction]

/-! ## Formats without a stored integer bit -/

section Implicit

variable (implicit : f.explicitInteger = false)
include implicit

theorem canonical_of_implicit (x : Fp f) : x.Canonical := by
  intro explicit
  rw [implicit] at explicit
  exact absurd explicit Bool.false_ne_true

/-- A NaN is put together from its sign and payload. -/
theorem ofFields_fraction (regular : f.Regular) {x : Fp f} (nan : x.isNaN = true) :
    ofFields f x.sign f.exponentMax x.fraction = x := by
  obtain ⟨exponent, -⟩ := fields_of_nan nan
  have stored : f.storedBits = f.fractionBits := by simp [Format.storedBits, implicit]
  refine eq_of_fraction_eq regular.precision_pos (canonical_of_implicit implicit _)
    (canonical_of_implicit implicit _) rfl (BitVec.eq_of_toNat_eq ?_) ?_
  · rw [ofFields, BitVec.toNat_ofNat, Nat.mod_eq_of_lt exponentMax_lt, exponent]
  · rw [fraction, ofFields, BitVec.toNat_ofNat, stored, Nat.pow_eq, Nat.mod_mod,
      Nat.mod_eq_of_lt x.fraction_lt]

/-- A NaN that is quiet stays as it is encoded. -/
theorem quiet_eq_self (regular : f.Regular) (hp : 2 ≤ f.precision) {x : Fp f}
    (nan : x.isNaN = true) (quiet : x.isSignaling = false) : x.quiet = x :=
  eq_of_fraction_eq regular.precision_pos (canonical_of_implicit implicit _)
    (canonical_of_implicit implicit _) rfl
    (BitVec.eq_of_toNat_eq (toNat_allOnes_exponent.trans (fields_of_nan nan).1.symm))
    ((fraction_quiet hp x).trans (quieted_self hp nan quiet).payload.symm)

end Implicit

end Fp

namespace Fpu

open Fp

/-! ## Widening -/

section Widen

variable {f : Format} (wider : f.Widens extended80) (env back : Environment) {x : Fp f}
include wider

/-- A widened NaN keeps its payload, and whether it signals. -/
theorem widen_nan (nan : x.isNaN = true) :
    (widen env x).kind = .nan ∧ (widen env x).isSignaling = x.isSignaling ∧
      (widen env x).fraction = x.fraction * 2 ^ (extended80.fractionBits - f.fractionBits) := by
  have bits : f.fractionBits ≤ 63 := Nat.sub_le_sub_right wider.precision 1
  have hp := wider.quiet
  have small : x.fraction * 2 ^ (63 - f.fractionBits) < 2 ^ 63 := by
    have split : 2 ^ 63 = 2 ^ f.fractionBits * 2 ^ (63 - f.fractionBits) := by
      rw [← pow_add, Nat.add_sub_cancel' bits]
    rw [split]
    exact Nat.mul_lt_mul_of_pos_right x.fraction_lt (Nat.two_pow_pos _)
  have widened : widen env x =
      ofFields extended80 x.sign 0x7FFF (2 ^ 63 + x.fraction * 2 ^ (63 - f.fractionBits)) := by
    rw [widen, if_pos nan, Nat.shiftLeft_eq]
    rfl
  have fraction : (widen env x).fraction = x.fraction * 2 ^ (63 - f.fractionBits) := by
    rw [widened]
    show (2 ^ 63 + x.fraction * 2 ^ (63 - f.fractionBits)) % 2 ^ 64 % 2 ^ 63 = _
    omega
  have kind : (widen env x).kind = .nan := by
    refine kind_of_fields (by rw [widened]; rfl) ?_
    rw [fraction]
    exact Nat.mul_ne_zero (fields_of_nan nan).2 (Nat.two_pow_pos _).ne'
  refine ⟨kind, ?_, fraction⟩
  have inside : 63 - f.fractionBits ≤ 62 := by
    simp only [Format.fractionBits]
    omega
  have place : 62 - (63 - f.fractionBits) = f.fractionBits - 1 := by
    simp only [Format.fractionBits] at bits ⊢
    omega
  have bit : (widen env x).quietBit = x.quietBit := by
    rw [quietBit_eq (by decide), quietBit_eq hp, fraction, ← place, ← Nat.shiftLeft_eq]
    show Nat.testBit _ 62 = _
    rw [Nat.testBit_shiftLeft, decide_eq_true inside, Bool.true_and]
  rw [isSignaling, isSignaling, bit, isNaN, kind, nan]
  rfl

theorem sameMeaning_widen_nan (nan : x.isNaN = true) : SameMeaning x (widen env x) := by
  obtain ⟨kind, signaling, payload⟩ := widen_nan wider env nan
  have same : x.kind = .nan := by simpa [isNaN] using nan
  have infinite : ¬ x.IsFinite := fun finite => by simp [not_isNaN finite] at nan
  have bits : 2 ^ extended80.fractionBits =
      2 ^ (extended80.fractionBits - f.fractionBits) * 2 ^ f.fractionBits := by
    rw [← pow_add, Nat.sub_add_cancel (Nat.sub_le_sub_right wider.precision 1)]
  refine ⟨by rw [widen, if_pos nan]; rfl, kind.trans same.symm,
    fun finite => absurd finite infinite, fun _ => ⟨signaling, ?_⟩⟩
  rw [payload, bits, mul_assoc]

section

variable (implicit : f.explicitInteger = false)
include implicit

/-- A widened NaN is converted back to the NaN made quiet. -/
theorem convert_widen_nan (nan : x.isNaN = true) :
    convert f back (widen env x) = ⟨x.quiet, Flags.when x.isSignaling Flags.invalid⟩ := by
  obtain ⟨kind, signaling, payload⟩ := widen_nan wider env nan
  have sign : (widen env x).sign = x.sign := (sameMeaning_widen_nan wider env nan).sign
  simp only [convert, kind, convertNaN, payload_moved_back wider payload, sign, signaling,
    ofFields_fraction implicit wider.narrow nan]

theorem lossless_of_number (number : x.isNaN = false) : Lossless extended80 env back x := by
  have canonical := canonical_of_implicit implicit x
  cases kind : x.kind with
  | nan => simp [isNaN, kind] at number
  | infinity => exact lossless_infinity wider canonical env back kind
  | zero => exact lossless_zero wider canonical env back kind
  | finite => exact lossless_finite wider canonical env back kind

/-- What is widened means the same. -/
theorem sameMeaning_widen : SameMeaning x (widen env x) := by
  cases nan : x.isNaN with
  | true => exact sameMeaning_widen_nan wider env nan
  | false =>
    rw [widen, nan]
    exact (lossless_of_number wider env env implicit nan).meaning

/-- It is converted back to what it was, but for a signalling NaN, which becomes quiet. -/
theorem convert_widen :
    convert f back (widen env x) =
      ⟨if x.isSignaling then x.quiet else x, Flags.when x.isSignaling Flags.invalid⟩ := by
  cases nan : x.isNaN with
  | true =>
    rw [convert_widen_nan wider env back implicit nan]
    cases signaling : x.isSignaling with
    | true => rfl
    | false => rw [quiet_eq_self implicit wider.narrow wider.quiet nan signaling]; rfl
  | false =>
    rw [widen, nan, isSignaling_of_number nan]
    exact (lossless_of_number wider env back implicit nan).restored

end

end Widen

/-! ## Images -/

/-- How an image is loaded in one environment and stored again in another: without an exception, to
a number or NaN with the given meaning, and back to the given image with the given flags. -/
structure RoundTrip (env back : Environment) (format : DataFormat) (image : Image)
    (Means : Extended → Prop) (restored : Image) (flags : Flags) : Prop where
  exceptions : (load env format image).2 = 0
  meaning : Means (load env format image).1
  restored : ∀ k, store back format k (load env format image).1 = ⟨(restored, 0), flags⟩

/-- Whether an extended number is an integer; zero is positive. -/
structure IsInteger (n : ℤ) (x : Extended) : Prop where
  finite : x.IsFinite
  sign : x.sign = decide (n < 0)
  value : x.value ℚ = n

section Images

variable (env back : Environment) (image : Image)

/-- The integers of three widths, the formats of which differ in nothing else. -/
theorem roundTrip_integer (format : DataFormat) {width : ℕ} (wide : 1 ≤ width) (short : width ≤ 32)
    (number : BitVec width)
    (loaded : load env format image = ((ofInt extended80 env number.toInt).value, 0))
    (stored : ∀ k x, store back format k x =
      ⟨(⟨(BitVec.ofInt width (x.toInt width back.rounding).value).setWidth 32, 0, 0⟩,
        if (x.toInt width back.rounding).flags.includes Flags.invalid then operandError else 0),
        (x.toInt width back.rounding).flags⟩) :
    RoundTrip env back format image (IsInteger number.toInt) ⟨number.setWidth 32, 0, 0⟩
      Flags.none := by
  have low : -2 ^ (width - 1) ≤ number.toInt := BitVec.le_toInt number
  have high : number.toInt < 2 ^ (width - 1) := BitVec.toInt_lt
  have small : number.toInt.natAbs ≤ 2 ^ extended80.fractionBits := by
    have bits : 2 ^ 31 ≤ 2 ^ extended80.fractionBits := Nat.pow_le_pow_right two_pos (by decide)
    have most : (2 : ℤ) ^ (width - 1) ≤ 2 ^ 31 := pow_le_pow_right₀ one_le_two (by omega)
    omega
  obtain ⟨-, finite, sign, value⟩ :=
    ofInt_of_represents Extended.regular env (represents_intCast (by simp) small)
  refine ⟨by rw [loaded], by rw [loaded]; exact ⟨finite, sign, value⟩, fun k => ?_⟩
  have valid : Flags.none.includes Flags.invalid = false := by decide
  rw [stored, loaded, toInt_of_value finite wide value low high, BitVec.ofInt_toInt, valid]
  rfl

theorem ofQuad_leading : Image.ofQuad image.leading = ⟨image.first, image.second, 0⟩ := by
  rw [Image.ofQuad, Image.leading, BitVec.extractLsb'_append_eq_left,
    BitVec.extractLsb'_append_eq_right]

/-- The fields of an extended number in an image. -/
theorem unpack_eq :
    unpack image =
      ⟨image.first.getLsbD 31, image.first.extractLsb' 16 15, image.second ++ image.third⟩ := by
  have sign : (image.first.extractLsb' 16 16).getLsbD 15 = image.first.getLsbD 31 := by
    rw [BitVec.getLsbD_extractLsb', decide_eq_true (by decide), Bool.true_and]
  have exponent : (image.first.extractLsb' 16 16).extractLsb' 0 15 =
      image.first.extractLsb' 16 15 := by
    apply BitVec.eq_of_getLsbD_eq
    intro i inside
    have inside' : 0 + i < 16 := by omega
    rw [BitVec.getLsbD_extractLsb', BitVec.getLsbD_extractLsb', BitVec.getLsbD_extractLsb',
      decide_eq_true inside', Bool.true_and, zero_add]
  rw [unpack, Extended.ofParts, sign, exponent]

/-- Sign and exponent above a half word of zeros are the first word without its lower half. -/
theorem high_append_zero (first : BitVec 32) :
    (BitVec.ofBool (first.getLsbD 31) ++ first.extractLsb' 16 15 : BitVec 16) ++ 0#16 =
      first &&& 0xFFFF0000#32 := by
  have masked : ∀ i < 32, (0xFFFF0000#32).getLsbD i = decide (16 ≤ i) := by decide
  apply BitVec.eq_of_getLsbD_eq
  intro i inside
  rw [BitVec.getLsbD_and, masked i inside, BitVec.getLsbD_append, BitVec.getLsbD_append]
  by_cases low : i < 16
  · simp [low]
  · by_cases top : i = 31
    · subst top
      simp
    · have field : i - 16 < 15 := by omega
      have place : 16 + (i - 16) = i := by omega
      have upper : 16 ≤ i := by omega
      simp [low, field, place, upper]

/-- The extended format with the half word that has no meaning cleared. -/
theorem pack_unpack :
    pack (unpack image) = ⟨image.first &&& 0xFFFF0000, image.second, image.third⟩ := by
  rw [unpack_eq, pack, Extended.high, high_append_zero, BitVec.extractLsb'_append_eq_left,
    BitVec.extractLsb'_append_eq_right]
  rfl

omit image in
/-- An extended number is in its image, whatever it encodes. -/
theorem unpack_pack (value : Extended) : unpack (pack value) = value := by
  have sign : (pack value).first.getLsbD 31 = value.sign := by
    simp only [pack, Extended.high, BitVec.getLsbD_append]
    exact BitVec.getLsbD_ofBool value.sign 0
  have exponent : (pack value).first.extractLsb' 16 15 = value.exponent := by
    apply BitVec.eq_of_getLsbD_eq
    intro i inside
    have upper : ¬16 + i < 16 := by omega
    simp only [pack, Extended.high, BitVec.getLsbD_extractLsb', BitVec.getLsbD_append, inside,
      upper, Nat.add_sub_cancel_left, decide_true, Bool.true_and, if_true, if_false]
  have significand : (pack value).second ++ (pack value).third = value.significand :=
    Image.leading_ofQuad value.significand
  rw [unpack_eq, sign, exponent, significand]

/-- The formats of single and double precision. -/
theorem roundTrip_binary {f : Format} (wider : f.Widens extended80)
    (implicit : f.explicitInteger = false) (format : DataFormat) (x : Fp f)
    (imageOf : BitVec f.width → Image) (loaded : load env format image = (widen env x, 0))
    (stored : ∀ k y, store back format k y =
      ⟨(imageOf (convert f back y).value.toBits, 0), (convert f back y).flags⟩) :
    RoundTrip env back format image (SameMeaning x)
      (imageOf (if x.isSignaling then x.quiet else x).toBits)
      (Flags.when x.isSignaling Flags.invalid) := by
  refine ⟨by rw [loaded], ?_, fun k => ?_⟩
  · rw [loaded]
    exact sameMeaning_widen wider env implicit
  · rw [stored, loaded, convert_widen wider env back implicit]

/-- **Operands are loaded and stored without loss**, whatever the environments.  The unused bits of
an image are cleared, and a signalling NaN of single or double precision comes back quiet. -/
theorem operand_round_trip :
    let byte := image.first.extractLsb' 0 8
    let word := image.first.extractLsb' 0 16
    let single := Fp.ofBits binary32 image.first
    let double := Fp.ofBits binary64 image.leading
    RoundTrip env back .byte image (IsInteger byte.toInt) ⟨byte.setWidth 32, 0, 0⟩ Flags.none ∧
      RoundTrip env back .word image (IsInteger word.toInt) ⟨word.setWidth 32, 0, 0⟩ Flags.none ∧
      RoundTrip env back .long image (IsInteger image.first.toInt) ⟨image.first, 0, 0⟩
        Flags.none ∧
      RoundTrip env back .single image (SameMeaning single)
        (if single.isSignaling then ⟨single.quiet.toBits, 0, 0⟩ else ⟨image.first, 0, 0⟩)
        (Flags.when single.isSignaling Flags.invalid) ∧
      RoundTrip env back .double image (SameMeaning double)
        (if double.isSignaling then .ofQuad double.quiet.toBits
          else ⟨image.first, image.second, 0⟩)
        (Flags.when double.isSignaling Flags.invalid) ∧
      RoundTrip env back .extended image
        (fun x => x.sign = image.first.getLsbD 31 ∧ x.exponent = image.first.extractLsb' 16 15 ∧
          x.significand = image.second ++ image.third)
        ⟨image.first &&& 0xFFFF0000, image.second, image.third⟩ Flags.none := by
  intro byte word single double
  have long := roundTrip_integer env back image .long (by decide) (by decide) image.first rfl
    fun _ _ => rfl
  have single := roundTrip_binary env back image (Format.widens_of_mem (by simp [wideningPairs]))
    rfl .single (Fp.ofBits binary32 image.first) (⟨·, 0, 0⟩) rfl
    fun _ _ => congrArg (Raised.mk _) BitVec.or_zero
  have double := roundTrip_binary env back image (Format.widens_of_mem (by simp [wideningPairs]))
    rfl .double (Fp.ofBits binary64 image.leading) .ofQuad rfl
    fun _ _ => congrArg (Raised.mk _) BitVec.or_zero
  rw [apply_ite Fp.toBits, Fp.toBits_ofBits] at single double
  refine ⟨roundTrip_integer env back image .byte (by decide) (by decide) byte rfl fun _ _ => rfl,
    roundTrip_integer env back image .word (by decide) (by decide) word rfl fun _ _ => rfl,
    by rwa [BitVec.setWidth_eq] at long, ?_, ?_, ?_⟩
  · rwa [apply_ite (⟨·, 0, 0⟩ : BitVec 32 → Image)] at single
  · rwa [apply_ite Image.ofQuad, ofQuad_leading] at double
  · refine ⟨rfl, ?_, fun k => congrArg (fun i => pure (i, 0)) (pack_unpack image)⟩
    show (unpack image).sign = _ ∧ (unpack image).exponent = _ ∧ (unpack image).significand = _
    rw [unpack_eq]
    exact ⟨rfl, rfl, rfl⟩

end Images

end Fpu

end M68k
