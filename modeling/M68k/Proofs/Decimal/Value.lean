import M68k.Proofs.Decimal.Digits
import M68k.Proofs.Fp.ExactRounding

/-!
# The numbers that packed decimal images stand for

An image of a finite number is read as it is laid out: seventeen digits with their weights, the
sign of the number, and the exponent of the first digit with a sign of its own.  A load reads three
digits of the exponent, and a store may write a fourth.

* `mantissa_eq_significand`, `exponent_eq_loadedExponent` — a load reads digits and exponent so.
-/

namespace M68k

namespace Decimal

/-- The digit with the weight `10 ^ i` among the seventeen of an image, counted from the last. -/
def place (image : Image) (i : ℕ) : ℕ :=
  if i < 8 then digit image.third i
  else if i < 16 then digit image.second (i - 8)
  else digit image.first (i - 16)

/-- The seventeen digits as a whole number; digits above nine count at face value. -/
def significand (image : Image) : ℕ := ∑ i ∈ Finset.range 17, place image i * 10 ^ i

/-- The sign of the exponent applied to its size. -/
def signedExponent (image : Image) (size : ℕ) : ℤ := withSign (image.first.getLsbD 30) (size : ℤ)

/-- The three digits of the exponent. -/
def exponentSize (image : Image) : ℕ :=
  digit image.first 6 * 100 + digit image.first 5 * 10 + digit image.first 4

/-- The exponent that a load reads. -/
def loadedExponent (image : Image) : ℤ := signedExponent image (exponentSize image)

/-- The exponent that a store writes, with its fourth digit. -/
def storedExponent (image : Image) : ℤ :=
  signedExponent image (digit image.first 3 * 1000 + exponentSize image)

/-- The number that an image stands for when its first digit has the given exponent. -/
def decimalValue (image : Image) (exponent : ℤ) : ℚ :=
  withSign (image.first.getLsbD 31) ((significand image : ℚ) * 10 ^ (exponent - 16))

/-! ## Powers of ten -/

theorem ten_zpow_pos (power : ℤ) : (0 : ℚ) < 10 ^ power := zpow_pos (by norm_num) power

/-- Powers of one number within those of another, from one such power. -/
theorem zpow_bounds_of_pow_le {a b : ℚ} {m n : ℕ} (ha : 1 ≤ a) (hb : 1 ≤ b) (hm : m ≠ 0)
    (base : a ^ m ≤ b ^ n) {e bound : ℤ} (enough : n * e.natAbs ≤ m * bound) :
    b ^ (-bound) ≤ a ^ e ∧ a ^ e ≤ b ^ bound := by
  have pa : 0 < a := zero_lt_one.trans_le ha
  have pb : 0 < b := zero_lt_one.trans_le hb
  have most : a ^ (e.natAbs : ℤ) ≤ b ^ bound := by
    refine (pow_le_pow_iff_left₀ (zpow_pos pa _).le (zpow_pos pb _).le hm).mp ?_
    calc (a ^ (e.natAbs : ℤ)) ^ m = (a ^ m) ^ e.natAbs := by
          rw [zpow_natCast, ← pow_mul, ← pow_mul, mul_comm]
      _ ≤ (b ^ n) ^ e.natAbs := pow_le_pow_left₀ (pow_pos pa m).le base _
      _ = b ^ ((n * e.natAbs : ℕ) : ℤ) := by rw [zpow_natCast, pow_mul]
      _ ≤ b ^ (m * bound) := zpow_le_zpow_right₀ hb (by rwa [Nat.cast_mul])
      _ = (b ^ bound) ^ m := by rw [mul_comm, zpow_mul, zpow_natCast]
  constructor
  · calc b ^ (-bound) = (b ^ bound)⁻¹ := zpow_neg b bound
      _ ≤ (a ^ (e.natAbs : ℤ))⁻¹ := inv_anti₀ (zpow_pos pa _) most
      _ = a ^ (-(e.natAbs : ℤ)) := (zpow_neg a _).symm
      _ ≤ a ^ e := zpow_le_zpow_right₀ ha (by omega)
  · exact (zpow_le_zpow_right₀ ha (by omega)).trans most

/-- A power of ten is within that of two with four times the exponent. -/
theorem ten_zpow_bounds {e bound : ℤ} (enough : 4 * e.natAbs ≤ bound) :
    (2 : ℚ) ^ (-bound) ≤ 10 ^ e ∧ (10 : ℚ) ^ e ≤ 2 ^ bound :=
  zpow_bounds_of_pow_le (m := 1) (n := 4) (by norm_num) one_le_two one_ne_zero (by norm_num)
    (by omega)

/-- A power of two is within that of ten with a third of the exponent. -/
theorem two_zpow_bounds {e bound : ℤ} (enough : e.natAbs ≤ 3 * bound) :
    (10 : ℚ) ^ (-bound) ≤ 2 ^ e ∧ (2 : ℚ) ^ e ≤ 10 ^ bound :=
  zpow_bounds_of_pow_le (m := 3) (n := 1) one_le_two (by norm_num) three_ne_zero (by norm_num)
    (by omega)

/-! ## Digits and exponents -/

theorem digit_lt (word : BitVec 32) (i : ℕ) : digit word i < 16 := BitVec.isLt _

theorem place_lt (image : Image) (i : ℕ) : place image i < 16 := by
  unfold place
  split_ifs <;> exact digit_lt _ _

theorem significand_lt (image : Image) : significand image < 10 ^ 18 := by
  calc significand image ≤ ∑ i ∈ Finset.range 17, 15 * 10 ^ i :=
        Finset.sum_le_sum fun i _ =>
          Nat.mul_le_mul_right _ (Nat.le_of_lt_succ (place_lt image i))
    _ < 10 ^ 18 := by decide

theorem mantissa_eq_significand (image : Image) : mantissa image = significand image := by
  show appendDigits (appendDigits (digit image.first 0) image.second) image.third = _
  rw [appendDigits_eq, appendDigits_eq, ofDigits_eight, ofDigits_eight]
  simp only [significand, Finset.sum_range_succ, Finset.sum_range_zero, place]
  norm_num
  ring

theorem exponent_eq_loadedExponent (image : Image) : exponent image = loadedExponent image := by
  rw [exponent_eq, loadedExponent, signedExponent, withSign, exponentSize]

theorem natAbs_loadedExponent_le (image : Image) : (loadedExponent image).natAbs ≤ 1665 := by
  have d4 := digit_lt image.first 4
  have d5 := digit_lt image.first 5
  have d6 := digit_lt image.first 6
  rw [← exponent_eq_loadedExponent, natAbs_exponent]
  omega

end Decimal

end M68k
