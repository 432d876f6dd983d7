import M68k.Decimal.Packed
import M68k.Proofs.Fp.Sticky

/-!
# Loading from leading bits

A load multiplies or divides by a power of ten of up to thousands of bits and keeps about a hundred
of the result.  That is more than enough for the sixty-four of the extended format, so that the
number is rounded as if all of it were there.

* `jammed_stickyQuotient` — a sticky quotient stands for the exact one;
* `leadingBits_lt` — leading bits have room in 128;
* `encode_leadingBits` — they are rounded like the number.
-/

namespace M68k

namespace Decimal

/-- The magnitude `mantissa · 10 ^ power`. -/
def magnitudeOf (mantissa : ℕ) (power : ℤ) : Magnitude :=
  if 0 ≤ power then .dyadic (mantissa * Nat.pow 10 power.toNat) 0
  else .ratio mantissa (Nat.pow 10 (-power).toNat) 0

theorem denotes_magnitudeOf {digits : ℕ} (positive : 0 < digits) (power : ℤ) :
    (magnitudeOf digits power).Denotes ((digits : ℚ) * 10 ^ power) := by
  unfold magnitudeOf
  split_ifs with sign
  · obtain ⟨k, rfl⟩ := Int.eq_ofNat_of_zero_le sign
    have scaled : 0 < digits * Nat.pow 10 (k : ℤ).toNat :=
      Nat.mul_pos positive (Nat.pow_pos (by decide))
    have denotes := Magnitude.denotes_dyadic (K := ℚ) scaled 0
    simpa using denotes
  · obtain ⟨k, hk⟩ := Int.eq_ofNat_of_zero_le (show 0 ≤ -power by omega)
    obtain rfl : power = -(k : ℤ) := by omega
    refine ⟨positive, Nat.pow_pos (by decide), ?_⟩
    simp [div_eq_mul_inv]

/-! ## Sticky quotients -/

theorem or_one_eq (q : ℕ) : q ||| 1 = 2 * (q / 2) + 1 := by
  apply Nat.eq_of_testBit_eq
  intro i
  cases i with
  | zero => simp [Nat.testBit_zero]
  | succ i =>
    have half : (2 * (q / 2) + 1) / 2 = q / 2 := by omega
    rw [Nat.testBit_or, Nat.testBit_succ, Nat.testBit_succ, Nat.testBit_succ, half]
    simp

theorem stickyQuotient_bounds (n d : ℕ) :
    n / d ≤ stickyQuotient n d ∧ stickyQuotient n d ≤ n / d + 1 := by
  unfold stickyQuotient
  split_ifs
  · simp
  · rw [or_one_eq]
    omega

/-- A sticky quotient stands for the exact one. -/
theorem jammed_stickyQuotient (n : ℕ) {d : ℕ} (positive : 0 < d) :
    Jammed (stickyQuotient n d) ((n : ℚ) / d) := by
  have divisor : (0 : ℚ) < d := by exact_mod_cast positive
  have division : (n : ℚ) = d * (n / d : ℕ) + (n % d : ℕ) := by
    exact_mod_cast (Nat.div_add_mod n d).symm
  unfold stickyQuotient
  split_ifs with whole
  · left
    rw [whole, Nat.cast_zero, add_zero] at division
    rw [Nat.or_zero, div_eq_iff divisor.ne', mul_comm]
    exact division
  · right
    have some : (0 : ℚ) < (n % d : ℕ) := by exact_mod_cast Nat.pos_of_ne_zero whole
    have small : ((n % d : ℕ) : ℚ) < d := by exact_mod_cast Nat.mod_lt n positive
    have low : ((n / d : ℕ) : ℚ) < n / d := by
      rw [lt_div_iff₀ divisor]
      linarith
    have high : (n : ℚ) / d < (n / d : ℕ) + 1 := by
      rw [div_lt_iff₀ divisor]
      linarith
    rw [or_one_eq]
    refine ⟨by omega, abs_lt.mpr ?_⟩
    rcases Nat.mod_two_eq_zero_or_one (n / d) with even | odd
    · rw [show 2 * (n / d / 2) + 1 = n / d + 1 by omega]
      push_cast
      exact ⟨by linarith, by linarith⟩
    · rw [show 2 * (n / d / 2) + 1 = n / d by omega]
      exact ⟨by linarith, by linarith⟩

/-! ## Leading bits -/

theorem bitLength_bounds {n : ℕ} (positive : 0 < n) :
    1 ≤ bitLength n ∧ 2 ^ (bitLength n - 1) ≤ n ∧ n < 2 ^ bitLength n := by
  rw [bitLength, if_neg (by omega), Nat.add_sub_cancel]
  exact ⟨by omega, Nat.log2_self_le (by omega), Nat.lt_log2_self⟩

/-- A number that is not short has a hundred leading bits. -/
theorem topBits_spec {n : ℕ} (positive : 0 < n) :
    topBits n = (n, 0) ∧ n < 2 ^ 120 ∨
      ∃ shift, topBits n = (stickyQuotient n (2 ^ shift), shift) ∧ 2 ^ 99 ≤ n / 2 ^ shift ∧
        n / 2 ^ shift < 2 ^ 100 := by
  obtain ⟨some, low, high⟩ := bitLength_bounds positive
  unfold topBits
  dsimp only
  split_ifs with short
  · exact .inl ⟨rfl, high.trans_le (Nat.pow_le_pow_right two_pos short)⟩
  · have unit : 0 < 2 ^ (bitLength n - 100) := Nat.two_pow_pos _
    refine .inr ⟨bitLength n - 100, rfl, ?_, ?_⟩
    · rw [Nat.le_div_iff_mul_le unit, ← pow_add]
      exact (Nat.pow_le_pow_right two_pos (by omega)).trans low
    · rw [Nat.div_lt_iff_lt_mul unit, ← pow_add]
      exact high.trans_le (Nat.pow_le_pow_right two_pos (by omega))

section

variable {m d : ℕ} (positive : 0 < m) (divisor : 0 < d)
include positive divisor

/-- The quotient of a fraction that is divided far enough has a hundred bits. -/
theorem le_extended_quotient : 2 ^ 99 ≤ (m <<< (bitLength d + 100 - bitLength m)) / d := by
  obtain ⟨-, -, high⟩ := bitLength_bounds divisor
  obtain ⟨some, low, -⟩ := bitLength_bounds positive
  rw [Nat.le_div_iff_mul_le divisor, Nat.shiftLeft_eq]
  calc 2 ^ 99 * d ≤ 2 ^ 99 * 2 ^ bitLength d := Nat.mul_le_mul_left _ high.le
    _ = 2 ^ (99 + bitLength d) := (pow_add ..).symm
    _ ≤ 2 ^ (bitLength m - 1 + (bitLength d + 100 - bitLength m)) :=
        Nat.pow_le_pow_right two_pos (by omega)
    _ = 2 ^ (bitLength m - 1) * 2 ^ (bitLength d + 100 - bitLength m) := pow_add ..
    _ ≤ m * 2 ^ (bitLength d + 100 - bitLength m) := Nat.mul_le_mul_right _ low

/-- It has one bit more at most. -/
theorem extended_quotient_lt (small : m < 2 ^ 100) :
    (m <<< (bitLength d + 100 - bitLength m)) / d < 2 ^ 101 := by
  obtain ⟨some, low, -⟩ := bitLength_bounds divisor
  obtain ⟨some', least, high⟩ := bitLength_bounds positive
  have length : bitLength m - 1 < 100 :=
    (Nat.pow_lt_pow_iff_right one_lt_two).mp (least.trans_lt small)
  rw [Nat.div_lt_iff_lt_mul divisor, Nat.shiftLeft_eq]
  calc m * 2 ^ (bitLength d + 100 - bitLength m)
      < 2 ^ bitLength m * 2 ^ (bitLength d + 100 - bitLength m) :=
        Nat.mul_lt_mul_of_pos_right high (Nat.two_pow_pos _)
    _ = 2 ^ (bitLength m + (bitLength d + 100 - bitLength m)) := (pow_add ..).symm
    _ = 2 ^ (101 + (bitLength d - 1)) := by
        congr 1
        omega
    _ = 2 ^ 101 * 2 ^ (bitLength d - 1) := pow_add ..
    _ ≤ 2 ^ 101 * d := Nat.mul_le_mul_left _ low

end

/-- Leading bits have room in a register of 128 bits. -/
theorem leadingBits_lt {m : ℕ} (positive : 0 < m) (small : m < 2 ^ 100) (power : ℤ) :
    (leadingBits m power).1 < 2 ^ 128 := by
  unfold leadingBits
  split_ifs
  · have product : 0 < m * Nat.pow 10 power.toNat :=
      Nat.mul_pos positive (Nat.pow_pos (by decide))
    generalize m * Nat.pow 10 power.toNat = n at product
    obtain ⟨same, short⟩ | ⟨shift, top, -, high⟩ := topBits_spec product
    · rw [same]
      exact short.trans (by decide)
    · have := (stickyQuotient_bounds n (2 ^ shift)).2
      rw [top]
      dsimp only
      omega
  · have divisor : 0 < Nat.pow 10 (-power).toNat := Nat.pow_pos (by decide)
    generalize Nat.pow 10 (-power).toNat = d at divisor
    have high := extended_quotient_lt positive divisor small
    dsimp only
    generalize bitLength d + 100 - bitLength m = extra at high
    have := (stickyQuotient_bounds (m <<< extra) d).2
    omega

/-- A number other than zero has leading bits. -/
theorem leadingBits_pos {m : ℕ} (positive : 0 < m) (power : ℤ) : 0 < (leadingBits m power).1 := by
  unfold leadingBits
  split_ifs
  · have product : 0 < m * Nat.pow 10 power.toNat :=
      Nat.mul_pos positive (Nat.pow_pos (by decide))
    generalize m * Nat.pow 10 power.toNat = n at product
    obtain ⟨same, -⟩ | ⟨shift, top, low, -⟩ := topBits_spec product
    · rw [same]
      exact product
    · rw [top]
      exact (Nat.two_pow_pos 99).trans_le (low.trans (stickyQuotient_bounds n (2 ^ shift)).1)
  · have divisor : 0 < Nat.pow 10 (-power).toNat := Nat.pow_pos (by decide)
    generalize Nat.pow 10 (-power).toNat = d at divisor
    have low := le_extended_quotient positive divisor
    exact (Nat.two_pow_pos 99).trans_le (low.trans (stickyQuotient_bounds _ d).1)

/-- **Leading bits are rounded like the number.** -/
theorem encode_leadingBits {f : Format} {p : ℕ} (hp : 1 ≤ p) (short : p ≤ 98) (env : Environment)
    (sign : Bool) {m : ℕ} (positive : 0 < m) (power : ℤ) :
    Fp.encode f env p sign (.dyadic (leadingBits m power).1 (leadingBits m power).2) =
      Fp.encode f env p sign (magnitudeOf m power) := by
  have enough : 2 ^ (p + 1) ≤ 2 ^ 99 := Nat.pow_le_pow_right two_pos (by omega)
  unfold leadingBits magnitudeOf
  split_ifs with whole
  · have product : 0 < m * Nat.pow 10 power.toNat :=
      Nat.mul_pos positive (Nat.pow_pos (by decide))
    generalize m * Nat.pow 10 power.toNat = n at product
    obtain ⟨same, -⟩ | ⟨shift, top, low, -⟩ := topBits_spec product
    · rw [same]
      rfl
    · have denotes : (Magnitude.dyadic n 0).Denotes
          ((n : ℚ) / (2 ^ shift : ℕ) * 2 ^ (shift : ℤ)) := by
        have value := Magnitude.denotes_dyadic (K := ℚ) product 0
        have unit : (2 : ℚ) ^ shift ≠ 0 := pow_ne_zero _ two_ne_zero
        push_cast
        rwa [zpow_natCast, div_mul_cancel₀ _ unit, ← mul_one (n : ℚ), ← zpow_zero (2 : ℚ)]
      rw [top]
      exact Fp.encode_jammed hp env sign denotes (jammed_stickyQuotient n (Nat.two_pow_pos _))
        (enough.trans (low.trans (stickyQuotient_bounds _ _).1))
  · have divisor : 0 < Nat.pow 10 (-power).toNat := Nat.pow_pos (by decide)
    generalize Nat.pow 10 (-power).toNat = d at divisor
    have low := le_extended_quotient positive divisor
    dsimp only
    generalize bitLength d + 100 - bitLength m = extra at low
    have denotes : (Magnitude.ratio m d 0).Denotes
        (((m <<< extra : ℕ) : ℚ) / d * 2 ^ (-(extra : ℤ))) := by
      refine ⟨positive, divisor, ?_⟩
      have unit : (2 : ℚ) ^ extra ≠ 0 := pow_ne_zero _ two_ne_zero
      rw [Nat.shiftLeft_eq, zpow_neg, zpow_natCast]
      push_cast
      field_simp
    exact Fp.encode_jammed hp env sign denotes (jammed_stickyQuotient _ divisor)
      (enough.trans (low.trans (stickyQuotient_bounds _ _).1))

/-- A finite number other than zero is loaded by one rounding of the number that it stands for. -/
theorem decode_eq (env : Environment) {image : Image}
    (finite : image.first &&& specialMask ≠ specialMask) (nonzero : mantissa image ≠ 0) :
    decode env image =
      let result := Fp.encode extended80 env 64 (image.first.getLsbD 31)
        (magnitudeOf (mantissa image) (exponent image - 16))
      (result.value, if result.flags.includes Flags.inexact then Fpu.inexactDecimal else 0) := by
  rw [decode, if_neg finite, if_neg nonzero]
  dsimp only
  rw [encode_leadingBits (by decide) (by decide) env _ (Nat.pos_of_ne_zero nonzero)]

end Decimal

end M68k
