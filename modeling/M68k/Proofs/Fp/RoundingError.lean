import M68k.Proofs.Fp.ExactRounding

/-!
# How far rounding to nearest moves a number

Rounding to nearest moves a number by half a unit at most, so a number of `p` significant bits is
off by at most the `2 ^ p`-th part of it.  A number that is close to an integer is rounded to that
integer.

* `toInteger_eq_of_near` — an integer less than half a unit away is where a number goes;
* `abs_bounded_sub_le` — the relative error of a rounded number above the least unit.
-/

namespace M68k

namespace RoundingMode

variable {K : Type*} [Field K] [LinearOrder K] [IsStrictOrderedRing K] [FloorRing K]

/-- Rounding to nearest moves a number by half at most. -/
theorem abs_toInteger_sub_le (x : K) : |(nearestEven.toInteger x : K) - x| ≤ 1 / 2 := by
  have parts := Int.self_sub_floor x
  have fraction := Int.fract_nonneg x
  have below := (Int.fract_lt_one x).le
  simp only [toInteger]
  split_ifs with low high
  · rw [abs_sub_comm, abs_of_nonneg] <;> linarith
  · push_cast
    rw [abs_of_nonneg] <;> linarith
  · rw [abs_sub_comm, abs_of_nonneg] <;> linarith
  · push_cast
    rw [abs_of_nonneg] <;> linarith

/-- An integer less than half a unit away is where a number goes. -/
theorem toInteger_eq_of_near {x : K} {n : ℤ} (near : |x - n| < 1 / 2) :
    nearestEven.toInteger x = n := by
  have moved := abs_toInteger_sub_le x
  have close : |((nearestEven.toInteger x - n : ℤ) : K)| < 1 := by
    calc |((nearestEven.toInteger x - n : ℤ) : K)|
        = |((nearestEven.toInteger x : K) - x) + (x - n)| := by push_cast; ring_nf
      _ ≤ |(nearestEven.toInteger x : K) - x| + |x - n| := abs_add_le _ _
      _ < 1 := by linarith
  have zero : |nearestEven.toInteger x - n| < 1 := by exact_mod_cast close
  rw [Int.abs_lt_one_iff] at zero
  omega

theorem abs_toUnit_sub_le (q : ℤ) (x : K) : |nearestEven.toUnit q x - x| ≤ 2 ^ q / 2 := by
  have unit : (0 : K) < 2 ^ q := zpow_pos two_pos q
  have scaled := abs_toInteger_sub_le (x / 2 ^ q)
  have same : nearestEven.toUnit q x - x =
      ((nearestEven.toInteger (x / 2 ^ q) : K) - x / 2 ^ q) * 2 ^ q := by
    rw [toUnit, sub_mul, div_mul_cancel₀ _ unit.ne']
  rw [same, abs_mul, abs_of_pos unit]
  calc |(nearestEven.toInteger (x / 2 ^ q) : K) - x / 2 ^ q| * 2 ^ q
      ≤ 1 / 2 * 2 ^ q := mul_le_mul_of_nonneg_right scaled unit.le
    _ = 2 ^ q / 2 := by ring

/-- A number that is not rounded to the least unit is off by at most the `2 ^ p`-th part of it. -/
theorem abs_bounded_sub_le {p : ℕ} (hp : 1 ≤ p) {least : ℤ} {x : K} (hx : x ≠ 0)
    (normal : least ≤ unitExponent p x) :
    |nearestEven.bounded p least x - x| ≤ |x| / 2 ^ p := by
  have half : (2 : K) ^ unitExponent p x / 2 = 2 ^ Int.log 2 |x| / 2 ^ p := by
    have two : (2 : K) ≠ 0 := two_ne_zero
    rw [unitExponent, ← zpow_natCast, ← zpow_sub₀ two, div_eq_mul_inv, ← zpow_sub_one₀ two]
    congr 1
    omega
  rw [bounded, max_eq_left normal]
  calc |nearestEven.toUnit (unitExponent p x) x - x|
      ≤ 2 ^ unitExponent p x / 2 := abs_toUnit_sub_le _ x
    _ = 2 ^ Int.log 2 |x| / 2 ^ p := half
    _ ≤ |x| / 2 ^ p := div_le_div_of_nonneg_right (zpow_log_abs_le hx) (by positivity)

end RoundingMode

end M68k
