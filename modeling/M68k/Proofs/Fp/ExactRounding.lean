import M68k.Fp.Status
import Mathlib.Data.Int.Log
import Mathlib.Tactic

/-!
# Rounding numbers of an ordered field

The rule that results of arithmetic are measured against, stated without encodings: a mode sends a
number to one of the neighbouring integers (`RoundingMode.toInteger`), a unit `2 ^ q` scales that to
multiples of the unit (`RoundingMode.toUnit`), and the unit is that of the last of `p` significant
bits, with or without a least one (`RoundingMode.bounded`, `RoundingMode.unbounded`).

* `toInteger_neg` — negating a number mirrors the mode;
* `toUnit_eq_self_iff` — just the multiples of the unit are not moved;
* `le_natAbs_toInteger`, `natAbs_toInteger_le` — rounding does not cross an integer;
* `exists_abs_unbounded_eq`, `carry_lt_iff` — so a rounded number keeps the exponent of its leading
  one or, when all kept bits carry, has the next one.
-/

namespace M68k

/-- The numeral 2 is the same term in the definitions of all modules, with this for its proof. -/
instance atLeastTwo_two : Nat.AtLeastTwo 2 := inferInstance

/-- A magnitude taken with a sign. -/
def withSign {K : Type*} [Neg K] (negative : Bool) (v : K) : K := if negative then -v else v

section WithSign

variable {K : Type*} [Field K] (negative : Bool) (u v : K)

@[simp] theorem withSign_false : withSign false v = v := rfl

@[simp] theorem withSign_true : withSign true v = -v := rfl

theorem withSign_div : withSign negative u / v = withSign negative (u / v) := by
  cases negative
  · rfl
  · exact neg_div v u

theorem withSign_mul : withSign negative u * v = withSign negative (u * v) := by
  cases negative
  · rfl
  · exact neg_mul u v

theorem withSign_sub : withSign negative u - withSign negative v = withSign negative (u - v) := by
  cases negative with
  | false => rfl
  | true =>
    simp only [withSign_true]
    ring

@[simp] theorem withSign_eq_zero_iff {v : K} : withSign negative v = 0 ↔ v = 0 := by
  cases negative
  · exact Iff.rfl
  · exact neg_eq_zero

theorem withSign_inj {u v : K} : withSign negative u = withSign negative v ↔ u = v := by
  cases negative
  · exact Iff.rfl
  · exact neg_inj

@[simp] theorem abs_withSign [LinearOrder K] [IsStrictOrderedRing K] :
    |withSign negative v| = |v| := by
  cases negative
  · rfl
  · exact abs_neg v

end WithSign

namespace RoundingMode

variable {K : Type*} [Field K] [LinearOrder K] [IsStrictOrderedRing K] [FloorRing K]

/-- The integer to which a mode rounds a number. -/
def toInteger (mode : RoundingMode) (x : K) : ℤ :=
  match mode with
  | .nearestEven =>
    if Int.fract x < 1 / 2 then ⌊x⌋
    else if 1 / 2 < Int.fract x then ⌊x⌋ + 1
    else if Even ⌊x⌋ then ⌊x⌋ else ⌊x⌋ + 1
  | .toZero => if 0 ≤ x then ⌊x⌋ else ⌈x⌉
  | .down => ⌊x⌋
  | .up => ⌈x⌉

/-- A number rounded to a multiple of `2 ^ q`. -/
def toUnit (mode : RoundingMode) (q : ℤ) (x : K) : K := mode.toInteger (x / 2 ^ q) * 2 ^ q

/-- The exponent of the last of `p` significant bits of a number. -/
def unitExponent (p : ℕ) (x : K) : ℤ := Int.log 2 |x| - (p - 1 : ℕ)

/-- A number rounded to `p` significant bits. -/
def unbounded (mode : RoundingMode) (p : ℕ) (x : K) : K := mode.toUnit (unitExponent p x) x

/-- A number rounded to `p` significant bits with the unit never below `2 ^ least`. -/
def bounded (mode : RoundingMode) (p : ℕ) (least : ℤ) (x : K) : K :=
  mode.toUnit (max (unitExponent p x) least) x

/-- The mode that treats negated numbers as this one treats numbers. -/
def mirror : RoundingMode → RoundingMode
  | nearestEven => nearestEven
  | toZero => toZero
  | down => up
  | up => down

@[simp] theorem toInteger_intCast (mode : RoundingMode) (n : ℤ) :
    mode.toInteger (n : K) = n := by
  cases mode <;> simp [toInteger]

/-- A rounded number is one of the neighbouring integers. -/
theorem floor_le_toInteger (mode : RoundingMode) (x : K) : ⌊x⌋ ≤ mode.toInteger x := by
  cases mode with
  | nearestEven =>
    simp only [toInteger]
    split_ifs <;> omega
  | toZero =>
    simp only [toInteger]
    split
    · exact le_rfl
    · exact Int.floor_le_ceil x
  | down => exact le_rfl
  | up => exact Int.floor_le_ceil x

theorem toInteger_le_ceil (mode : RoundingMode) (x : K) : mode.toInteger x ≤ ⌈x⌉ := by
  cases mode with
  | nearestEven =>
    rcases (Int.fract_nonneg x).eq_or_lt with h | h
    · have : (⌊x⌋ : K) = x := by
        have := Int.self_sub_floor x
        linarith
      rw [← this, toInteger_intCast, Int.ceil_intCast]
    · have : (⌊x⌋ : K) < x := by
        have := Int.self_sub_floor x
        linarith
      have : ⌊x⌋ < ⌈x⌉ := Int.lt_ceil.mpr this
      simp only [toInteger]
      split_ifs <;> omega
  | toZero =>
    simp only [toInteger]
    split
    · exact Int.floor_le_ceil x
    · exact le_rfl
  | down => exact Int.floor_le_ceil x
  | up => exact le_rfl

/-- **Mirror images.**  Rounding a negated number is rounding the number in the mirrored mode. -/
theorem toInteger_neg (mode : RoundingMode) (x : K) :
    mode.toInteger (-x) = -mode.mirror.toInteger x := by
  cases mode with
  | nearestEven =>
    by_cases hx : Int.fract x = 0
    · obtain ⟨n, rfl⟩ : ∃ n : ℤ, x = n := ⟨⌊x⌋, by
        have := Int.self_sub_floor x
        linarith⟩
      rw [← Int.cast_neg, toInteger_intCast]
      simp [mirror]
    · have hfloor : ⌊-x⌋ = -⌊x⌋ - 1 := by
        have := Int.fract_nonneg x
        have := Int.fract_lt_one x
        have split := Int.self_sub_floor x
        have : 0 < Int.fract x := lt_of_le_of_ne (Int.fract_nonneg x) (Ne.symm hx)
        rw [Int.floor_eq_iff]
        push_cast
        constructor <;> linarith
      have hfract : Int.fract (-x) = 1 - Int.fract x := Int.fract_neg hx
      have parity : Even (-⌊x⌋ - 1) ↔ ¬ Even ⌊x⌋ := by
        rw [Int.even_sub]
        simp
      simp only [toInteger, mirror, hfloor, hfract, parity]
      rcases lt_trichotomy (Int.fract x) (1 / 2) with h | h | h
      · rw [if_neg (by linarith), if_pos (by linarith), if_pos h]
        omega
      · have half : (1 : K) - 1 / 2 = 1 / 2 := by norm_num
        simp only [h, half, lt_irrefl, if_false]
        split_ifs <;> omega
      · rw [if_pos (by linarith), if_neg (by linarith), if_pos h]
        omega
  | toZero =>
    simp only [toInteger, mirror]
    rcases lt_trichotomy x 0 with h | rfl | h
    · have h1 : 0 ≤ -x := by linarith
      have h2 : ¬ 0 ≤ x := by linarith
      simp only [h1, h2, if_true, if_false, Int.floor_neg]
    · simp
    · have h1 : ¬ 0 ≤ -x := by linarith
      simp only [h1, h.le, if_true, if_false, Int.ceil_neg]
  | down => exact Int.floor_neg
  | up => exact Int.ceil_neg

/-- A number that the rounding leaves in place is a multiple of the unit, and these are the only
ones left in place. -/
theorem toUnit_eq_self_iff (mode : RoundingMode) (q : ℤ) (x : K) :
    mode.toUnit q x = x ↔ ∃ n : ℤ, x = n * 2 ^ q := by
  have unit : (2 : K) ^ q ≠ 0 := zpow_ne_zero q two_ne_zero
  constructor
  · intro h
    exact ⟨_, h.symm⟩
  · rintro ⟨n, rfl⟩
    rw [toUnit, mul_div_assoc, div_self unit, mul_one, toInteger_intCast]

@[simp] theorem toUnit_zero (mode : RoundingMode) (q : ℤ) : mode.toUnit q (0 : K) = 0 :=
  (mode.toUnit_eq_self_iff q 0).mpr ⟨0, by simp⟩

/-- Rounding keeps numbers above a whole number above it. -/
theorem le_toInteger (mode : RoundingMode) {n : ℤ} {x : K} (h : (n : K) ≤ x) :
    n ≤ mode.toInteger x :=
  (Int.le_floor.mpr h).trans (mode.floor_le_toInteger x)

/-- Rounding keeps numbers below a whole number below it. -/
theorem toInteger_le (mode : RoundingMode) {n : ℤ} {x : K} (h : x ≤ (n : K)) :
    mode.toInteger x ≤ n :=
  (mode.toInteger_le_ceil x).trans (Int.ceil_le.mpr h)

/-- Rounding keeps magnitudes above a whole number above it. -/
theorem le_natAbs_toInteger (mode : RoundingMode) {n : ℕ} {x : K} (h : (n : K) ≤ |x|) :
    n ≤ (mode.toInteger x).natAbs := by
  have (mode : RoundingMode) {y : K} (hy : (n : K) ≤ y) : n ≤ (mode.toInteger y).natAbs := by
    have : (n : ℤ) ≤ mode.toInteger y := mode.le_toInteger (by exact_mod_cast hy)
    omega
  rcases le_total 0 x with hx | hx
  · rw [abs_of_nonneg hx] at h
    exact this mode h
  · rw [abs_of_nonpos hx] at h
    rw [← neg_neg x, toInteger_neg, Int.natAbs_neg]
    exact this mode.mirror h

/-- Rounding keeps magnitudes below a whole number below it. -/
theorem natAbs_toInteger_le (mode : RoundingMode) {n : ℕ} {x : K} (h : |x| ≤ n) :
    (mode.toInteger x).natAbs ≤ n := by
  obtain ⟨lower, upper⟩ := abs_le.mp h
  have : -(n : ℤ) ≤ mode.toInteger x := mode.le_toInteger (by push_cast; exact lower)
  have : mode.toInteger x ≤ (n : ℤ) := mode.toInteger_le (by exact_mod_cast upper)
  omega

theorem abs_toUnit (mode : RoundingMode) (q : ℤ) (x : K) :
    |mode.toUnit q x| = ((mode.toInteger (x / 2 ^ q)).natAbs : K) * 2 ^ q := by
  have unit : (0 : K) < 2 ^ q := zpow_pos two_pos q
  rw [toUnit, abs_mul, abs_of_pos unit, Nat.cast_natAbs, Int.cast_abs]

theorem zpow_log_abs_le {x : K} (hx : x ≠ 0) : (2 : K) ^ Int.log 2 |x| ≤ |x| := by
  simpa using Int.zpow_log_le_self one_lt_two (abs_pos.mpr hx)

theorem lt_zpow_log_abs (x : K) : |x| < (2 : K) ^ (Int.log 2 |x| + 1) := by
  simpa using Int.lt_zpow_succ_log_self (R := K) one_lt_two |x|

omit [FloorRing K] [LinearOrder K] [IsStrictOrderedRing K] in
theorem two_pow_mul_zpow [CharZero K] {p : ℕ} (hp : 1 ≤ p) (e : ℤ) :
    (2 : K) ^ (p - 1) * 2 ^ (e - (p - 1 : ℕ)) = 2 ^ e ∧
      (2 : K) ^ p * 2 ^ (e - (p - 1 : ℕ)) = 2 ^ (e + 1) := by
  have two : (2 : K) ≠ 0 := two_ne_zero
  constructor
  all_goals
    rw [← zpow_natCast, ← zpow_add₀ two]
    congr 1
    omega

/-- The significand of a rounded number is a full one, or all its bits have carried. -/
theorem exists_abs_unbounded_eq (mode : RoundingMode) {p : ℕ} (hp : 1 ≤ p) {x : K} (hx : x ≠ 0) :
    ∃ n : ℕ, 2 ^ (p - 1) ≤ n ∧ n ≤ 2 ^ p ∧
      |mode.unbounded p x| = n * 2 ^ (Int.log 2 |x| - (p - 1 : ℕ)) := by
  obtain ⟨low, high⟩ := two_pow_mul_zpow (K := K) hp (Int.log 2 |x|)
  have unit : (0 : K) < 2 ^ unitExponent p x := zpow_pos two_pos _
  have scaled : |x / 2 ^ unitExponent p x| = |x| / 2 ^ unitExponent p x := by
    rw [abs_div, abs_of_pos unit]
  refine ⟨(mode.toInteger (x / 2 ^ unitExponent p x)).natAbs, ?_, ?_, mode.abs_toUnit _ x⟩
  · have : ((2 ^ (p - 1) : ℕ) : K) ≤ |x / 2 ^ unitExponent p x| := by
      rw [scaled, le_div_iff₀ unit]
      push_cast
      exact low.le.trans (zpow_log_abs_le hx)
    exact mode.le_natAbs_toInteger this
  · have : |x / 2 ^ unitExponent p x| ≤ ((2 ^ p : ℕ) : K) := by
      rw [scaled, div_le_iff₀ unit]
      push_cast
      exact (lt_zpow_log_abs x).le.trans high.ge
    exact mode.natAbs_toInteger_le this

omit [FloorRing K] in
/-- Where the leading one of such a significand stands. -/
theorem carry_lt_iff {n p : ℕ} (hp : 1 ≤ p) (lower : 2 ^ (p - 1) ≤ n) (upper : n ≤ 2 ^ p)
    (e t : ℤ) :
    (n : K) * 2 ^ (e - (p - 1 : ℕ)) < 2 ^ t ↔ (if n = 2 ^ p then e + 1 else e) < t := by
  obtain ⟨low, high⟩ := two_pow_mul_zpow (K := K) hp e
  have unit : (0 : K) < 2 ^ (e - (p - 1 : ℕ)) := zpow_pos two_pos _
  by_cases carry : n = 2 ^ p
  · rw [if_pos carry, carry]
    push_cast
    rw [high]
    exact zpow_lt_zpow_iff_right₀ one_lt_two
  · have lower' : (2 : K) ^ e ≤ n * 2 ^ (e - (p - 1 : ℕ)) := by
      rw [← low]
      exact mul_le_mul_of_nonneg_right (by exact_mod_cast lower) unit.le
    have upper' : (n : K) * 2 ^ (e - (p - 1 : ℕ)) < 2 ^ (e + 1) := by
      rw [← high]
      have : n < 2 ^ p := lt_of_le_of_ne upper carry
      exact mul_lt_mul_of_pos_right (by exact_mod_cast this) unit
    rw [if_neg carry]
    constructor
    · intro h
      exact (zpow_lt_zpow_iff_right₀ one_lt_two).mp (lower'.trans_lt h)
    · intro h
      exact upper'.trans_le (zpow_le_zpow_right₀ one_le_two (by omega))

/-- A number below a power of two is not rounded beyond it. -/
theorem abs_unbounded_le (mode : RoundingMode) {p : ℕ} (hp : 1 ≤ p) {x : K} {t : ℤ}
    (h : |x| < 2 ^ t) : |mode.unbounded p x| ≤ 2 ^ t := by
  by_cases hx : x = 0
  · subst hx
    rw [unbounded, toUnit_zero, abs_zero]
    exact (zpow_pos two_pos t).le
  · obtain ⟨n, lower, upper, heq⟩ := mode.exists_abs_unbounded_eq hp hx
    have : Int.log 2 |x| < t :=
      (zpow_lt_zpow_iff_right₀ one_lt_two).mp ((zpow_log_abs_le hx).trans_lt h)
    rw [heq]
    calc (n : K) * 2 ^ (Int.log 2 |x| - (p - 1 : ℕ))
        ≤ 2 ^ p * 2 ^ (Int.log 2 |x| - (p - 1 : ℕ)) :=
          mul_le_mul_of_nonneg_right (by exact_mod_cast upper) (zpow_pos two_pos _).le
      _ = 2 ^ (Int.log 2 |x| + 1) := (two_pow_mul_zpow hp _).2
      _ ≤ 2 ^ t := zpow_le_zpow_right₀ one_le_two (by omega)

/-- A number not below a power of two is not rounded below it. -/
theorem le_abs_unbounded (mode : RoundingMode) {p : ℕ} (hp : 1 ≤ p) {x : K} {t : ℤ}
    (h : 2 ^ t ≤ |x|) : 2 ^ t ≤ |mode.unbounded p x| := by
  have positive : 0 < |x| := (zpow_pos two_pos t).trans_le h
  obtain ⟨n, lower, -, heq⟩ := mode.exists_abs_unbounded_eq hp (abs_pos.mp positive)
  have lead : t ≤ Int.log 2 |x| :=
    (Int.zpow_le_iff_le_log one_lt_two positive).mp (by exact_mod_cast h)
  rw [heq]
  calc (2 : K) ^ t ≤ 2 ^ Int.log 2 |x| := zpow_le_zpow_right₀ one_le_two lead
    _ = 2 ^ (p - 1) * 2 ^ (Int.log 2 |x| - (p - 1 : ℕ)) := (two_pow_mul_zpow hp _).1.symm
    _ ≤ n * 2 ^ (Int.log 2 |x| - (p - 1 : ℕ)) :=
        mul_le_mul_of_nonneg_right (by exact_mod_cast lower) (zpow_pos two_pos _).le

end RoundingMode

end M68k
