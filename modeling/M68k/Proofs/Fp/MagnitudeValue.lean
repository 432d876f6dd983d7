import M68k.Fp.Rounding
import M68k.Proofs.Fp.ExactRounding
import Mathlib.Data.Nat.Log

/-!
# The numbers that magnitudes stand for

`Magnitude.Denotes` ties an exact magnitude to a number of an ordered field.  What rounding asks of
a magnitude is then arithmetic of that number: its leading exponent is a logarithm, and a split at
a unit is a floor together with the place of the rest between zero and one.

* `lead_eq_log` — the leading exponent is the logarithm;
* `splits_split` — a split counts the whole units and describes the rest;
* `toInteger_of_splits` — so rounding the parts is rounding the number.
-/

namespace M68k

variable {K : Type*} [Field K] [LinearOrder K] [IsStrictOrderedRing K]

/-- Whether a remnant describes the place of a number between zero and one. -/
def Remnant.Describes (r : Remnant) (t : K) : Prop :=
  match r with
  | .zero => t = 0
  | .low => 0 < t ∧ t < 1 / 2
  | .half => t = 1 / 2
  | .high => 1 / 2 < t ∧ t < 1

/-- Whether a number consists of so many whole units and a rest that the remnant describes. -/
def Splits (parts : ℕ × Remnant) (y : K) : Prop :=
  ∃ t : K, y = parts.1 + t ∧ parts.2.Describes t

namespace Remnant

theorem Describes.nonneg {r : Remnant} {t : K} (h : r.Describes t) : 0 ≤ t := by
  cases r with
  | zero => exact h.ge
  | low => exact h.1.le
  | half => rw [show t = 1 / 2 from h]; norm_num
  | high => linarith [h.1]

theorem Describes.lt_one {r : Remnant} {t : K} (h : r.Describes t) : t < 1 := by
  cases r with
  | zero => rw [show t = 0 from h]; norm_num
  | low => linarith [h.2]
  | half => rw [show t = 1 / 2 from h]; norm_num
  | high => exact h.2

/-- The remnant of a division describes remainder by divisor. -/
theorem describes_ofRemainder {remainder divisor : ℕ} (h : remainder < divisor) :
    (ofRemainder remainder divisor).Describes ((remainder : K) / divisor) := by
  have positive : (0 : K) < divisor := by
    have : 0 < divisor := by omega
    exact_mod_cast this
  unfold ofRemainder
  split_ifs with hzero hlow hhalf
  · simp [Describes, hzero]
  · have low : ((2 * remainder : ℕ) : K) < divisor := by exact_mod_cast hlow
    push_cast at low
    refine ⟨div_pos ?_ positive, ?_⟩
    · have : 0 < remainder := by omega
      exact_mod_cast this
    · rw [div_lt_iff₀ positive]
      linarith
  · have half : ((2 * remainder : ℕ) : K) = divisor := by exact_mod_cast hhalf
    push_cast at half
    show (remainder : K) / divisor = 1 / 2
    rw [div_eq_iff positive.ne']
    linarith
  · have high : ((2 * remainder : ℕ) : K) > divisor := by
      have : divisor < 2 * remainder := by omega
      exact_mod_cast this
    push_cast at high
    refine ⟨?_, ?_⟩
    · rw [lt_div_iff₀ positive]
      linarith
    · rw [div_lt_one positive]
      exact_mod_cast h

end Remnant

namespace Magnitude

/-- Whether a magnitude stands for the number `v`, which is then positive. -/
def Denotes (x : Magnitude) (v : K) : Prop :=
  match x with
  | ratio numerator denominator exponent =>
    0 < numerator ∧ 0 < denominator ∧ v = numerator / denominator * 2 ^ exponent
  | root radicand exponent => 0 < radicand ∧ 0 < v ∧ v ^ 2 = radicand * (2 ^ exponent) ^ 2

theorem Denotes.pos {x : Magnitude} {v : K} (h : x.Denotes v) : 0 < v := by
  cases x with
  | ratio n d e =>
    obtain ⟨hn, hd, rfl⟩ := h
    have hn' : (0 : K) < n := by exact_mod_cast hn
    have hd' : (0 : K) < d := by exact_mod_cast hd
    exact mul_pos (div_pos hn' hd') (zpow_pos two_pos e)
  | root r e => exact h.2.1

omit [IsStrictOrderedRing K] in
theorem denotes_dyadic {n : ℕ} (positive : 0 < n) (e : ℤ) :
    (dyadic n e).Denotes ((n : K) * 2 ^ e) :=
  ⟨positive, Nat.one_pos, by simp⟩

theorem shiftedFraction_value (n d : ℕ) (shift : ℤ) :
    ((shiftedFraction n d shift).1 : K) / (shiftedFraction n d shift).2 = n / d * 2 ^ shift := by
  unfold shiftedFraction
  split_ifs with h
  · obtain ⟨k, rfl⟩ := Int.eq_ofNat_of_zero_le h
    simp only [Int.toNat_natCast, Nat.shiftLeft_eq, zpow_natCast]
    push_cast
    ring
  · obtain ⟨k, hk⟩ := Int.eq_ofNat_of_zero_le (show 0 ≤ -shift by omega)
    obtain rfl : shift = -(k : ℤ) := by omega
    simp only [neg_neg, Int.toNat_natCast, Nat.shiftLeft_eq, zpow_neg, zpow_natCast]
    push_cast
    rw [← div_div, div_eq_mul_inv ((n : K) / d)]

theorem shiftedFraction_pos {n d : ℕ} (hd : 0 < d) (shift : ℤ) :
    0 < (shiftedFraction n d shift).2 := by
  unfold shiftedFraction
  split_ifs
  · exact hd
  · rw [Nat.shiftLeft_eq]
    exact Nat.mul_pos hd (Nat.two_pow_pos _)

theorem two_zpow_log2_le {n : ℕ} (hn : 0 < n) : (2 : K) ^ (n.log2 : ℤ) ≤ n := by
  rw [zpow_natCast]
  exact_mod_cast Nat.log2_self_le (by omega)

theorem lt_two_zpow_log2 (n : ℕ) : (n : K) < 2 ^ ((n.log2 : ℤ) + 1) := by
  have : n < 2 ^ (n.log2 + 1) := Nat.lt_log2_self
  exact_mod_cast this

/-- The length of a fraction, guessed from those of its parts, is too long by at most one. -/
theorem fraction_bounds {n d : ℕ} (hn : 0 < n) (hd : 0 < d) :
    (2 : K) ^ ((n.log2 : ℤ) - d.log2 - 1) < n / d ∧
      (n : K) / d < 2 ^ ((n.log2 : ℤ) - d.log2 + 1) := by
  have hd' : (0 : K) < d := by exact_mod_cast hd
  have two : (2 : K) ≠ 0 := two_ne_zero
  rw [lt_div_iff₀ hd', div_lt_iff₀ hd']
  constructor
  · calc (2 : K) ^ ((n.log2 : ℤ) - d.log2 - 1) * d
        < 2 ^ ((n.log2 : ℤ) - d.log2 - 1) * 2 ^ ((d.log2 : ℤ) + 1) :=
          mul_lt_mul_of_pos_left (lt_two_zpow_log2 d) (zpow_pos two_pos _)
      _ = 2 ^ (n.log2 : ℤ) := by
          rw [← zpow_add₀ two]
          congr 1
          ring
      _ ≤ n := two_zpow_log2_le hn
  · calc (n : K) < 2 ^ ((n.log2 : ℤ) + 1) := lt_two_zpow_log2 n
      _ = 2 ^ ((n.log2 : ℤ) - d.log2 + 1) * 2 ^ (d.log2 : ℤ) := by
          rw [← zpow_add₀ two]
          congr 1
          ring
      _ ≤ 2 ^ ((n.log2 : ℤ) - d.log2 + 1) * d :=
          mul_le_mul_of_nonneg_left (two_zpow_log2_le hd) (zpow_pos two_pos _).le

end Magnitude

variable [FloorRing K]

namespace Splits

theorem floor_eq {parts : ℕ × Remnant} {y : K} (h : Splits parts y) : ⌊y⌋ = parts.1 := by
  obtain ⟨t, rfl, ht⟩ := h
  rw [Int.floor_eq_iff]
  have := ht.nonneg
  have := ht.lt_one
  push_cast
  constructor <;> linarith

theorem describes_fract {parts : ℕ × Remnant} {y : K} (h : Splits parts y) :
    parts.2.Describes (Int.fract y) := by
  have hfloor := h.floor_eq
  obtain ⟨t, rfl, ht⟩ := h
  have : Int.fract ((parts.1 : K) + t) = t := by
    rw [← Int.self_sub_floor, hfloor]
    push_cast
    ring
  rwa [this]

/-- Nothing is left exactly when the number is whole. -/
theorem remnant_eq_zero_iff {parts : ℕ × Remnant} {y : K} (h : Splits parts y) :
    parts.2 = .zero ↔ ∃ n : ℤ, y = n := by
  have describes := h.describes_fract
  constructor
  · intro hzero
    rw [hzero] at describes
    exact ⟨⌊y⌋, by
      have := Int.self_sub_floor y
      rw [show Int.fract y = 0 from describes] at this
      linarith⟩
  · rintro ⟨n, rfl⟩
    rw [Int.fract_intCast] at describes
    cases hr : parts.2 with
    | zero => rfl
    | low => rw [hr] at describes; exact absurd describes.1 (lt_irrefl _)
    | half =>
      rw [hr] at describes
      exact absurd (show (0 : K) = 1 / 2 from describes) (by norm_num)
    | high =>
      rw [hr] at describes
      exact absurd describes.1 (by norm_num)

end Splits

theorem log_two_eq {e : ℤ} {v : K} (lower : 2 ^ e ≤ v) (upper : v < 2 ^ (e + 1)) :
    Int.log 2 v = e := by
  have positive : 0 < v := lt_of_lt_of_le (zpow_pos two_pos e) lower
  have below : e ≤ Int.log 2 v := 
    (Int.zpow_le_iff_le_log one_lt_two positive).mp (by simpa using lower)
  have above : Int.log 2 v < e + 1 :=
    (Int.lt_zpow_iff_log_lt one_lt_two positive).mp (by simpa using upper)
  omega

namespace Magnitude

theorem fractionLead_eq_log {n d : ℕ} (hn : 0 < n) (hd : 0 < d) :
    fractionLead n d = Int.log 2 ((n : K) / d) := by
  obtain ⟨lower, upper⟩ := fraction_bounds (K := K) hn hd
  have two : (2 : K) ≠ 0 := two_ne_zero
  unfold fractionLead
  dsimp only
  set guess : ℤ := (n.log2 : ℤ) - d.log2
  have value := shiftedFraction_value (K := K) n d (-guess)
  have positive := shiftedFraction_pos (n := n) hd (-guess)
  have comparison : (shiftedFraction n d (-guess)).2 ≤ (shiftedFraction n d (-guess)).1 ↔
      (2 : K) ^ guess ≤ n / d := by
    have positive' : (0 : K) < (shiftedFraction n d (-guess)).2 := by exact_mod_cast positive
    rw [← Nat.cast_le (α := K), ← one_le_div positive', value, zpow_neg,
      ← div_eq_mul_inv, one_le_div (zpow_pos two_pos _)]
  by_cases h : (shiftedFraction n d (-guess)).2 ≤ (shiftedFraction n d (-guess)).1
  · rw [if_pos h]
    exact (log_two_eq (comparison.mp h) upper).symm
  · rw [if_neg h]
    rw [comparison, not_le] at h
    exact (log_two_eq lower.le (by rwa [sub_add_cancel])).symm

theorem log_two_mul_zpow {v : K} (hv : 0 < v) (e : ℤ) :
    Int.log 2 (v * 2 ^ e) = e + Int.log 2 v := by
  have two : (2 : K) ≠ 0 := two_ne_zero
  have lower : (2 : K) ^ Int.log 2 v ≤ v := by simpa using Int.zpow_log_le_self one_lt_two hv
  have upper : v < (2 : K) ^ (Int.log 2 v + 1) := by
    simpa using Int.lt_zpow_succ_log_self (R := K) one_lt_two v
  apply log_two_eq
  · rw [zpow_add₀ two, mul_comm]
    exact mul_le_mul_of_nonneg_right lower (zpow_pos two_pos e).le
  · rw [add_assoc, zpow_add₀ two, mul_comm]
    exact mul_lt_mul_of_pos_left upper (zpow_pos two_pos e)

/-- The leading exponent is the logarithm. -/
theorem lead_eq_log {x : Magnitude} {v : K} (h : x.Denotes v) : x.lead = Int.log 2 v := by
  cases x with
  | ratio n d e =>
    obtain ⟨hn, hd, rfl⟩ := h
    have hn' : (0 : K) < n := by exact_mod_cast hn
    have hd' : (0 : K) < d := by exact_mod_cast hd
    rw [lead, log_two_mul_zpow (div_pos hn' hd'), fractionLead_eq_log (K := K) hn hd]
  | root r e =>
    obtain ⟨hr, hv, square⟩ := h
    have two : (2 : K) ≠ 0 := two_ne_zero
    rw [lead]
    -- The square lies between two powers of four, whose exponents are the halved length of `r`.
    have low : (2 : K) ^ (2 * ((r.log2 / 2 : ℕ) : ℤ)) ≤ r :=
      (zpow_le_zpow_right₀ one_le_two (by omega)).trans (two_zpow_log2_le hr)
    have high : (r : K) < 2 ^ (2 * (((r.log2 / 2 : ℕ) : ℤ) + 1)) :=
      (lt_two_zpow_log2 r).trans_le (zpow_le_zpow_right₀ one_le_two (by omega))
    have unit : (0 : K) < (2 ^ e) ^ 2 := pow_pos (zpow_pos two_pos e) 2
    have split (k : ℤ) : ((2 : K) ^ (e + k)) ^ 2 = 2 ^ (2 * k) * (2 ^ e) ^ 2 := by
      rw [zpow_add₀ two, mul_pow, mul_comm, ← zpow_natCast ((2 : K) ^ k) 2, ← zpow_mul, mul_comm k]
      rfl
    refine (log_two_eq ?_ ?_).symm
    · apply (pow_le_pow_iff_left₀ (zpow_pos two_pos _).le hv.le two_ne_zero).mp
      rw [split, square]
      exact mul_le_mul_of_nonneg_right low unit.le
    · apply lt_of_pow_lt_pow_left₀ 2 (zpow_pos two_pos _).le
      rw [add_assoc, split, square]
      exact mul_lt_mul_of_pos_right high unit

omit [FloorRing K] in
/-- Comparing a root with a number is comparing squares. -/
theorem compare_root {r d : ℕ} {y : K} (hd : 0 < d) (hy : 0 < y) (square : y ^ 2 * d = r)
    {c : K} (hc : 0 ≤ c) : (c ^ 2 * d < r ↔ c < y) ∧ (c ^ 2 * d = r ↔ c = y) := by
  have hd' : (0 : K) < d := by exact_mod_cast hd
  rw [← square, mul_lt_mul_iff_left₀ hd', mul_left_inj' hd'.ne',
    pow_lt_pow_iff_left₀ hc hy.le two_ne_zero, pow_left_inj₀ hc hy.le two_ne_zero]
  exact ⟨Iff.rfl, Iff.rfl⟩

/-- The parts of a root, read off the squares of the bounds of each case. -/
theorem splits_root {r d : ℕ} {y : K} (hd : 0 < d) (hy : 0 < y) (square : y ^ 2 * d = r) :
    let s := sqrtFloor (r / d)
    let middle := (2 * s + 1) * (2 * s + 1) * d
    Splits
      (s, if r = s * s * d then .zero
        else if 4 * r < middle then .low
        else if 4 * r = middle then .half
        else .high) y := by
  intro s middle
  have lower : s * s * d ≤ r := by
    have := sqrtFloor_sq_le (r / d)
    exact (Nat.le_div_iff_mul_le hd).mp this
  have upper : r < (s + 1) * (s + 1) * d := by
    have := lt_succ_sqrtFloor_sq (r / d)
    exact (Nat.div_lt_iff_lt_mul hd).mp this
  have root_nonneg : (0 : K) ≤ s := Nat.cast_nonneg s
  have lower' : (s : K) ^ 2 * d ≤ r := by
    rw [sq]
    exact_mod_cast lower
  have upper' : (r : K) < (s + 1) ^ 2 * d := by
    rw [sq]
    exact_mod_cast upper
  have below_next : y < s + 1 := by
    obtain ⟨hlt, heq⟩ := compare_root (c := (s + 1 : K)) hd hy square (by linarith)
    rcases lt_trichotomy y (s + 1) with h | h | h
    · exact h
    · exact absurd (heq.mpr h.symm) upper'.ne'
    · exact absurd (hlt.mpr h) upper'.not_gt
  have doubled : (((2 * s + 1) * (2 * s + 1) * d : ℕ) : K) = 4 * (((s : K) + 1 / 2) ^ 2 * d) := by
    push_cast
    ring
  obtain ⟨middle_lt, middle_eq⟩ :=
    compare_root (c := (s + 1 / 2 : K)) hd hy square (by linarith)
  refine ⟨y - s, by ring, ?_⟩
  dsimp only
  split_ifs with hzero hlow hhalf
  · have : (s : K) ^ 2 * d = r := by
      rw [sq]
      exact_mod_cast hzero.symm
    have := (compare_root hd hy square root_nonneg).2.mp this
    show y - s = 0
    linarith
  all_goals
    have above : (s : K) < y := by
      have : s * s * d < r := by omega
      refine (compare_root hd hy square root_nonneg).1.mp ?_
      rw [sq]
      exact_mod_cast this
  · have hlow' : (4 * r : K) < ((2 * s + 1) * (2 * s + 1) * d : ℕ) := by exact_mod_cast hlow
    rw [doubled] at hlow'
    refine ⟨by linarith, ?_⟩
    by_contra hge
    rcases (show (s : K) + 1 / 2 ≤ y by linarith).lt_or_eq with h | h
    · linarith [middle_lt.mpr h]
    · linarith [middle_eq.mpr h]
  · have hhalf' : (4 * r : K) = ((2 * s + 1) * (2 * s + 1) * d : ℕ) := by exact_mod_cast hhalf
    rw [doubled] at hhalf'
    have := middle_eq.mp (by linarith)
    show y - s = 1 / 2
    linarith
  · have hhigh : (((2 * s + 1) * (2 * s + 1) * d : ℕ) : K) < 4 * r := by
      have : (2 * s + 1) * (2 * s + 1) * d < 4 * r := by omega
      exact_mod_cast this
    rw [doubled] at hhigh
    have := middle_lt.mp (by linarith)
    exact ⟨by linarith, by linarith⟩

/-- A division splits a fraction. -/
theorem splits_div (a : ℕ) {b : ℕ} (positive : 0 < b) :
    Splits (a / b, Remnant.ofRemainder (a % b) b) ((a : K) / b) := by
  have hb : (b : K) ≠ 0 := by
    have : b ≠ 0 := by omega
    exact_mod_cast this
  refine ⟨((a % b : ℕ) : K) / b, ?_, Remnant.describes_ofRemainder (Nat.mod_lt a positive)⟩
  have division : ((b * (a / b) + a % b : ℕ) : K) = a := by rw [Nat.div_add_mod]
  push_cast at division
  rw [← division]
  field_simp

/-- A split counts the whole units of the number and describes the rest. -/
theorem splits_split {x : Magnitude} {v : K} (h : x.Denotes v) (q : ℤ) :
    Splits (x.split q) (v / 2 ^ q) := by
  have two : (2 : K) ≠ 0 := two_ne_zero
  cases x with
  | ratio n d e =>
    obtain ⟨hn, hd, rfl⟩ := h
    have value := shiftedFraction_value (K := K) n d (e - q)
    have positive := shiftedFraction_pos (n := n) hd (e - q)
    rw [split]
    generalize shiftedFraction n d (e - q) = fraction at value positive
    obtain ⟨a, b⟩ := fraction
    dsimp only at value positive ⊢
    rw [mul_div_assoc, ← zpow_sub₀ two, ← value]
    exact splits_div a positive
  | root r e =>
    obtain ⟨hr, hv, square⟩ := h
    have value := shiftedFraction_value (K := K) r 1 (2 * (e - q))
    have positive := shiftedFraction_pos (n := r) Nat.one_pos (2 * (e - q))
    rw [split]
    generalize shiftedFraction r 1 (2 * (e - q)) = fraction at value positive
    obtain ⟨a, b⟩ := fraction
    dsimp only at value positive ⊢
    have hb : (b : K) ≠ 0 := by
      have : b ≠ 0 := by omega
      exact_mod_cast this
    refine splits_root positive (div_pos hv (zpow_pos two_pos q)) ?_
    rw [div_eq_iff hb] at value
    rw [value, div_pow, square, Nat.cast_one, div_one, mul_comm 2 (e - q), zpow_mul,
      zpow_sub₀ two]
    norm_cast
    rw [div_pow]
    ring

end Magnitude

namespace RoundingMode

theorem round_mirror (mode : RoundingMode) (parts : ℕ × Remnant) :
    mode.mirror.round false parts = mode.round true parts := by
  obtain ⟨units, remnant⟩ := parts
  cases mode <;> cases remnant <;> rfl

/-- Rounding the parts of a number is rounding the number. -/
theorem toInteger_of_splits (mode : RoundingMode) {parts : ℕ × Remnant} {y : K}
    (h : Splits parts y) : mode.toInteger y = mode.round false parts := by
  have hfloor := h.floor_eq
  have describes := h.describes_fract
  have nonneg : 0 ≤ y := by
    have : (0 : ℤ) ≤ ⌊y⌋ := by omega
    exact Int.floor_nonneg.mp this
  -- The ceiling is the floor for whole numbers and one more for all others.
  have hceil : parts.2 ≠ .zero → ⌈y⌉ = ⌊y⌋ + 1 := by
    intro hrest
    have whole : ¬ ∃ n : ℤ, y = n := fun hn => hrest (h.remnant_eq_zero_iff.mpr hn)
    have lower : (⌊y⌋ : K) < y :=
      lt_of_le_of_ne (Int.floor_le y) fun heq => whole ⟨_, heq.symm⟩
    have := Int.lt_ceil.mpr lower
    have := Int.ceil_le_floor_add_one y
    omega
  obtain ⟨units, remnant⟩ := parts
  simp only at hfloor describes hceil
  cases remnant with
  | zero =>
    have : y = (units : ℤ) := by
      have := Int.self_sub_floor y
      rw [show Int.fract y = 0 from describes, hfloor] at this
      linarith
    rw [this, toInteger_intCast]
    simp [round]
  | low =>
    obtain ⟨-, hlt⟩ := describes
    cases mode with
    | nearestEven =>
      rw [toInteger, if_pos hlt, hfloor]
      simp [round, roundsUp, awayFromZero]
    | _ => simp [toInteger, round, roundsUp, awayFromZero, nonneg, hfloor, hceil]
  | half =>
    have heq : Int.fract y = 1 / 2 := describes
    cases mode with
    | nearestEven =>
      have parity : Even (units : ℤ) ↔ ¬ units % 2 = 1 := by
        rw [Int.even_coe_nat, Nat.even_iff]
        omega
      simp only [toInteger, round, roundsUp, heq, lt_irrefl, if_false, hfloor, parity, if_true]
      by_cases odd : units % 2 = 1 <;> simp [odd]
    | _ => simp [toInteger, round, roundsUp, awayFromZero, nonneg, hfloor, hceil]
  | high =>
    obtain ⟨hgt, -⟩ := describes
    cases mode with
    | nearestEven =>
      rw [toInteger, if_neg hgt.not_gt, if_pos hgt, hfloor]
      simp [round, roundsUp]
    | _ => simp [toInteger, round, roundsUp, awayFromZero, nonneg, hfloor, hceil]

/-- The same for either sign. -/
theorem toInteger_withSign (mode : RoundingMode) (negative : Bool) {parts : ℕ × Remnant} {y : K}
    (h : Splits parts y) :
    (mode.toInteger (withSign negative y) : K)
      = withSign negative (mode.round negative parts : K) := by
  cases negative with
  | false =>
    rw [withSign_false, withSign_false, toInteger_of_splits mode h, Int.cast_natCast]
  | true =>
    rw [withSign_true, withSign_true, toInteger_neg, toInteger_of_splits _ h, round_mirror,
      Int.cast_neg, Int.cast_natCast]

/-- Just the numbers that are whole are not moved. -/
theorem round_eq_iff (mode : RoundingMode) (negative : Bool) {parts : ℕ × Remnant} {y : K}
    (h : Splits parts y) : (mode.round negative parts : K) = y ↔ parts.2 = .zero := by
  constructor
  · intro same
    exact h.remnant_eq_zero_iff.mpr ⟨_, by rw [← same, Int.cast_natCast]⟩
  · intro zero
    obtain ⟨n, rfl⟩ := h.remnant_eq_zero_iff.mp zero
    have floor := h.floor_eq
    rw [Int.floor_intCast] at floor
    rw [round, zero, roundsUp_zero, if_neg Bool.false_ne_true, floor, Int.cast_natCast]

end RoundingMode

end M68k
