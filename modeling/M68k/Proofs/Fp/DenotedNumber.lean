import M68k.Proofs.Fp.IntegerConversion
import Mathlib.Analysis.Real.Sqrt

/-!
# Rounding looks at the number only

A magnitude is one way to write a number down; rounding, and the division to an integer, find the
same for every other way.

* `encode_eq_of_denotes`, `encodeDyadic_eq_of_value` — rounding;
* `denotes_rootMagnitude` — the number that a root is taken as;
* `divideToInteger_spec` — quotient and rest of a division to an integer.
-/

namespace M68k

namespace Magnitude

variable {K : Type*} [Field K] [LinearOrder K] [IsStrictOrderedRing K] [FloorRing K]
  {x y : Magnitude} {v : K}

theorem lead_eq_of_denotes (hx : x.Denotes v) (hy : y.Denotes v) : x.lead = y.lead :=
  (lead_eq_log hx).trans (lead_eq_log hy).symm

theorem split_eq_of_denotes (hx : x.Denotes v) (hy : y.Denotes v) (q : ℤ) :
    x.split q = y.split q :=
  (splits_split hx q).unique (splits_split hy q)

end Magnitude

namespace Fp

variable {f : Format}

/-- Rounding finds the same for magnitudes that denote one number. -/
theorem encode_eq_of_denotes {K : Type*} [Field K] [LinearOrder K] [IsStrictOrderedRing K]
    [FloorRing K] {x y : Magnitude} {v : K} (hx : x.Denotes v) (hy : y.Denotes v)
    (env : Environment) (p : ℕ) (sign : Bool) : encode f env p sign x = encode f env p sign y :=
  encode_congr env sign (Magnitude.lead_eq_of_denotes hx hy)
    fun q _ => Magnitude.split_eq_of_denotes hx hy q

/-- Signed multiples of powers of two that are one number. -/
theorem encodeDyadic_eq_of_value {c e c' e' : ℤ} (same : (c : ℚ) * 2 ^ e = c' * 2 ^ e')
    (env : Environment) (p : ℕ) (zeroSign : Bool) :
    encodeDyadic f env p zeroSign c e = encodeDyadic f env p zeroSign c' e' := by
  have unit (k : ℤ) : (0 : ℚ) < 2 ^ k := zpow_pos two_pos k
  have zero (k l : ℤ) : (k : ℚ) * 2 ^ l = 0 ↔ k = 0 := by
    rw [mul_eq_zero, or_iff_left (unit l).ne', Int.cast_eq_zero]
  have negative (k l : ℤ) : (k : ℚ) * 2 ^ l < 0 ↔ k < 0 := by
    rw [← Int.cast_lt_zero (R := ℚ)]
    exact ⟨fun h => neg_of_mul_neg_left h (unit l).le, fun h => mul_neg_of_neg_of_pos h (unit l)⟩
  have size (k l : ℤ) : |(k : ℚ) * 2 ^ l| = (k.natAbs : ℚ) * 2 ^ l := by
    rw [abs_mul, abs_of_pos (unit l), Nat.cast_natAbs, Int.cast_abs]
  unfold encodeDyadic
  have none : c = 0 ↔ c' = 0 := by rw [← zero c e, same, zero]
  have sign : c < 0 ↔ c' < 0 := by rw [← negative c e, same, negative]
  by_cases nothing : c = 0
  · rw [if_pos nothing, if_pos (none.mp nothing)]
  · have something := mt none.mpr nothing
    rw [if_neg nothing, if_neg something, decide_eq_decide.mpr sign]
    refine encode_eq_of_denotes (v := (c.natAbs : ℚ) * 2 ^ e)
      (Magnitude.denotes_dyadic (Int.natAbs_pos.mpr nothing) e) ?_ env p _
    rw [← size, same, size]
    exact Magnitude.denotes_dyadic (Int.natAbs_pos.mpr something) e'

/-- A root is taken as that of the number. -/
theorem denotes_rootMagnitude {c : ℕ} (positive : 0 < c) (e : ℤ) :
    (rootMagnitude c e).Denotes (√((c : ℝ) * 2 ^ e)) := by
  have number : (0 : ℝ) < c * 2 ^ e :=
    mul_pos (by exact_mod_cast positive) (zpow_pos two_pos e)
  have root : 0 < √((c : ℝ) * 2 ^ e) := Real.sqrt_pos.mpr number
  have square : √((c : ℝ) * 2 ^ e) ^ 2 = c * 2 ^ e := Real.sq_sqrt number.le
  have halved : ((2 : ℝ) ^ (e / 2)) ^ 2 = 2 ^ (2 * (e / 2)) := by
    rw [← zpow_natCast, ← zpow_mul, mul_comm]
    rfl
  unfold rootMagnitude
  split
  · next even =>
    refine ⟨positive, root, ?_⟩
    rw [square, halved, show 2 * (e / 2) = e by omega]
  · next odd =>
    refine ⟨by omega, root, ?_⟩
    have exponent : e = 2 * (e / 2) + 1 := by omega
    rw [square, halved]
    nth_rewrite 1 [exponent]
    rw [zpow_add_one₀ two_ne_zero]
    push_cast
    ring

/-- What a division to an integer finds: the quotient is the truncated or nearest one, and the rest
belongs to it. -/
theorem divideToInteger_spec (nearest : Bool) (a : ℕ) (p : ℤ) {b : ℕ} (positive : 0 < b) (q : ℤ) :
    ∃ parts, Splits parts ((a : ℚ) * 2 ^ p / (b * 2 ^ q)) ∧
      (divideToInteger nearest a p b q).1 =
        (if nearest then RoundingMode.nearestEven.round false parts else parts.1) ∧
      ((divideToInteger nearest a p b q).2.1 : ℚ) * 2 ^ (divideToInteger nearest a p b q).2.2 =
        a * 2 ^ p - (divideToInteger nearest a p b q).1 * (b * 2 ^ q) := by
  have two : (2 : ℚ) ≠ 0 := two_ne_zero
  have aligned (c : ℕ) (e : ℤ) (h : min p q ≤ e) :
      ((c <<< (e - min p q).toNat : ℕ) : ℚ) * 2 ^ min p q = c * 2 ^ e := by
    rw [Nat.shiftLeft_eq, Nat.cast_mul, Nat.cast_pow, Nat.cast_ofNat, mul_assoc, ← zpow_natCast,
      ← zpow_add₀ two]
    congr 2
    omega
  have numerator := aligned a p (min_le_left p q)
  have denominator := aligned b q (min_le_right p q)
  have nonzero : 0 < b <<< (q - min p q).toNat := by
    rw [Nat.shiftLeft_eq]
    exact Nat.mul_pos positive (Nat.two_pow_pos _)
  unfold divideToInteger
  dsimp only
  generalize a <<< (p - min p q).toNat = n at numerator
  generalize b <<< (q - min p q).toNat = d at denominator nonzero
  rw [← numerator, ← denominator]
  have division : (d : ℚ) * (n / d : ℕ) + (n % d : ℕ) = n := by exact_mod_cast Nat.div_add_mod n d
  refine ⟨(n / d, .ofRemainder (n % d) d), ?_, ?_⟩
  · rw [mul_div_mul_right _ _ (zpow_ne_zero _ two)]
    exact Magnitude.splits_div n nonzero
  · generalize n / d = units at division ⊢
    generalize n % d = rest at division ⊢
    have truncated :
        ((rest : ℤ) : ℚ) * 2 ^ min p q = n * 2 ^ min p q - units * (d * 2 ^ min p q) := by
      rw [← division]
      push_cast
      ring
    have raised : ((rest - d : ℤ) : ℚ) * 2 ^ min p q =
        n * 2 ^ min p q - (units + 1 : ℕ) * (d * 2 ^ min p q) := by
      rw [← division]
      push_cast
      ring
    cases nearest with
    | false => exact ⟨rfl, truncated⟩
    | true =>
      simp only [Bool.true_and, RoundingMode.round, if_true]
      split
      · exact ⟨rfl, raised⟩
      · exact ⟨rfl, truncated⟩

end Fp

end M68k
