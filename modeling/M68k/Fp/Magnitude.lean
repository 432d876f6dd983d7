/-!
# Exact positive magnitudes and how they split at a unit

The operations on finite numbers produce their exact result as a `Magnitude`: a quotient of natural
numbers or the square root of one, times a power of two.  Rounding never needs more of it than the
exponent of its leading one (`Magnitude.lead`) and, for a unit `2 ^ q`, how many whole units it
holds and how the rest compares with half a unit (`Magnitude.split`).

* `sqrtFloor_sq_le`, `lt_succ_sqrtFloor_sq` — the integer square root is the floor of the root;
* `Remnant.ofRemainder_eq_zero_iff` — nothing is left exactly when the remainder is zero.
-/

namespace M68k

/-- The square root of `n` rounded down, for `n < 4 ^ bits`, one binary digit of the root per
step. -/
def sqrtFloorWithin : Nat → Nat → Nat
  | 0, _ => 0
  | bits + 1, n =>
    let root := 2 * sqrtFloorWithin bits (n / 4)
    if (root + 1) * (root + 1) ≤ n then root + 1 else root

/-- The square root of a natural number, rounded down. -/
def sqrtFloor (n : Nat) : Nat := sqrtFloorWithin (n.log2 / 2 + 1) n

theorem sqrtFloorWithin_bounds (bits n : Nat) (h : n < Nat.pow 4 bits) :
    sqrtFloorWithin bits n * sqrtFloorWithin bits n ≤ n ∧
      n < (sqrtFloorWithin bits n + 1) * (sqrtFloorWithin bits n + 1) := by
  induction bits generalizing n with
  | zero =>
    have : n = 0 := by simpa using h
    subst this
    simp [sqrtFloorWithin]
  | succ bits ih =>
    obtain ⟨low, high⟩ := ih (n / 4) (by simp only [Nat.pow_eq, Nat.pow_succ] at h ⊢; omega)
    simp only [sqrtFloorWithin]
    generalize sqrtFloorWithin bits (n / 4) = r at low high
    have hl : 4 * (r * r) ≤ n := by omega
    have hh : n < 4 * ((r + 1) * (r + 1)) := by omega
    have sq : 2 * r * (2 * r) = 4 * (r * r) := Nat.mul_mul_mul_comm 2 r 2 r
    split
    · next hle =>
      refine ⟨hle, ?_⟩
      have : (2 * r + 1 + 1) * (2 * r + 1 + 1) = 4 * ((r + 1) * (r + 1)) := by
        simp [Nat.mul_add, Nat.add_mul]; omega
      omega
    · next hlt => exact ⟨by omega, by omega⟩

theorem lt_four_pow_log2 (n : Nat) : n < Nat.pow 4 (n.log2 / 2 + 1) := by
  have h : n < Nat.pow 2 (n.log2 + 1) := Nat.lt_log2_self
  have : Nat.pow 2 (n.log2 + 1) ≤ Nat.pow 2 (2 * (n.log2 / 2 + 1)) :=
    Nat.pow_le_pow_right (by decide) (by omega)
  rw [Nat.pow_eq, Nat.pow_eq, Nat.pow_mul] at this
  exact Nat.lt_of_lt_of_le h this

theorem sqrtFloor_sq_le (n : Nat) : sqrtFloor n * sqrtFloor n ≤ n :=
  (sqrtFloorWithin_bounds _ n (lt_four_pow_log2 n)).1

theorem lt_succ_sqrtFloor_sq (n : Nat) : n < (sqrtFloor n + 1) * (sqrtFloor n + 1) :=
  (sqrtFloorWithin_bounds _ n (lt_four_pow_log2 n)).2

/-- What is left of a number beyond its whole units, compared with half a unit. -/
inductive Remnant where
  | zero
  | low
  | half
  | high
  deriving DecidableEq, Repr

namespace Remnant

/-- The remnant `remainder / divisor` of a division. -/
def ofRemainder (remainder divisor : Nat) : Remnant :=
  if remainder = 0 then zero
  else if 2 * remainder < divisor then low
  else if 2 * remainder = divisor then half
  else high

/-- Nothing is left exactly when the remainder is zero. -/
theorem ofRemainder_eq_zero_iff (remainder divisor : Nat) :
    ofRemainder remainder divisor = zero ↔ remainder = 0 := by
  unfold ofRemainder
  repeat' split
  all_goals simp_all

end Remnant

/-- An exact positive number. -/
inductive Magnitude where
  /-- `numerator / denominator · 2 ^ exponent` -/
  | ratio (numerator denominator : Nat) (exponent : Int)
  /-- `√radicand · 2 ^ exponent` -/
  | root (radicand : Nat) (exponent : Int)
  deriving DecidableEq, Repr

namespace Magnitude

/-- `coefficient · 2 ^ exponent` -/
def dyadic (coefficient : Nat) (exponent : Int) : Magnitude := ratio coefficient 1 exponent

/-- `numerator / denominator · 2 ^ shift` as a fraction without the power of two. -/
def shiftedFraction (numerator denominator : Nat) (shift : Int) : Nat × Nat :=
  if 0 ≤ shift then (numerator <<< shift.toNat, denominator)
  else (numerator, denominator <<< (-shift).toNat)

/-- The exponent of the leading one of a fraction: the difference of the operands' lengths, or one
less. -/
def fractionLead (numerator denominator : Nat) : Int :=
  let guess : Int := (numerator.log2 : Int) - denominator.log2
  let (n, d) := shiftedFraction numerator denominator (-guess)
  if d ≤ n then guess else guess - 1

/-- The greatest `e` for which `2 ^ e` does not exceed the magnitude. -/
def lead : Magnitude → Int
  | ratio numerator denominator exponent => exponent + fractionLead numerator denominator
  | root radicand exponent => exponent + (radicand.log2 / 2 : Nat)

/-- The number of whole units `2 ^ q` in the magnitude, and what is left. -/
def split (x : Magnitude) (q : Int) : Nat × Remnant :=
  match x with
  | ratio numerator denominator exponent =>
    let (n, d) := shiftedFraction numerator denominator (exponent - q)
    (n / d, Remnant.ofRemainder (n % d) d)
  | root radicand exponent =>
    let (n, d) := shiftedFraction radicand 1 (2 * (exponent - q))
    let s := sqrtFloor (n / d)
    let middle := (2 * s + 1) * (2 * s + 1) * d
    (s,
      if n = s * s * d then .zero
      else if 4 * n < middle then .low
      else if 4 * n = middle then .half
      else .high)

end Magnitude

end M68k
