import M68k.Decimal.Packed
import Mathlib.Data.Nat.Digits.Defs
import Mathlib.Tactic

/-!
# The digits of packed decimal numbers

A packed number in canonical form is determined by its sign, its mantissa as a whole number and its
exponent: writing these out again gives the same words.

* `assemble_of_canonical` — a canonical image is what its sign, mantissa and exponent are written
  as;
* `mantissa_bounds` — its mantissa has seventeen digits.
-/

namespace M68k

namespace Decimal

/-- A digit of a word, counted from the last one. -/
def digit (word : BitVec 32) (i : ℕ) : ℕ := (word.extractLsb' (4 * i) 4).toNat

/-- The bits of the first word that no finite number uses. -/
def unusedMask : BitVec 32 := 0x3000FFF0#32

/-- The one image of a finite number other than zero that has a leading digit and no bits without a
meaning. -/
structure Canonical (image : Image) : Prop where
  unused : image.first &&& unusedMask = 0
  leading : 1 ≤ digit image.first 0 ∧ digit image.first 0 ≤ 9
  exponentDigits : ∀ i < 3, digit image.first (4 + i) ≤ 9
  second : ∀ i < 8, digit image.second i ≤ 9
  third : ∀ i < 8, digit image.third i ≤ 9
  /-- The exponent zero has no sign. -/
  exponentSign : image.first.getLsbD 30 = true → exponent image ≠ 0

instance (image : Image) : Decidable (Canonical image) :=
  decidable_of_iff
    (image.first &&& unusedMask = 0 ∧
      (1 ≤ digit image.first 0 ∧ digit image.first 0 ≤ 9) ∧
      (∀ i < 3, digit image.first (4 + i) ≤ 9) ∧ (∀ i < 8, digit image.second i ≤ 9) ∧
      (∀ i < 8, digit image.third i ≤ 9) ∧
      (image.first.getLsbD 30 = true → exponent image ≠ 0))
    ⟨fun ⟨a, b, c, d, e, f⟩ => ⟨a, b, c, d, e, f⟩, fun ⟨a, b, c, d, e, f⟩ => ⟨a, b, c, d, e, f⟩⟩

theorem digit_eq (word : BitVec 32) (i : ℕ) : digit word i = word.toNat / 16 ^ i % 16 := by
  rw [digit, BitVec.extractLsb'_toNat, Nat.shiftRight_eq_div_pow, pow_mul]
  rfl

/-- Digits in place are digits to the base of their width. -/
theorem digitsWord_eq (number low count : ℕ) :
    digitsWord number low count = BitVec.ofNat 32
      (Nat.ofDigits 16 ((List.range count).map fun i => number / 10 ^ (low + i) % 10)) := by
  rw [digitsWord, Nat.ofDigits_eq_foldr, List.foldr_map]
  congr 2
  funext i word
  simp only [Nat.cast_id, Nat.pow_eq]
  ring

/-- Eight digits to a base. -/
theorem ofDigits_eight (base : ℕ) (f : ℕ → ℕ) :
    Nat.ofDigits base ((List.range 8).map f) =
      f 0 + base * (f 1 + base * (f 2 + base * (f 3 + base * (f 4 + base * (f 5 + base * (f 6 +
        base * f 7)))))) := by
  simp only [List.range_succ, List.range_zero, List.nil_append, List.cons_append, List.map_cons,
    List.map_nil, Nat.ofDigits_cons, Nat.ofDigits_nil, mul_zero, add_zero]

/-- A word is its eight digits. -/
theorem word_of_digits (word : BitVec 32) :
    BitVec.ofNat 32 (Nat.ofDigits 16 ((List.range 8).map (digit word))) = word := by
  apply BitVec.eq_of_toNat_eq
  have bound := word.isLt
  simp only [ofDigits_eight, digit_eq, BitVec.toNat_ofNat]
  omega

/-- A number to which eight digits were appended. -/
theorem appendDigits_eq (number : ℕ) (word : BitVec 32) :
    appendDigits number word =
      number * 10 ^ 8 + Nat.ofDigits 10 ((List.range 8).map (digit word)) := by
  simp only [appendDigits, digit, List.foldl_cons, List.foldl_nil, ofDigits_eight, Nat.reduceMul]
  ring

section Append

variable {word : BitVec 32} (decimal : ∀ i < 8, digit word i ≤ 9)
include decimal

/-- Below eight digits that were appended the number is as it was, and they are its last ones. -/
theorem appendDigits_digits (number : ℕ) :
    appendDigits number word / 10 ^ 8 = number ∧
      ∀ i < 8, appendDigits number word / 10 ^ i % 10 = digit word i := by
  have d0 := decimal 0 (by decide)
  have d1 := decimal 1 (by decide)
  have d2 := decimal 2 (by decide)
  have d3 := decimal 3 (by decide)
  have d4 := decimal 4 (by decide)
  have d5 := decimal 5 (by decide)
  have d6 := decimal 6 (by decide)
  have d7 := decimal 7 (by decide)
  rw [appendDigits_eq, ofDigits_eight]
  refine ⟨by omega, fun i small => ?_⟩
  interval_cases i <;> omega

theorem digitsWord_append (number : ℕ) : digitsWord (appendDigits number word) 0 8 = word := by
  have same : (List.range 8).map (fun i => appendDigits number word / 10 ^ (0 + i) % 10) =
      (List.range 8).map (digit word) := by
    refine List.map_congr_left fun i member => ?_
    rw [zero_add]
    exact (appendDigits_digits decimal number).2 i (List.mem_range.mp member)
  rw [digitsWord_eq, same, word_of_digits]

theorem digitsWord_beyond (number low count : ℕ) :
    digitsWord (appendDigits number word) (8 + low) count = digitsWord number low count := by
  have same (i : ℕ) : appendDigits number word / 10 ^ (8 + low + i) % 10 =
      number / 10 ^ (low + i) % 10 := by
    rw [add_assoc, pow_add, ← Nat.div_div_eq_div_mul, (appendDigits_digits decimal number).1]
  simp only [digitsWord_eq, same]

end Append

/-- The exponent is three digits with a sign. -/
theorem exponent_eq (image : Image) :
    exponent image = if image.first.getLsbD 30 then
      -((digit image.first 6 * 100 + digit image.first 5 * 10 + digit image.first 4 : ℕ) : ℤ)
    else
      ((digit image.first 6 * 100 + digit image.first 5 * 10 + digit image.first 4 : ℕ) : ℤ) := by
  unfold exponent digit
  push_cast
  rfl

theorem natAbs_exponent (image : Image) : (exponent image).natAbs =
    digit image.first 6 * 100 + digit image.first 5 * 10 + digit image.first 4 := by
  rw [exponent_eq]
  split <;> omega

namespace Canonical

variable {image : Image} (canonical : Canonical image)
include canonical

/-- The mantissa has seventeen digits. -/
theorem mantissa_bounds : 10 ^ 16 ≤ mantissa image ∧ mantissa image < 10 ^ 17 := by
  have lead := canonical.leading
  have upper := (appendDigits_digits canonical.second (digit image.first 0)).1
  have lower := (appendDigits_digits canonical.third
    (appendDigits (digit image.first 0) image.second)).1
  show 10 ^ 16 ≤ appendDigits (appendDigits (digit image.first 0) image.second) image.third ∧
    appendDigits (appendDigits (digit image.first 0) image.second) image.third < 10 ^ 17
  omega

theorem natAbs_exponent_le : (exponent image).natAbs ≤ 999 := by
  have d4 : digit image.first 4 ≤ 9 := canonical.exponentDigits 0 (by decide)
  have d5 : digit image.first 5 ≤ 9 := canonical.exponentDigits 1 (by decide)
  have d6 : digit image.first 6 ≤ 9 := canonical.exponentDigits 2 (by decide)
  rw [natAbs_exponent]
  omega

theorem exponent_neg_iff : exponent image < 0 ↔ image.first.getLsbD 30 = true := by
  have nonzero := canonical.exponentSign
  rw [exponent_eq] at nonzero ⊢
  split_ifs at nonzero ⊢ with negative
  · simp only [negative, true_implies, iff_true] at nonzero ⊢
    omega
  · exact iff_of_false (by omega) negative

/-- The exponent digits in place. -/
theorem exponent_digitsWord :
    digitsWord (exponent image).natAbs 0 3 = (image.first.extractLsb' 16 12).setWidth 32 ∧
      digitsWord (exponent image).natAbs 3 1 = 0 := by
  have d4 : digit image.first 4 ≤ 9 := canonical.exponentDigits 0 (by decide)
  have d5 : digit image.first 5 ≤ 9 := canonical.exponentDigits 1 (by decide)
  have d6 : digit image.first 6 ≤ 9 := canonical.exponentDigits 2 (by decide)
  have size := natAbs_exponent image
  generalize (exponent image).natAbs = n at size
  have low : n / 10 ^ 0 % 10 = digit image.first 4 := by omega
  have middle : n / 10 ^ 1 % 10 = digit image.first 5 := by omega
  have high : n / 10 ^ 2 % 10 = digit image.first 6 := by omega
  have none : n / 10 ^ 3 % 10 = 0 := by omega
  constructor
  · have bits : image.first.toNat / 2 ^ 16 % 2 ^ 12 =
        digit image.first 4 + 16 * (digit image.first 5 + 16 * digit image.first 6) := by
      simp only [digit_eq, Nat.reducePow]
      omega
    have value : Nat.ofDigits 16 ((List.range 3).map fun i => n / 10 ^ (0 + i) % 10) =
        digit image.first 4 + 16 * (digit image.first 5 + 16 * digit image.first 6) := by
      simp only [List.range_succ, List.range_zero, List.nil_append, List.cons_append, List.map_cons,
        List.map_nil, Nat.ofDigits_cons, Nat.ofDigits_nil, zero_add, low, middle, high, mul_zero,
        add_zero]
    rw [digitsWord_eq, value, ← bits, ← Nat.shiftRight_eq_div_pow, ← BitVec.extractLsb'_toNat,
      BitVec.ofNat_toNat]
  · rw [digitsWord_eq]
    simp only [List.range_one, List.map_cons, List.map_nil, Nat.ofDigits_singleton, add_zero, none]
    rfl

/-- The leading digit in place. -/
theorem leading_digitsWord :
    digitsWord (mantissa image) 16 1 = (image.first.extractLsb' 0 4).setWidth 32 := by
  have lead := canonical.leading
  show digitsWord (appendDigits (appendDigits (digit image.first 0) image.second) image.third)
    (8 + (8 + 0)) 1 = _
  rw [digitsWord_beyond canonical.third, digitsWord_beyond canonical.second]
  apply BitVec.eq_of_toNat_eq
  have small : digit image.first 0 / 10 ^ 0 % 10 = digit image.first 0 := by omega
  simp only [digitsWord_eq, List.range_succ, List.range_zero, List.nil_append, List.map_cons,
    List.map_nil, Nat.ofDigits_singleton, add_zero, small, BitVec.toNat_ofNat,
    BitVec.toNat_setWidth]
  rfl

/-- The first word is the signs, the digits of the exponent and the leading digit. -/
theorem first_eq :
    (if image.first.getLsbD 31 then 0x80000000#32 else 0) |||
        (if image.first.getLsbD 30 then 0x40000000#32 else 0) |||
        (image.first.extractLsb' 16 12).setWidth 32 <<< 16 |||
        (image.first.extractLsb' 0 4).setWidth 32 = image.first := by
  have unused (i : ℕ) (mask : unusedMask.getLsbD i = true) : image.first.getLsbD i = false := by
    have bit := congrArg (BitVec.getLsbD · i) canonical.unused
    simpa [mask] using bit
  have flag (set : Bool) (word : BitVec 32) (i : ℕ) :
      (if set then word else 0).getLsbD i = (set && word.getLsbD i) := by
    cases set <;> simp
  apply BitVec.eq_of_getLsbD_eq
  intro i hi
  simp only [BitVec.getLsbD_or, flag, BitVec.getLsbD_shiftLeft, BitVec.getLsbD_setWidth,
    BitVec.getLsbD_extractLsb']
  interval_cases i
  all_goals simp [-BitVec.getLsbD_eq_getElem]
  -- what is left are the bits without a meaning
  all_goals exact unused _ rfl

end Canonical

/-- A canonical image is what its sign, mantissa and exponent are written as. -/
theorem assemble_of_canonical {image : Image} (canonical : Canonical image) :
    assemble (image.first.getLsbD 31) (mantissa image) (exponent image) = image := by
  obtain ⟨exponentDigits, fourth⟩ := canonical.exponent_digitsWord
  have second : digitsWord (mantissa image) 8 8 = image.second :=
    (digitsWord_beyond canonical.third _ 0 8).trans (digitsWord_append canonical.second _)
  have third : digitsWord (mantissa image) 0 8 = image.third := digitsWord_append canonical.third _
  have first : (assemble (image.first.getLsbD 31) (mantissa image) (exponent image)).first =
      image.first := by
    rw [assemble, exponentDigits, fourth, canonical.leading_digitsWord]
    simp only [canonical.exponent_neg_iff]
    exact (by simp : _ = _).trans canonical.first_eq
  calc assemble (image.first.getLsbD 31) (mantissa image) (exponent image)
      = ⟨(assemble (image.first.getLsbD 31) (mantissa image) (exponent image)).first,
          digitsWord (mantissa image) 8 8, digitsWord (mantissa image) 0 8⟩ := rfl
    _ = image := by rw [first, second, third]

end Decimal

end M68k
