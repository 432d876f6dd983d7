import M68k.Proofs.Decimal.Value

/-!
# Reading an image that was put together

What a store writes is read back digit by digit: the digits of the number in their places, those of
the exponent, and the two signs above them.

* `digit_digitsWord` — digits in place;
* `place_assemble`, `significand_assemble` — the digits of an assembled number;
* `storedExponent_assemble` — its exponent of up to four digits.
-/

namespace M68k

namespace Decimal

/-- The digits of a number add up to it. -/
theorem sum_digits (n m : ℕ) : ∑ i ∈ Finset.range m, n / 10 ^ i % 10 * 10 ^ i = n % 10 ^ m := by
  induction m with
  | zero => simp [Nat.mod_one]
  | succ m ih => rw [Finset.sum_range_succ, ih, Nat.mod_pow_succ, mul_comm (n / 10 ^ m % 10)]

/-! ## Digits of words -/

theorem digit_or (a b : BitVec 32) (i : ℕ) : digit (a ||| b) i = digit a i ||| digit b i := by
  rw [digit, BitVec.extractLsb'_or, BitVec.toNat_or]
  rfl

/-- A word that is moved up by whole digits. -/
theorem digit_shiftLeft (word : BitVec 32) (n : ℕ) {i : ℕ} (inside : i < 8) :
    digit (word <<< (4 * n)) i = if i < n then 0 else digit word (i - n) := by
  have bits : (word <<< (4 * n)).extractLsb' (4 * i) 4 =
      if i < n then 0 else word.extractLsb' (4 * (i - n)) 4 := by
    apply BitVec.eq_of_getLsbD_eq
    intro j small
    rw [BitVec.getLsbD_extractLsb', BitVec.getLsbD_shiftLeft]
    split_ifs with below
    · have clear : 4 * i + j < 4 * n := by omega
      simp [clear]
    · have place : 4 * i + j - 4 * n = 4 * (i - n) + j := by omega
      have within : 4 * i + j < 32 := by omega
      have above : ¬ 4 * i + j < 4 * n := by omega
      simp [small, within, above, place, -BitVec.getLsbD_eq_getElem]
  rw [digit, bits]
  split_ifs <;> rfl

/-- Digits in place. -/
theorem digit_digitsWord (number low : ℕ) {count : ℕ} (fits : count ≤ 8) (i : ℕ) :
    digit (digitsWord number low count) i =
      if i < count then number / 10 ^ (low + i) % 10 else 0 := by
  set digits := (List.range count).map fun i => number / 10 ^ (low + i) % 10 with list
  have length : digits.length = count := by simp [list]
  have small : ∀ d ∈ digits, d < 16 := by
    intro d member
    obtain ⟨i, -, rfl⟩ := List.mem_map.mp member
    exact (Nat.mod_lt _ (by decide)).trans (by decide)
  have bound : Nat.ofDigits 16 digits < 2 ^ 32 := by
    calc Nat.ofDigits 16 digits < 16 ^ digits.length :=
          Nat.ofDigits_lt_base_pow_length (by decide) small
      _ ≤ 16 ^ 8 := Nat.pow_le_pow_right (by decide) (by omega)
      _ = 2 ^ 32 := by decide
  rw [digit_eq, digitsWord_eq, ← list, BitVec.toNat_ofNat, Nat.mod_eq_of_lt bound,
    Nat.ofDigits_div_pow_eq_ofDigits_drop i (by decide) digits small, Nat.ofDigits_mod_eq_head!]
  split_ifs with inside
  · have first := List.drop_eq_getElem_cons (l := digits) (i := i) (by omega)
    rw [first, List.head!_cons, Nat.mod_eq_of_lt (small _ (List.getElem_mem _))]
    simp [list]
  · rw [List.drop_eq_nil_of_le (by omega)]
    rfl

/-- A bit of a word is one of its digit. -/
theorem getLsbD_digit (word : BitVec 32) (i : ℕ) {j : ℕ} (inside : j < 4) :
    word.getLsbD (4 * i + j) = (digit word i).testBit j := by
  rw [digit, BitVec.testBit_toNat, BitVec.getLsbD_extractLsb', decide_eq_true inside, Bool.true_and]

/-! ## Images -/

section

variable (sign : Bool) (digits : ℕ) (exponent : ℤ)

theorem digit_flag (flag : Prop) [Decidable flag] (word : BitVec 32) (i : ℕ) :
    digit (if flag then word else 0) i = if flag then digit word i else 0 := by
  have zero : digit 0 i = 0 := by simp [digit]
  split
  · rfl
  · exact zero

/-- The digits of the first word: one of the number, four of the exponent, and the signs. -/
theorem digit_assemble_first {i : ℕ} (inside : i < 8) :
    digit (assemble sign digits exponent).first i =
      match i with
      | 0 => digits / 10 ^ 16 % 10
      | 3 => exponent.natAbs / 1000 % 10
      | 4 => exponent.natAbs % 10
      | 5 => exponent.natAbs / 10 % 10
      | 6 => exponent.natAbs / 100 % 10
      | 7 => (if sign then 8 else 0) ||| (if exponent < 0 then 4 else 0)
      | _ => 0 := by
  have fourth (word : BitVec 32) :
      digit (word <<< 16) i = if i < 4 then 0 else digit word (i - 4) :=
    digit_shiftLeft word 4 inside
  have third (word : BitVec 32) :
      digit (word <<< 12) i = if i < 3 then 0 else digit word (i - 3) :=
    digit_shiftLeft word 3 inside
  rw [assemble]
  simp only [digit_or, digit_flag, fourth, third, digit_digitsWord _ _ (show 3 ≤ 8 by decide),
    digit_digitsWord _ _ (show 1 ≤ 8 by decide)]
  have eight : digit 0x80000000#32 7 = 8 := by decide
  have four : digit 0x40000000#32 7 = 4 := by decide
  have low {j : ℕ} (below : j < 7) : digit 0x80000000#32 j = 0 ∧ digit 0x40000000#32 j = 0 := by
    interval_cases j <;> decide
  interval_cases i
  all_goals simp [eight, four, low]

theorem signs_assemble : (assemble sign digits exponent).first.getLsbD 31 = sign ∧
    (assemble sign digits exponent).first.getLsbD 30 = decide (exponent < 0) := by
  have top : digit (assemble sign digits exponent).first 7 =
      (if sign then 8 else 0) ||| (if exponent < 0 then 4 else 0) :=
    digit_assemble_first sign digits exponent (by decide)
  have number := getLsbD_digit (assemble sign digits exponent).first 7 (j := 3) (by decide)
  have power := getLsbD_digit (assemble sign digits exponent).first 7 (j := 2) (by decide)
  rw [top] at number power
  by_cases negative : exponent < 0
  · simp only [negative, if_true, decide_true] at number power ⊢
    cases sign
    · exact ⟨number, power⟩
    · exact ⟨number, power⟩
  · simp only [negative, if_false, decide_false] at number power ⊢
    cases sign
    · exact ⟨number, power⟩
    · exact ⟨number, power⟩

theorem place_assemble {i : ℕ} (inside : i < 17) :
    place (assemble sign digits exponent) i = digits / 10 ^ i % 10 := by
  have third (j : ℕ) := digit_digitsWord digits 0 (show 8 ≤ 8 from le_rfl) j
  have second (j : ℕ) := digit_digitsWord digits 8 (show 8 ≤ 8 from le_rfl) j
  unfold place
  split_ifs with low middle
  · show digit (digitsWord digits 0 8) i = _
    rw [third, if_pos low, zero_add]
  · show digit (digitsWord digits 8 8) (i - 8) = _
    rw [second, if_pos (by omega), show 8 + (i - 8) = i by omega]
  · obtain rfl : i = 16 := by omega
    exact digit_assemble_first sign digits exponent (by decide)

theorem significand_assemble {digits : ℕ} (few : digits < 10 ^ 17) :
    significand (assemble sign digits exponent) = digits := by
  rw [significand, Finset.sum_congr rfl fun i member => by
    rw [place_assemble sign digits exponent (Finset.mem_range.mp member)], sum_digits,
    Nat.mod_eq_of_lt few]

theorem storedExponent_assemble {exponent : ℤ} (small : exponent.natAbs ≤ 9999) :
    storedExponent (assemble sign digits exponent) = exponent := by
  have d3 : digit (assemble sign digits exponent).first 3 = exponent.natAbs / 1000 % 10 :=
    digit_assemble_first sign digits exponent (by decide)
  have d4 : digit (assemble sign digits exponent).first 4 = exponent.natAbs % 10 :=
    digit_assemble_first sign digits exponent (by decide)
  have d5 : digit (assemble sign digits exponent).first 5 = exponent.natAbs / 10 % 10 :=
    digit_assemble_first sign digits exponent (by decide)
  have d6 : digit (assemble sign digits exponent).first 6 = exponent.natAbs / 100 % 10 :=
    digit_assemble_first sign digits exponent (by decide)
  have size : digit (assemble sign digits exponent).first 3 * 1000 +
      exponentSize (assemble sign digits exponent) = exponent.natAbs := by
    rw [exponentSize, d3, d4, d5, d6]
    omega
  rw [storedExponent, signedExponent, size, (signs_assemble sign digits exponent).2, withSign]
  split_ifs with negative
  · rw [decide_eq_true_iff] at negative
    omega
  · rw [decide_eq_true_iff] at negative
    omega

/-- The number that an assembled image stands for. -/
theorem decimalValue_assemble {digits : ℕ} (few : digits < 10 ^ 17) (power : ℤ) :
    decimalValue (assemble sign digits exponent) power =
      withSign sign ((digits : ℚ) * 10 ^ (power - 16)) := by
  rw [decimalValue, significand_assemble sign exponent few, (signs_assemble sign digits exponent).1]

end

end Decimal

end M68k
