import M68k.Decimal.LimbConversion
import M68k.Proofs.Decimal.LimbArithmetic
import M68k.Proofs.Decimal.Store
import M68k.Proofs.Fp.CheckedConversion

/-!
# Decimal conversion stays within its words

Computed in limbs and machine words, a conversion of a packed decimal number has a result, which is
the one of exact arithmetic: no number leaves its word, and every division has a divisor other than
zero and a quotient that fits in a word.

* `decode_eq`, `encodeFrom_eq` — the conversions in limbs;
* `arithmetic_in_limbs` — arithmetic in limbs, and what the conversions do with it.
-/

namespace M68k

namespace Decimal

open Limbs (Represents)

/-! ## Sizes -/

theorem bitLength_le {n k : ℕ} (small : n < 2 ^ k) : bitLength n ≤ k := by
  rcases Nat.eq_zero_or_pos n with rfl | positive
  · exact Nat.zero_le _
  · obtain ⟨some, low, -⟩ := bitLength_bounds positive
    have := (Nat.pow_lt_pow_iff_right one_lt_two).mp (low.trans_lt small)
    omega

theorem lt_of_bitLength_le {n k : ℕ} (short : bitLength n ≤ k) : n < 2 ^ k := by
  rcases Nat.eq_zero_or_pos n with rfl | positive
  · exact Nat.two_pow_pos k
  · exact (bitLength_bounds positive).2.2.trans_le (Nat.pow_le_pow_right two_pos short)

theorem pow10_lt (n : ℕ) : 10 ^ n < 2 ^ (4 * n + 1) := by
  calc 10 ^ n ≤ 16 ^ n := Nat.pow_le_pow_left (by decide) n
    _ = 2 ^ (4 * n) := (pow_mul 2 4 n).symm
    _ < 2 ^ (4 * n + 1) := Nat.pow_lt_pow_right one_lt_two (Nat.lt_succ_self _)

theorem mul_pow10_lt {m k : ℕ} (small : m < 2 ^ k) (n : ℕ) :
    m * 10 ^ n < 2 ^ (k + (4 * n + 1)) := by
  rw [pow_add]
  exact Nat.mul_lt_mul_of_lt_of_le small (pow10_lt n).le (Nat.two_pow_pos _)

namespace Checked

/-! ## Decoding -/

/-- Digits appended to a number with room for so many more. -/
theorem appendDigit_yields {number : Wide} {n : ℕ} (room : n < 28)
    (few : number.toNat + 2 ≤ 2 * 10 ^ n) (word : BitVec 32) (shift : ℕ) :
    Yields (do Wide.add? (← Wide.mul? number 10) ((word.extractLsb' shift 4).setWidth 128)) fun r =>
      r.toNat = number.toNat * 10 + (word.extractLsb' shift 4).toNat ∧
        r.toNat + 2 ≤ 2 * 10 ^ (n + 1) := by
  have limit : 2 * 10 ^ (n + 1) < 2 ^ 128 := by
    calc 2 * 10 ^ (n + 1) ≤ 2 * 10 ^ 28 :=
          Nat.mul_le_mul_left _ (Nat.pow_le_pow_right (by decide) (by omega))
      _ < 2 ^ 128 := by decide
  rw [pow_succ] at limit ⊢
  have ten : (10 : Wide).toNat = 10 := rfl
  have digit := (word.extractLsb' shift 4).isLt
  have widened :
      ((word.extractLsb' shift 4).setWidth 128).toNat = (word.extractLsb' shift 4).toNat :=
    BitVec.toNat_setWidth_of_le (by decide)
  refine (Wide.mul_yields (by rw [ten]; omega)).bind fun product value => ?_
  rw [ten] at value
  refine (Wide.add_yields (by omega)).mono fun sum total => ?_
  rw [value, widened] at total
  omega

theorem appendDigits_yields {number : Wide} {n : ℕ} (room : n ≤ 20)
    (few : number.toNat + 2 ≤ 2 * 10 ^ n) (word : BitVec 32) :
    Yields (appendDigits number word) fun r =>
      r.toNat = Decimal.appendDigits number.toNat word ∧ r.toNat + 2 ≤ 2 * 10 ^ (n + 8) := by
  have steps (shifts : List ℕ) : ∀ {number : Wide} {n : ℕ}, n + shifts.length ≤ 28 →
      number.toNat + 2 ≤ 2 * 10 ^ n →
      Yields (shifts.foldlM (fun n shift => do
          Wide.add? (← Wide.mul? n 10) ((word.extractLsb' shift 4).setWidth 128)) number) fun r =>
        r.toNat = shifts.foldl (fun n shift => n * 10 + (word.extractLsb' shift 4).toNat)
          number.toNat ∧ r.toNat + 2 ≤ 2 * 10 ^ (n + shifts.length) := by
    induction shifts with
    | nil => exact fun _ few => .some ⟨rfl, few⟩
    | cons shift rest ih =>
      intro number n room few
      rw [List.length_cons] at room ⊢
      rw [List.foldlM_cons]
      refine (appendDigit_yields (by omega) few word shift).bind fun next ⟨value, few⟩ => ?_
      rw [List.foldl_cons, ← value, show n + (rest.length + 1) = n + 1 + rest.length by omega]
      exact ih (by omega) few
  exact steps _ (by simp only [List.length_cons, List.length_nil]; omega) few

theorem mantissa_yields (image : Image) :
    Yields (mantissa image) fun r =>
      r.toNat = Decimal.mantissa image ∧ r.toNat < 2 ^ 100 := by
  have digit := (image.first.extractLsb' 0 4).isLt
  have widened : ((image.first.extractLsb' 0 4).setWidth 128).toNat =
      (image.first.extractLsb' 0 4).toNat := BitVec.toNat_setWidth_of_le (by decide)
  refine (appendDigits_yields (n := 1) (by decide) (by omega) _).bind fun high ⟨value, few⟩ => ?_
  refine (appendDigits_yields (by decide) few _).mono fun all ⟨value', few'⟩ => ⟨?_, ?_⟩
  · rw [value', value, widened]
    rfl
  · have : 2 * 10 ^ (1 + 8 + 8) < 2 ^ 100 := by decide
    omega

/-- A word with the sticky bit of what is lost. -/
theorem toNat_or_bit (quotient : Wide) (lost : Bool) {n d : ℕ} (value : quotient.toNat = n / d)
    (more : lost = true ↔ n % d ≠ 0) :
    (quotient ||| Wide.bit lost).toNat = stickyQuotient n d := by
  rw [BitVec.toNat_or, Wide.toNat_bit, value, stickyQuotient]
  simp only [more, ite_not]

theorem topBits_yields {number : Limbs} {n : ℕ} (h : Represents number n)
    (short : bitLength n < 2 ^ 31) :
    Yields (topBits number) fun r =>
      r.1.toNat = (Decimal.topBits n).1 ∧ r.2 = (Decimal.topBits n).2 := by
  unfold topBits Decimal.topBits
  rw [h.bitLength_eq]
  refine .step (uint32?_eq rfl (by omega)) ?_
  dsimp only
  split_ifs with few
  · have whole : n < 2 ^ 128 := lt_of_bitLength_le few |>.trans (by decide)
    refine .some ⟨?_, rfl⟩
    rw [Limbs.toNat_lowWide, h.value_eq, Nat.mod_eq_of_lt whole]
  · refine .step (uint32?_eq (k := bitLength n - 100) (by omega) (by omega)) ?_
    refine .step (int32?_eq (by omega) (by omega)) (.some ⟨?_, rfl⟩)
    have kept : n / 2 ^ (bitLength n - 100) < 2 ^ 128 := by
      rw [Nat.div_lt_iff_lt_mul (Nat.two_pow_pos _), ← pow_add]
      exact lt_of_bitLength_le (by omega)
    refine toNat_or_bit _ _ ?_ ?_
    · rw [Limbs.toNat_lowWide, (Limbs.represents_shr h _).value_eq, Nat.mod_eq_of_lt kept]
      rfl
    · rw [Limbs.lowBitsNonzero_iff, h.value_eq]
      rfl

/-- Leading bits have a place in machine words, and the divisions for them are in order. -/
theorem leadingBits_yields {mantissa : Wide} (small : mantissa.toNat < 2 ^ 100) {power : ℤ}
    (range : power.natAbs ≤ 10000) :
    Yields (leadingBits mantissa power) fun r =>
      r.1.toNat = (Decimal.leadingBits mantissa.toNat power).1 ∧
        r.2 = (Decimal.leadingBits mantissa.toNat power).2 ∧ r.2.natAbs < 2 ^ 16 := by
  have number := Limbs.represents_ofWide mantissa
  have size := bitLength_le (pow10_lt power.natAbs)
  have own := bitLength_le small
  refine (Limbs.pow10_yields _).bind fun scale tens => ?_
  unfold Decimal.leadingBits
  dsimp only
  split_ifs with whole
  · refine (Limbs.mul_yields number tens).bind fun product h => ?_
    have length := bitLength_le (mul_pow10_lt small power.natAbs)
    have same : power.natAbs = power.toNat := by omega
    rw [same] at h length
    refine (topBits_yields h (by omega)).mono fun r ⟨bits, shift⟩ => ⟨bits, shift, ?_⟩
    rw [shift]
    unfold Decimal.topBits
    dsimp only
    split_ifs
    · exact Nat.two_pow_pos 16
    · dsimp only [Nat.pow_eq]
      omega
  · have same : (-power).toNat = power.natAbs := by omega
    rw [same, Nat.pow_eq]
    rw [tens.bitLength_eq, number.bitLength_eq]
    refine .step (uint32?_eq rfl (by omega)) ?_
    refine .step (uint32?_eq (k := bitLength (10 ^ power.natAbs) + 100) (by omega) (by omega)) ?_
    refine .step (uint32?_eq rfl (by omega)) ?_
    have moved := Limbs.represents_shl number
      (bitLength (10 ^ power.natAbs) + 100 - bitLength mantissa.toNat)
    have length : bitLength (mantissa.toNat *
        2 ^ (bitLength (10 ^ power.natAbs) + 100 - bitLength mantissa.toNat)) ≤
          bitLength (10 ^ power.natAbs) + 100 := by
      apply bitLength_le
      calc mantissa.toNat * 2 ^ (bitLength (10 ^ power.natAbs) + 100 - bitLength mantissa.toNat)
          < 2 ^ bitLength mantissa.toNat *
              2 ^ (bitLength (10 ^ power.natAbs) + 100 - bitLength mantissa.toNat) :=
            Nat.mul_lt_mul_of_pos_right (lt_of_bitLength_le le_rfl) (Nat.two_pow_pos _)
        _ = 2 ^ (bitLength (10 ^ power.natAbs) + 100) := by
            rw [← pow_add, Nat.add_sub_cancel' (by omega)]
    refine (Limbs.divRem_yields moved tens (Nat.pow_pos (by decide)) (by omega) (by omega)).bind
      fun (quotient, rest) ⟨value, left⟩ => ?_
    refine .step (int32?_eq
      (n := (bitLength (10 ^ power.natAbs) + 100 - bitLength mantissa.toNat : ℕ))
      (by omega) (by omega)) ?_
    refine .step (int32?_eq (by omega) (by omega)) (.some ⟨?_, rfl, ?_⟩)
    · rw [← Nat.shiftLeft_eq] at value
      refine toNat_or_bit _ _ value ?_
      rw [decide_eq_true_eq, ne_eq, left.eq_nil_iff, Nat.shiftLeft_eq]
    · omega

/-- **Loads in limbs.** -/
theorem decode_eq (env : Environment) (image : Image) :
    decode env image = some (Decimal.decode env image) := by
  unfold decode Decimal.decode
  dsimp only
  by_cases special : image.first &&& specialMask = specialMask
  · rw [if_pos special, if_pos special]
    split_ifs <;> rfl
  · rw [if_neg special, if_neg special]
    obtain ⟨digits, ends, value, small⟩ := mantissa_yields image
    rw [ends, Option.bind_eq_bind, Option.bind_some, ← value]
    by_cases none : digits = 0
    · have nothing : digits.toNat = 0 := congrArg BitVec.toNat none
      rw [if_pos none, if_pos nothing]
      rfl
    · have positive : 0 < digits.toNat :=
        Nat.pos_of_ne_zero (mt (Limbs.toNat_eq_zero_iff _).mp none)
      have range := natAbs_loadedExponent_le image
      rw [← exponent_eq_loadedExponent] at range
      rw [if_neg none, if_neg positive.ne']
      have leading := leadingBits_pos positive (exponent image - 16)
      refine Yields.eq_some (.step (int32?_eq (by omega) (by omega)) ?_)
      refine (leadingBits_yields small (by omega)).bind fun (bits, shift) found => ?_
      obtain ⟨same, same', near⟩ := found
      dsimp only at same same' near
      refine .step (M68k.Checked.ofScaled_eq ..) (.some ?_)
      have unclamped : Extended.clampScale shift = shift := by
        unfold Extended.clampScale Extended.scaleLimit
        omega
      have some : bits.toNat ≠ 0 := by
        rw [same]
        exact leading.ne'
      rw [Extended.ofScaled, if_neg some, unclamped, same, same']
      rfl

/-! ## Encoding -/

section

variable {numerator denominator : Limbs} {guess next : ℤ} {order : Ordering}

theorem lowerLog10_of_lt (below : comparePow10 numerator denominator guess = some .lt)
    (fits : int32? (guess - 1) = some next) :
    lowerLog10 numerator denominator guess = lowerLog10 numerator denominator next := by
  rw [lowerLog10, below, Option.bind_eq_bind, Option.bind_some, if_pos rfl]
  split
  · next none => exact absurd (fits.symm.trans none) (Option.some_ne_none next)
  · next found => rw [Option.some.inj (fits.symm.trans found)]

theorem lowerLog10_of_ne_lt (ends : comparePow10 numerator denominator guess = some order)
    (above : order ≠ .lt) : lowerLog10 numerator denominator guess = some guess := by
  rw [lowerLog10, ends, Option.bind_eq_bind, Option.bind_some, if_neg above]
  rfl

theorem raiseLog10_of_ne_lt (fits : int32? (guess + 1) = some next)
    (ends : comparePow10 numerator denominator next = some order) (above : order ≠ .lt) :
    raiseLog10 numerator denominator guess = raiseLog10 numerator denominator next := by
  rw [raiseLog10]
  split
  · next none => exact absurd (fits.symm.trans none) (Option.some_ne_none next)
  · next found =>
    rw [← Option.some.inj (fits.symm.trans found), ends, Option.bind_eq_bind, Option.bind_some,
      if_pos above]

theorem raiseLog10_of_lt (fits : int32? (guess + 1) = some next)
    (below : comparePow10 numerator denominator next = some .lt) :
    raiseLog10 numerator denominator guess = some guess := by
  rw [raiseLog10]
  split
  · next none => exact absurd (fits.symm.trans none) (Option.some_ne_none next)
  · next found =>
    rw [← Option.some.inj (fits.symm.trans found), below, Option.bind_eq_bind, Option.bind_some,
      if_neg (not_not.mpr rfl)]
    rfl

end

section

variable {numerator denominator : Limbs} {n d : ℕ} (hn : Represents numerator n)
  (hd : Represents denominator d)
include hn hd

theorem comparePow10_yields (power : ℤ) :
    Yields (comparePow10 numerator denominator power) fun order =>
      order = .lt ↔ isBelowPow10 n d power = true := by
  unfold comparePow10 isBelowPow10
  refine (Limbs.pow10_yields _).bind fun scale tens => ?_
  split_ifs with whole
  · refine (Limbs.mul_yields hd tens).bind fun product h => .some ?_
    rw [hn.compare_lt_iff h, decide_eq_true_eq, show power.natAbs = power.toNat by omega,
      Nat.pow_eq]
  · refine (Limbs.mul_yields hn tens).bind fun product h => .some ?_
    rw [h.compare_lt_iff hd, decide_eq_true_eq, show power.natAbs = (-power).toNat by omega,
      Nat.pow_eq]

variable (positive : 0 < n) (positive' : 0 < d)
  (range : (Int.log 10 ((n : ℚ) / d)).natAbs ≤ 10000)
include positive positive' range

theorem lowerLog10_eq {guess : ℤ} (low : -2 ^ 31 ≤ guess) (high : guess < 2 ^ 31) :
    lowerLog10 numerator denominator guess = some (Decimal.lowerLog10 n d guess) := by
  fun_induction Decimal.lowerLog10 n d guess with
  | case1 guess step ih =>
    have above := (isBelowPow10_iff_log_lt positive positive' guess).mp step.2
    obtain ⟨order, ends, less⟩ := comparePow10_yields hn hd guess
    rw [less.mpr step.2] at ends
    rw [lowerLog10_of_lt ends (int32?_eq (by omega) (by omega))]
    exact ih (by omega) (by omega)
  | case2 guess stop =>
    obtain ⟨order, ends, less⟩ := comparePow10_yields hn hd guess
    exact lowerLog10_of_ne_lt ends fun lt => stop ⟨positive, less.mp lt⟩

theorem raiseLog10_eq {guess : ℤ} (low : -2 ^ 31 ≤ guess)
    (below : guess ≤ Int.log 10 ((n : ℚ) / d)) :
    raiseLog10 numerator denominator guess = some (Decimal.raiseLog10 n d guess) := by
  fun_induction Decimal.raiseLog10 n d guess with
  | case1 guess step ih =>
    have above := mt (isBelowPow10_iff_log_lt positive positive' (guess + 1)).mpr step.2.2
    obtain ⟨order, ends, less⟩ := comparePow10_yields hn hd (guess + 1)
    rw [raiseLog10_of_ne_lt (int32?_eq (by omega) (by omega)) ends (mt less.mp step.2.2)]
    exact ih (by omega) (by omega)
  | case2 guess stop =>
    obtain ⟨order, ends, less⟩ := comparePow10_yields hn hd (guess + 1)
    obtain rfl : order = .lt := by
      by_contra more
      exact stop ⟨positive, positive', mt less.mpr more⟩
    exact raiseLog10_of_lt (int32?_eq (by omega) (by omega)) ends

/-- The search for the exponent stays within a word, from any guess of a word. -/
theorem floorLog10_eq {guess : ℤ} (low : -2 ^ 31 ≤ guess) (high : guess < 2 ^ 31) :
    floorLog10 numerator denominator guess = some (Decimal.floorLog10 n d guess) := by
  have lowered := Decimal.lowerLog10_eq positive positive' guess
  rw [floorLog10, lowerLog10_eq hn hd positive positive' range low high, Option.bind_eq_bind,
    Option.bind_some, raiseLog10_eq hn hd positive positive' range (by omega) (by omega)]
  rfl

end

theorem scaleFraction_yields {fraction : Limbs × Limbs} {exact_fraction : ℕ × ℕ}
    (hn : Represents fraction.1 exact_fraction.1) (hd : Represents fraction.2 exact_fraction.2)
    (power : ℤ) :
    Yields (scaleFraction fraction power) fun r =>
      Represents r.1 (Decimal.scaleFraction exact_fraction power).1 ∧
        Represents r.2 (Decimal.scaleFraction exact_fraction power).2 := by
  unfold scaleFraction Decimal.scaleFraction
  refine (Limbs.pow10_yields _).bind fun scale tens => ?_
  split_ifs with whole
  · rw [show power.natAbs = power.toNat by omega] at tens
    exact (Limbs.mul_yields hn tens).bind fun product h => .some ⟨h, hd⟩
  · rw [show power.natAbs = (-power).toNat by omega] at tens
    exact (Limbs.mul_yields hd tens).bind fun product h => .some ⟨hn, h⟩

theorem fractionOf_yields (x : Extended) :
    Yields (fractionOf x) fun r =>
      Represents r.1 (Decimal.fractionOf x).1 ∧ Represents r.2 (Decimal.fractionOf x).2 := by
  have small : x.coefficient < 2 ^ 64 := Fp.coefficient_lt (by decide) x
  have whole : (BitVec.ofNat 128 x.coefficient).toNat = x.coefficient := by
    rw [BitVec.toNat_ofNat, Nat.mod_eq_of_lt (by omega)]
  have number := Limbs.represents_ofWide (BitVec.ofNat 128 x.coefficient)
  have one := Limbs.represents_ofWide 1
  rw [whole] at number
  refine .step (M68k.Checked.scaledInteger_eq x) ?_
  unfold Decimal.fractionOf Magnitude.shiftedFraction
  dsimp only
  split_ifs with large
  · have moved := Limbs.represents_shl number x.unitExponent.toNat
    rw [← Nat.shiftLeft_eq] at moved
    rw [show x.unitExponent.natAbs = x.unitExponent.toNat by omega]
    exact .some ⟨moved, one⟩
  · have moved := Limbs.represents_shl one (-x.unitExponent).toNat
    rw [← Nat.shiftLeft_eq] at moved
    rw [show x.unitExponent.natAbs = (-x.unitExponent).toNat by omega]
    exact .some ⟨number, moved⟩

theorem digitCount_eq {k lead : ℤ} (small : -128 ≤ k ∧ k < 128) (range : lead.natAbs ≤ 10000) :
    digitCount k lead = some (Decimal.digitCount k lead) := by
  unfold digitCount Decimal.digitCount
  split_ifs
  · rfl
  · rw [int32?_eq (n := lead + 1) (by omega) (by omega), Option.bind_eq_bind, Option.bind_some,
      int32?_eq (by omega) (by omega)]
    rfl

/-- Powers of ten with no more digits than a mantissa have room in a word. -/
theorem toNat_pow10 {n : ℕ} (few : n ≤ 17) : (BitVec.ofNat 128 (Nat.pow 10 n)).toNat = 10 ^ n := by
  have bound : 10 ^ n ≤ 10 ^ 17 := Nat.pow_le_pow_right (by decide) few
  rw [BitVec.toNat_ofNat, Nat.pow_eq, Nat.mod_eq_of_lt (by omega)]

theorem settleCarry_yields {rounded : Wide} {count : ℕ} (some : 1 ≤ count) (few : count ≤ 17)
    {lead : ℤ} (range : lead.natAbs ≤ 10000) :
    Yields (settleCarry rounded count lead) fun r =>
      r.1.toNat ≤ rounded.toNat ∧
        (r.1.toNat, r.2) =
          if rounded.toNat = Nat.pow 10 count then (Nat.pow 10 (count - 1), lead + 1)
          else (rounded.toNat, lead) := by
  have carried : rounded = BitVec.ofNat 128 (Nat.pow 10 count) ↔
      rounded.toNat = Nat.pow 10 count := by
    rw [← BitVec.toNat_inj, toNat_pow10 few, Nat.pow_eq]
  unfold settleCarry
  split_ifs with carry all all
  · have ten : (10 : Wide).toNat = 10 := rfl
    have less : (rounded / 10).toNat ≤ rounded.toNat := by
      rw [BitVec.toNat_udiv]
      exact Nat.div_le_self ..
    refine .step (int32?_eq (by omega) (by omega)) (.some ⟨less, ?_⟩)
    rw [BitVec.toNat_udiv, all, ten, Nat.pow_eq, Nat.pow_eq, ← Nat.pow_div some (by decide),
      pow_one]
  · exact absurd (carried.mp carry) all
  · exact absurd (carried.mpr all) carry
  · exact .some ⟨le_rfl, rfl⟩

/-- Twice what is left of a division against the divisor. -/
theorem compare_twice {r d : ℕ} (some : Remnant.ofRemainder r d ≠ .zero) :
    compare (r * 2) d = (Remnant.ofRemainder r d).place := by
  have nonzero := mt (Remnant.ofRemainder_eq_zero_iff r d).mpr some
  unfold Remnant.ofRemainder
  rw [if_neg nonzero, Nat.mul_comm, Nat.compare_eq_ite_lt]
  split_ifs <;> first | rfl | omega

/-- The numbers that a store starts from are of limited size. -/
theorem bitLength_fractionOf_le (x : Extended) : bitLength (Decimal.fractionOf x).1 ≤ 20000 := by
  have small : x.coefficient < 2 ^ 64 := Fp.coefficient_lt (by decide) x
  have exponent : x.unitExponent ≤ 16500 := by
    have most : x.exponent.toNat < 2 ^ 15 := x.exponent.isLt
    have unit : x.unitExponent = (max 1 x.exponent.toNat : ℕ) - 16383 - 63 := rfl
    omega
  unfold Decimal.fractionOf Magnitude.shiftedFraction
  split_ifs
  · have moved : x.coefficient <<< x.unitExponent.toNat < 2 ^ (64 + x.unitExponent.toNat) := by
      rw [Nat.shiftLeft_eq, pow_add]
      exact Nat.mul_lt_mul_of_pos_right small (Nat.two_pow_pos _)
    exact (bitLength_le moved).trans (by omega)
  · exact (bitLength_le small).trans (by decide)

theorem bitLength_scaleFraction_le (fraction : ℕ × ℕ) (power : ℤ) :
    bitLength (Decimal.scaleFraction fraction power).1 ≤
      bitLength fraction.1 + (4 * power.natAbs + 1) := by
  unfold Decimal.scaleFraction
  split_ifs
  · rw [show power.natAbs = power.toNat by omega]
    exact bitLength_le (mul_pow10_lt (lt_of_bitLength_le le_rfl) _)
  · exact Nat.le_add_right _ _

/-- The division for the digits of a number. -/
theorem scaled_bounds {x : Extended} (kind : x.kind = .finite) {count : ℕ} (some : 1 ≤ count)
    (few : count ≤ 17) :
    let scaled := Decimal.scaleFraction (Decimal.fractionOf x)
      ((count : ℤ) - 1 - Int.log 10 |x.value ℚ|)
    0 < scaled.2 ∧ scaled.1 / scaled.2 < 10 ^ count ∧ bitLength scaled.1 < 2 ^ 32 ∧
      bitLength scaled.1 < bitLength scaled.2 + 128 := by
  intro scaled
  obtain ⟨numerator, denominator, fraction⟩ := fractionOf_spec kind
  have range := natAbs_log_le kind
  have positive : 0 < scaled.2 := scaleFraction_pos denominator _
  have value := scaleFraction_value (Decimal.fractionOf x)
    ((count : ℤ) - 1 - Int.log 10 |x.value ℚ|)
  have magnitude : 0 < |x.value ℚ| := by
    rw [← fraction]
    exact div_pos (by exact_mod_cast numerator) (by exact_mod_cast denominator)
  obtain ⟨-, high⟩ := digits_before_point magnitude some
  have unit : (10 : ℚ) ^ ((count : ℤ) - 1 - Int.log 10 |x.value ℚ|) =
      (10 ^ (Int.log 10 |x.value ℚ| + 1 - count))⁻¹ := by
    rw [← zpow_neg]
    congr 1
    ring
  rw [fraction, unit, ← div_eq_mul_inv] at value
  have digits : scaled.1 < 10 ^ count * scaled.2 := by
    have bound : (scaled.1 : ℚ) / scaled.2 < 10 ^ count := value.trans_lt high
    rw [div_lt_iff₀ (by exact_mod_cast positive)] at bound
    exact_mod_cast bound
  refine ⟨positive, (Nat.div_lt_iff_lt_mul positive).mpr digits, ?_, ?_⟩
  · have start := bitLength_fractionOf_le x
    have length := bitLength_scaleFraction_le (Decimal.fractionOf x)
      ((count : ℤ) - 1 - Int.log 10 |x.value ℚ|)
    exact length.trans_lt (by omega)
  · have tens : 10 ^ count < 2 ^ 57 :=
      (Nat.pow_le_pow_right (by decide) few).trans_lt (by decide)
    have length : bitLength scaled.1 ≤ 57 + bitLength scaled.2 := by
      apply bitLength_le
      calc scaled.1 < 10 ^ count * scaled.2 := digits
        _ ≤ 2 ^ 57 * 2 ^ bitLength scaled.2 :=
          Nat.mul_le_mul tens.le (lt_of_bitLength_le le_rfl).le
        _ = 2 ^ (57 + bitLength scaled.2) := (pow_add ..).symm
    omega

/-- **Stores in limbs.** -/
theorem encodeFrom_eq {guess : ℤ} (low : -2 ^ 31 ≤ guess) (high : guess < 2 ^ 31)
    (mode : RoundingMode) {k : ℤ} (small : -128 ≤ k ∧ k < 128) (x : Extended) :
    encodeFrom guess mode k x = some (Decimal.encodeFrom guess mode k x) := by
  cases kind : x.kind with
  | infinity => rw [encodeFrom, Decimal.encodeFrom, kind]; rfl
  | nan => rw [encodeFrom, Decimal.encodeFrom, kind]; rfl
  | zero => rw [encodeFrom, Decimal.encodeFrom, kind]; rfl
  | finite =>
    obtain ⟨positive, positive', fraction⟩ := fractionOf_spec kind
    have range := natAbs_log_le kind
    obtain ⟨-, least, few⟩ := digitCount_spec k (Int.log 10 |x.value ℚ|)
    obtain ⟨divisor, digits, counted, near⟩ := scaled_bounds kind least few
    have asked : digitCount k (Int.log 10 |x.value ℚ|) =
        some (Decimal.digitCount k (Int.log 10 |x.value ℚ|)) :=
      digitCount_eq small (by omega)
    have search := floorLog10_search positive positive' guess
    rw [fraction] at search
    rw [Decimal.encodeFrom_eq kind, search, encodeFrom, kind]
    dsimp only
    generalize Decimal.digitCount k (Int.log 10 |x.value ℚ|) = count at *
    refine Yields.eq_some ((fractionOf_yields x).bind fun (numerator, denominator) ⟨hn, hd⟩ => ?_)
    have found := floorLog10_eq hn hd positive positive' (by rw [fraction]; omega) low high
    rw [search] at found
    generalize Int.log 10 |x.value ℚ| = lead at *
    refine .step found (.step asked (.step (int32?_eq (by omega) (by omega)) ?_))
    refine .step (int32?_eq (by omega) (by omega)) ?_
    refine (scaleFraction_yields hn hd _).bind fun (n, d) ⟨hn', hd'⟩ => ?_
    generalize Decimal.scaleFraction (Decimal.fractionOf x) ((count : ℤ) - 1 - lead) = scaled at *
    refine (Limbs.divRem_yields hn' hd' divisor counted near).bind fun (quotient, rest) h => ?_
    obtain ⟨value, left⟩ := h
    have lost : decide (rest ≠ []) = true ↔
        Remnant.ofRemainder (scaled.1 % scaled.2) scaled.2 ≠ .zero := by
      rw [decide_eq_true_eq, ne_eq, left.eq_nil_iff, ne_eq, Remnant.ofRemainder_eq_zero_iff]
    have place : Remnant.ofRemainder (scaled.1 % scaled.2) scaled.2 ≠ .zero →
        (rest.shl 1).compare d = (Remnant.ofRemainder (scaled.1 % scaled.2) scaled.2).place := by
      intro remains
      rw [(Limbs.represents_shl left 1).compare_eq hd', pow_one, compare_twice remains]
    have tens : 10 ^ count ≤ 10 ^ 17 := Nat.pow_le_pow_right (by decide) few
    refine (Wide.roundKept_yields mode x.sign lost place (by omega)).bind
      fun (rounded, inexact) ⟨same, same'⟩ => ?_
    refine (settleCarry_yields least few (by omega)).bind fun (settled, lead') ⟨less, h⟩ => ?_
    dsimp only at value same less h
    rw [value] at same
    rw [same] at less h
    -- the digits have room in their word with all zeros after them
    have most := (mode.round_bounds x.sign
      (scaled.1 / scaled.2, Remnant.ofRemainder (scaled.1 % scaled.2) scaled.2)).2
    have pad := toNat_pow10 (n := maxDigits - count) (Nat.sub_le ..)
    have room : settled.toNat * 10 ^ (maxDigits - count) ≤ 10 ^ 17 := by
      calc settled.toNat * 10 ^ (maxDigits - count) ≤ 10 ^ count * 10 ^ (maxDigits - count) :=
            Nat.mul_le_mul_right _ (by omega)
        _ = 10 ^ (count + (17 - count)) := (pow_add ..).symm
        _ = 10 ^ 17 := by rw [Nat.add_sub_cancel' few]
    refine (Wide.mul_yields (a := settled) (by rw [pad]; omega)).bind fun product all => .some ?_
    rw [all, pad, ← h, same']
    simp only [decide_eq_true_eq]
    rfl

end Checked

/-! ## Arithmetic in limbs -/

/-- **Arithmetic in limbs is exact.**  On limbs without zeros at the end, each operation is the one
on the numbers that they stand for, and its result has no zeros at the end either.  Bits are counted
just if a word of 32 bits can hold their number, and only a division that counts them needs that.  A
division that makes sure of what it relies on has a result only for a divisor other than zero and a
quotient that fits in a word.  The conversions of packed decimal numbers make all their divisions in
that way, and have the results of exact arithmetic, whatever the first guess at the exponent. -/
theorem arithmetic_in_limbs :
    (∀ word : Wide, Represents (Limbs.ofWide word) word.toNat) ∧
    (∀ n, Yields (Limbs.pow10 n) (Represents · (10 ^ n))) ∧
    (∀ {a : Limbs} {m : ℕ}, Represents a m →
      (∀ factor : Limb, Yields (a.mulSmall factor) (Represents · (m * factor.toNat))) ∧
      (∀ bits, Represents (a.shl bits) (m * 2 ^ bits) ∧ Represents (a.shr bits) (m / 2 ^ bits) ∧
        (a.lowBitsNonzero bits = true ↔ ∃ i < bits, m.testBit i = true)) ∧
      a.bitLength = uint32? (bitLength m) ∧ a.lowWide.toNat = m % 2 ^ 128 ∧
      ∀ {b : Limbs} {n : ℕ}, Represents b n →
        Yields (a.mul b) (Represents · (m * n)) ∧ a.compare b = compare m n ∧
        (0 < n → m / n < 2 ^ 128 → (n ≤ m → bitLength m < 2 ^ 32) →
          Yields (a.divide b) fun r =>
            r.1.toNat = m / n ∧ Represents r.2 (m % n) ∧ m % n < n) ∧
        ((a.divRem b).isSome → 0 < n ∧ m / n < 2 ^ 128)) ∧
    (∀ (env : Environment) (image : Image),
      Checked.decode env image = some (decode env image)) ∧
    ∀ (guess : BitVec 32) (mode : RoundingMode) (k : BitVec 8) (x : Extended),
      Checked.encodeFrom guess.toInt mode k.toInt x =
        some (encodeFrom guess.toInt mode k.toInt x) := by
  refine ⟨Limbs.represents_ofWide, Limbs.pow10_yields, fun {a m} ha => ?_, Checked.decode_eq,
    fun guess mode k x => ?_⟩
  · refine ⟨Limbs.mulSmall_yields ha, fun bits => ?_, ha.bitLength_eq, ?_, fun {b n} hb => ?_⟩
    · refine ⟨Limbs.represents_shl ha bits, Limbs.represents_shr ha bits, ?_⟩
      rw [Limbs.lowBitsNonzero_iff_testBit, ha.value_eq]
    · rw [Limbs.toNat_lowWide, ha.value_eq]
    · refine ⟨Limbs.mul_yields ha hb, ha.compare_eq hb, fun positive fits counted => ?_,
        Limbs.divRem_relies ha hb⟩
      exact (Limbs.divide_yields ha hb positive counted fits).mono fun r ⟨quotient, rest⟩ =>
        ⟨quotient, rest, Nat.mod_lt m positive⟩
  · have byte := BitVec.two_mul_toInt_lt (x := k)
    have byte' := BitVec.le_two_mul_toInt (x := k)
    have word := BitVec.two_mul_toInt_lt (x := guess)
    have word' := BitVec.le_two_mul_toInt (x := guess)
    exact Checked.encodeFrom_eq (by omega) (by omega) mode (by omega) x

/-- A third of a power of two that just fits in a word, although the numbers differ in length by the
width of the word; and a division that makes sure of what it relies on. -/
theorem third_in_limbs :
    let power : Limbs := [0, 0, 0, 0, 2]
    Represents power (2 ^ 129) ∧ Represents [3] 3 ∧ 2 ^ 129 / 3 < 2 ^ 128 ∧
      Yields (power.divide [3]) (fun r =>
        r.1.toNat = 2 ^ 129 / 3 ∧ Represents r.2 (2 ^ 129 % 3) ∧ 2 ^ 129 % 3 < 3) ∧
      (Limbs.divRem [1000] [3]).isSome ∧ 1000 / 3 < 2 ^ 128 := by
  intro power
  have ha : Represents power (2 ^ 129) := ⟨by decide, by decide⟩
  have ha' : Represents [1000] 1000 := ⟨by decide, by decide⟩
  have hb : Represents [3] 3 := ⟨by decide, by decide⟩
  have fits : 2 ^ 129 / 3 < 2 ^ 128 := by decide
  have division := (arithmetic_in_limbs.2.2.1 ha).2.2.2.2 hb |>.2.2.1 (by decide) fits
    (fun _ => by decide)
  have ends : (Limbs.divRem [1000] [3]).isSome := by decide +kernel
  exact ⟨ha, hb, fits, division, ends,
    ((arithmetic_in_limbs.2.2.1 ha').2.2.2.2 hb |>.2.2.2 ends).2⟩

end Decimal

end M68k
