import M68k.Fp.WorkingForm
import M68k.Proofs.Decimal.LeadingBits

/-!
# Steps in machine words

`Yields` says of a computation that it has a result, and what the result is like.  Each step of the
arithmetic in machine words has one under conditions on the numbers in its words, and the result is
that of the arithmetic of natural numbers.

* `mulWide_yields` — the product of two words is exact;
* `shiftRightJam_yields`, `shiftRightJamWide_yields` — a shift that jams is a sticky quotient;
* `roundBits_yields` — rounding bits is rounding the parts of a number;
* `divideFrom_yields`, `rootFrom_yields`, `reduceFrom_yields` — digits one by one.
-/

namespace M68k

open Decimal (stickyQuotient stickyQuotient_bounds)

variable {α β : Type}

/-- A computation has a result, and the result has a property. -/
def Yields (computation : Option α) (property : α → Prop) : Prop :=
  ∃ a, computation = some a ∧ property a

namespace Yields

variable {x : Option α} {f : α → Option β} {P : α → Prop} {Q : β → Prop}

theorem of_eq {a : α} (h : P a) (ends : x = some a) : Yields x P := ⟨a, ends, h⟩

theorem some {a : α} (h : P a) : Yields (Option.some a) P := ⟨a, rfl, h⟩

theorem bind (first : Yields x P) (rest : ∀ a, P a → Yields (f a) Q) : Yields (x >>= f) Q := by
  obtain ⟨a, rfl, h⟩ := first
  exact rest a h

/-- A step whose result is known. -/
theorem step {a : α} (first : x = Option.some a) (rest : Yields (f a) Q) : Yields (x >>= f) Q := by
  rw [first]
  exact rest

theorem mono {P' : α → Prop} (h : Yields x P) (weaker : ∀ a, P a → P' a) : Yields x P' := by
  obtain ⟨a, ends, holds⟩ := h
  exact ⟨a, ends, weaker a holds⟩

theorem eq_some {a : α} (h : Yields x (· = a)) : x = Option.some a := by
  obtain ⟨_, ends, rfl⟩ := h
  exact ends

end Yields

theorem guard_eq {c : Prop} [Decidable c] (h : c) : (guard c : Option Unit) = some () := if_pos h

/-- A computation that starts with a guard ends only where the guard holds. -/
theorem of_guard_bind {c : Prop} [Decidable c] {rest : Unit → Option β}
    (ends : (guard c >>= rest).isSome) : c := by
  by_contra fails
  rw [show guard c = (none : Option Unit) from if_neg fails] at ends
  exact Bool.false_ne_true ends

theorem int32?_eq {n : ℤ} (low : -2 ^ 31 ≤ n) (high : n < 2 ^ 31) : int32? n = some n :=
  if_pos ⟨low, high⟩

theorem uint32?_eq {n : ℤ} {k : ℕ} (h : n = k) (small : k < 2 ^ 32) : uint32? n = some k := by
  subst h
  exact if_pos ⟨by omega, by omega⟩

/-- How a rest that is not zero compares with half a unit. -/
def Remnant.place : Remnant → Ordering
  | .zero | .low => .lt
  | .half => .eq
  | .high => .gt

namespace Wide

theorem toNat_bit (b : Bool) : (bit b).toNat = if b then 1 else 0 := by
  cases b <;> rfl

/-- The sticky bit of what is lost. -/
theorem toNat_bit_ne_zero (a : Wide) : (bit (a ≠ 0)).toNat = if a.toNat = 0 then 0 else 1 := by
  rw [toNat_bit]
  by_cases zero : a = 0
  · simp [zero]
  · have nonzero : a.toNat ≠ 0 := fun h => zero (BitVec.eq_of_toNat_eq h)
    rw [decide_eq_true zero, if_pos rfl, if_neg nonzero]

theorem add_yields {a b : Wide} (room : a.toNat + b.toNat < 2 ^ 128) :
    Yields (add? a b) (·.toNat = a.toNat + b.toNat) :=
  .of_eq (BitVec.toNat_add_of_lt room) (if_pos room)

theorem sub_yields {a b : Wide} (ordered : b.toNat ≤ a.toNat) :
    Yields (sub? a b) (·.toNat = a.toNat - b.toNat) :=
  .of_eq (BitVec.toNat_sub_of_le ordered) (if_pos ordered)

theorem mul_yields {a b : Wide} (room : a.toNat * b.toNat < 2 ^ 128) :
    Yields (mul? a b) (·.toNat = a.toNat * b.toNat) :=
  .of_eq (BitVec.toNat_mul_of_lt room) (if_pos room)

theorem toNat_shl (a : Wide) (n : ℕ) : (a <<< n).toNat = a.toNat * 2 ^ n % 2 ^ 128 := by
  rw [BitVec.toNat_shiftLeft, Nat.shiftLeft_eq]

theorem toNat_shl_of_lt {a : Wide} {n : ℕ} (room : a.toNat * 2 ^ n < 2 ^ 128) :
    (a <<< n).toNat = a.toNat * 2 ^ n := by
  rw [toNat_shl, Nat.mod_eq_of_lt room]

theorem toNat_shr (a : Wide) (n : ℕ) : (a >>> n).toNat = a.toNat / 2 ^ n := by
  rw [BitVec.toNat_ushiftRight, Nat.shiftRight_eq_div_pow]

theorem shl_yields {a : Wide} {n : ℕ} (short : n < 128) (room : a.toNat * 2 ^ n < 2 ^ 128) :
    Yields (shl? a n) (·.toNat = a.toNat * 2 ^ n) :=
  .of_eq (toNat_shl_of_lt room) (if_pos short)

theorem shl?_eq (a : Wide) {n : ℕ} (short : n < 128) : shl? a n = some (a <<< n) := if_pos short

theorem shr_yields (a : Wide) {n : ℕ} (short : n < 128) :
    Yields (shr? a n) (·.toNat = a.toNat / 2 ^ n) :=
  .of_eq (toNat_shr a n) (if_pos short)

/-- A single bit. -/
theorem shl_one_yields {n : ℕ} (short : n < 128) : Yields (shl? 1 n) (·.toNat = 2 ^ n) := by
  have room : (1 : Wide).toNat * 2 ^ n < 2 ^ 128 := by
    rw [show (1 : Wide).toNat = 1 from rfl, Nat.one_mul]
    exact Nat.pow_lt_pow_right one_lt_two short
  exact (shl_yields short room).mono fun c value => value.trans (Nat.one_mul _)

/-- All bits below a position. -/
theorem mask_yields {n : ℕ} (short : n < 128) :
    Yields (do sub? (← shl? 1 n) 1) (·.toNat = 2 ^ n - 1) :=
  (shl_one_yields short).bind fun power value => by
    have positive : 0 < 2 ^ n := Nat.two_pow_pos n
    refine (sub_yields ?_).mono fun c less => ?_
    · rw [value]
      exact positive
    · rw [less, value]
      rfl

/-- Bits of a word above a position and bits below it. -/
theorem or_eq_add {high low n : ℕ} (short : low < 2 ^ n) :
    high * 2 ^ n ||| low = high * 2 ^ n + low := by
  rw [Nat.mul_comm, Nat.two_pow_add_eq_or_of_lt short]

theorem toNat_shl_or {a b : Wide} {n : ℕ} (room : a.toNat * 2 ^ n < 2 ^ 128)
    (short : b.toNat < 2 ^ n) : ((a <<< n) ||| b).toNat = a.toNat * 2 ^ n + b.toNat := by
  rw [BitVec.toNat_or, toNat_shl_of_lt room, or_eq_add short]

/-- What a shift to the left loses is what a shift to the right keeps. -/
theorem shl_mod_eq_zero_iff (a : ℕ) {n : ℕ} (short : n < 128) :
    a * 2 ^ (128 - n) % 2 ^ 128 = 0 ↔ a % 2 ^ n = 0 := by
  have whole : 2 ^ 128 = 2 ^ n * 2 ^ (128 - n) := by
    rw [← pow_add]
    congr 1
    omega
  have positive : 0 < 2 ^ (128 - n) := Nat.two_pow_pos _
  rw [whole, Nat.mul_mod_mul_right, Nat.mul_eq_zero, or_iff_left positive.ne']

/-- A shift that jams is a sticky quotient. -/
theorem shiftRightJam_yields (a : Wide) (n : ℕ) :
    Yields (a.shiftRightJam n) (·.toNat = stickyQuotient a.toNat (2 ^ n)) := by
  unfold shiftRightJam
  by_cases none : n = 0
  · rw [if_pos none, none]
    exact .some (by simp [stickyQuotient, Nat.mod_one])
  by_cases all : 128 ≤ n
  · rw [if_neg none, if_pos all]
    have small : a.toNat < 2 ^ n := a.isLt.trans_le (Nat.pow_le_pow_right two_pos all)
    refine .some ?_
    rw [toNat_bit_ne_zero, stickyQuotient, Nat.div_eq_of_lt small, Nat.mod_eq_of_lt small,
      Nat.zero_or]
  · rw [if_neg none, if_neg all]
    refine (shr_yields a (by omega)).bind fun kept value => ?_
    refine .step (uint32?_eq (k := 128 - n) (by omega) (by omega)) ?_
    refine .step (shl?_eq a (by omega)) (.some ?_)
    rw [BitVec.toNat_or, value, toNat_bit_ne_zero, toNat_shl, stickyQuotient]
    simp only [shl_mod_eq_zero_iff a.toNat (show n < 128 by omega)]

theorem toNat_lowHalf (a : Wide) : a.lowHalf.toNat = a.toNat % 2 ^ 64 := by
  rw [lowHalf, BitVec.toNat_and]
  exact Nat.and_two_pow_sub_one_eq_mod a.toNat 64

/-- **The product of two words is exact.** -/
theorem mulWide_yields (a b : Wide) :
    Yields (mulWide a b) fun p => p.1.toNat * 2 ^ 128 + p.2.toNat = a.toNat * b.toNat := by
  have ha : a.toNat < 2 ^ 128 := a.isLt
  have hb : b.toNat < 2 ^ 128 := b.isLt
  -- four products of halves
  have half {u v : ℕ} (hu : u < 2 ^ 64) (hv : v < 2 ^ 64) : u * v < 2 ^ 128 :=
    (Nat.mul_lt_mul'' hu hv).trans_le (by norm_num)
  have low {u : ℕ} : u % 2 ^ 64 < 2 ^ 64 := Nat.mod_lt _ (by norm_num)
  have high {u : ℕ} (hu : u < 2 ^ 128) : u / 2 ^ 64 < 2 ^ 64 := by
    rw [Nat.div_lt_iff_lt_mul (by norm_num)]
    exact hu
  have expanded : a.toNat * b.toNat =
      a.toNat / 2 ^ 64 * (b.toNat / 2 ^ 64) * 2 ^ 128 +
        (a.toNat % 2 ^ 64 * (b.toNat / 2 ^ 64) + a.toNat / 2 ^ 64 * (b.toNat % 2 ^ 64)) * 2 ^ 64 +
        a.toNat % 2 ^ 64 * (b.toNat % 2 ^ 64) := by
    nth_rewrite 1 [← Nat.div_add_mod a.toNat (2 ^ 64), ← Nat.div_add_mod b.toNat (2 ^ 64)]
    ring
  have total : a.toNat * b.toNat < 2 ^ 256 := (Nat.mul_lt_mul'' ha hb).trans_le (by norm_num)
  unfold mulWide
  refine (mul_yields (by rw [toNat_lowHalf, toNat_lowHalf]; exact half low low)).bind
    fun p00 v00 => ?_
  refine (mul_yields (by rw [toNat_lowHalf, toNat_shr]; exact half low (high hb))).bind
    fun p01 v01 => ?_
  refine (mul_yields (by rw [toNat_lowHalf, toNat_shr]; exact half (high ha) low)).bind
    fun p10 v10 => ?_
  refine (mul_yields (by rw [toNat_shr, toNat_shr]; exact half (high ha) (high hb))).bind
    fun p11 v11 => ?_
  simp only [toNat_lowHalf, toNat_shr] at v00 v01 v10 v11
  rw [← v00, ← v01, ← v10, ← v11] at expanded
  -- the sums by columns leave no word, since the product has two words only
  have h00 := p00.isLt
  refine (add_yields (by rw [toNat_lowHalf, toNat_shr]; omega)).bind fun m₁ w₁ => ?_
  rw [toNat_lowHalf, toNat_shr] at w₁
  refine (add_yields (by rw [toNat_lowHalf]; omega)).bind fun middle w₂ => ?_
  rw [toNat_lowHalf] at w₂
  refine (add_yields (by rw [toNat_shr]; omega)).bind fun h₁ w₃ => ?_
  rw [toNat_shr] at w₃
  refine (add_yields (by rw [toNat_shr]; omega)).bind fun h₂ w₄ => ?_
  rw [toNat_shr] at w₄
  refine (add_yields (by rw [toNat_shr]; omega)).bind fun h₃ w₅ => ?_
  rw [toNat_shr] at w₅
  refine .some ?_
  have lower : (p00.lowHalf ||| (middle <<< 64)).toNat =
      middle.toNat % 2 ^ 64 * 2 ^ 64 + p00.toNat % 2 ^ 64 := by
    rw [BitVec.toNat_or, toNat_lowHalf, toNat_shl, Nat.or_comm,
      show 2 ^ 128 = 2 ^ 64 * 2 ^ 64 by norm_num, Nat.mul_mod_mul_right, or_eq_add low]
  show h₃.toNat * 2 ^ 128 + (p00.lowHalf ||| (middle <<< 64)).toNat = _
  rw [lower, expanded]
  omega

/-- A shift of two words to one that jams is a sticky quotient. -/
theorem shiftRightJamWide_yields {high low : Wide} {n : ℕ} (positive : 1 ≤ n) (short : n < 128)
    (fits : high.toNat < 2 ^ n) :
    Yields (shiftRightJamWide high low n)
      (·.toNat = stickyQuotient (high.toNat * 2 ^ 128 + low.toNat) (2 ^ n)) := by
  have whole : 2 ^ 128 = 2 ^ (128 - n) * 2 ^ n := by
    rw [← pow_add]
    congr 1
    omega
  have unit : 0 < 2 ^ n := Nat.two_pow_pos n
  have upper : high.toNat * 2 ^ (128 - n) < 2 ^ 128 := by
    rw [whole, Nat.mul_comm]
    exact Nat.mul_lt_mul_of_pos_left fits (Nat.two_pow_pos _)
  have lower : low.toNat / 2 ^ n < 2 ^ (128 - n) := by
    rw [Nat.div_lt_iff_lt_mul unit, ← whole]
    exact low.isLt
  unfold shiftRightJamWide
  refine .step (guard_eq ⟨positive, short⟩) ?_
  refine (shr_yields high short).bind fun gone zero => ?_
  rw [Nat.div_eq_of_lt fits] at zero
  refine .step (guard_eq (BitVec.eq_of_toNat_eq zero)) ?_
  refine .step (uint32?_eq (k := 128 - n) (by omega) (by omega)) ?_
  refine .step (shl?_eq low (by omega)) ?_
  refine (shl_yields (by omega) upper).bind fun moved hmoved => ?_
  refine (shr_yields low short).bind fun kept hkept => .some ?_
  have lost : (high.toNat * 2 ^ 128 + low.toNat) % 2 ^ n = low.toNat % 2 ^ n := by
    rw [whole, ← Nat.mul_assoc, Nat.mul_add_mod_self_right]
  have quotient : (high.toNat * 2 ^ 128 + low.toNat) / 2 ^ n =
      high.toNat * 2 ^ (128 - n) + low.toNat / 2 ^ n := by
    rw [whole, ← Nat.mul_assoc, Nat.add_comm, Nat.add_mul_div_right _ _ unit, Nat.add_comm]
  rw [BitVec.toNat_or, BitVec.toNat_or, hmoved, hkept, or_eq_add lower, toNat_bit_ne_zero,
    toNat_shl, stickyQuotient, quotient, lost]
  simp only [shl_mod_eq_zero_iff low.toNat short]

/-! ## Normalizing -/

theorem leadingZeros_of_pos {a : Wide} (positive : 0 < a.toNat) :
    a.leadingZeros = 127 - a.toNat.log2 :=
  if_neg fun zero => by simp [zero] at positive

/-- Where there is room above the leading one, nothing is lost. -/
theorem normalize_yields {a : Wide} (positive : 0 < a.toNat) (room : a.toNat < 2 ^ 127) :
    Yields a.normalize fun r => ∃ s : ℕ, s ≤ 126 ∧ r.2 = -(s : ℤ) ∧ r.1.toNat = a.toNat * 2 ^ s ∧
      2 ^ 126 ≤ r.1.toNat ∧ r.1.toNat < 2 ^ 127 := by
  have length : a.toNat.log2 < 127 := (Nat.log2_lt positive.ne').mpr room
  have zeros := leadingZeros_of_pos positive
  have low : 2 ^ a.toNat.log2 ≤ a.toNat := Nat.log2_self_le positive.ne'
  have high : a.toNat < 2 ^ (a.toNat.log2 + 1) := Nat.lt_log2_self
  generalize a.toNat.log2 = k at length zeros low high
  have lower : 2 ^ 126 ≤ a.toNat * 2 ^ (126 - k) := by
    calc 2 ^ 126 = 2 ^ k * 2 ^ (126 - k) := by rw [← pow_add]; congr 1; omega
      _ ≤ a.toNat * 2 ^ (126 - k) := Nat.mul_le_mul_right _ low
  have upper : a.toNat * 2 ^ (126 - k) < 2 ^ 127 := by
    calc a.toNat * 2 ^ (126 - k) < 2 ^ (k + 1) * 2 ^ (126 - k) :=
          Nat.mul_lt_mul_of_pos_right high (Nat.two_pow_pos _)
      _ = 2 ^ 127 := by rw [← pow_add]; congr 1; omega
  unfold normalize
  refine .step (guard_eq fun zero => by simp [zero] at positive) ?_
  rw [if_neg (by omega)]
  refine .step (uint32?_eq (k := 126 - k) (by omega) (by omega)) ?_
  refine (shl_yields (by omega) (upper.trans (by norm_num))).bind fun moved value => ?_
  refine .step (int32?_eq (by omega) (by omega)) (.some ?_)
  exact ⟨126 - k, by omega, rfl, value, value ▸ lower, value ▸ upper⟩

/-- A carry is moved down. -/
theorem normalize_yields_of_carry {a : Wide} (carry : 2 ^ 127 ≤ a.toNat) :
    Yields a.normalize fun r => r.2 = 1 ∧ r.1.toNat = stickyQuotient a.toNat 2 := by
  have positive : 0 < a.toNat := (Nat.two_pow_pos 127).trans_le carry
  have length : 127 ≤ a.toNat.log2 := (Nat.le_log2 positive.ne').mpr carry
  unfold normalize
  refine .step (guard_eq fun zero => by simp [zero] at positive) ?_
  rw [leadingZeros_of_pos positive, if_pos (by omega)]
  exact (shiftRightJam_yields a 1).bind fun moved value => .some ⟨rfl, value⟩

/-! ## Rounding -/

/-- The last bit of a word. -/
theorem and_one_eq_one_iff (a : Wide) : a &&& 1 = 1 ↔ a.toNat % 2 = 1 := by
  rw [← BitVec.toNat_inj, BitVec.toNat_and]
  exact Eq.congr_left (Nat.and_one_is_mod a.toNat)

/-- Rounding what is kept, by the place of what is lost. -/
theorem roundKept_yields (mode : RoundingMode) (sign : Bool) {kept : Wide} {remnant : Remnant}
    {inexact : Bool} {lost : Ordering} (hinexact : inexact = true ↔ remnant ≠ .zero)
    (hlost : remnant ≠ .zero → lost = remnant.place) (room : kept.toNat + 1 < 2 ^ 128) :
    Yields (roundKept mode sign kept inexact lost) fun r =>
      r.1.toNat = mode.round sign (kept.toNat, remnant) ∧ r.2 = decide (remnant ≠ .zero) := by
  unfold roundKept
  by_cases exact : remnant = .zero
  · rw [if_neg (by simp [hinexact, exact])]
    exact .some ⟨by simp [RoundingMode.round, exact], by simp [exact]⟩
  · rw [if_pos (hinexact.mpr exact)]
    have away : roundsAway mode sign kept lost = mode.roundsUp sign kept.toNat remnant := by
      rw [hlost exact]
      have last := and_one_eq_one_iff kept
      cases remnant with
      | zero => exact absurd rfl exact
      | half =>
        cases mode <;>
          simp [roundsAway, Remnant.place, RoundingMode.roundsUp, RoundingMode.awayFromZero]
        exact last
      | _ =>
        cases mode <;>
          simp [roundsAway, Remnant.place, RoundingMode.roundsUp, RoundingMode.awayFromZero]
    have one : (bit (roundsAway mode sign kept lost)).toNat ≤ 1 := by
      rw [toNat_bit]
      split <;> omega
    refine (add_yields (by omega)).bind fun rounded value => .some ⟨?_, by simp [exact]⟩
    rw [value, away, toNat_bit, RoundingMode.round]
    dsimp only
    split <;> omega

/-- The place of a rest in a unit of two halves. -/
theorem compare_half {rest half : ℕ} (some : Remnant.ofRemainder rest (2 * half) ≠ .zero) :
    compare rest half = (Remnant.ofRemainder rest (2 * half)).place := by
  have nonzero : rest ≠ 0 := fun zero => some ((Remnant.ofRemainder_eq_zero_iff _ _).mpr zero)
  rw [Remnant.ofRemainder, if_neg nonzero]
  rcases lt_trichotomy rest half with less | equal | greater
  · rw [if_pos (by omega), compare_lt_iff_lt.mpr less]
    rfl
  · rw [if_neg (by omega), if_pos (by omega), compare_eq_iff_eq.mpr equal]
    rfl
  · rw [if_neg (by omega), if_neg (by omega), compare_gt_iff_gt.mpr greater]
    rfl

/-- **Rounding bits is rounding the parts of a number.** -/
theorem roundBits_yields (mode : RoundingMode) (sign : Bool) (a : Wide) (shift : ℕ) :
    let remnant := Remnant.ofRemainder (a.toNat % 2 ^ shift) (2 ^ shift)
    Yields (roundBits mode sign a shift) fun r =>
      r.1.toNat = mode.round sign (a.toNat / 2 ^ shift, remnant) ∧
        r.2 = decide (remnant ≠ .zero) := by
  intro remnant
  have exact_iff : remnant = .zero ↔ a.toNat % 2 ^ shift = 0 :=
    Remnant.ofRemainder_eq_zero_iff _ _
  have place {rest : ℕ} (half : ℕ) (unit : 2 ^ shift = 2 * half) (same : a.toNat % 2 ^ shift = rest)
      (some : remnant ≠ .zero) : compare rest half = remnant.place := by
    have unfolded : remnant = Remnant.ofRemainder rest (2 * half) := by rw [← unit, ← same]
    rw [unfolded] at some ⊢
    exact compare_half some
  unfold roundBits
  by_cases none : shift = 0
  · have exact : remnant = .zero := exact_iff.mpr (by rw [none, pow_zero, Nat.mod_one])
    rw [if_pos none]
    exact .some ⟨by simp [RoundingMode.round, exact, none], by simp [exact]⟩
  by_cases all : 128 ≤ shift
  · have small : a.toNat < 2 ^ shift := a.isLt.trans_le (Nat.pow_le_pow_right two_pos all)
    have rest : a.toNat % 2 ^ shift = a.toNat := Nat.mod_eq_of_lt small
    rw [if_neg none, if_pos all, Nat.div_eq_of_lt small]
    have room : (0 : Wide).toNat + 1 < 2 ^ 128 := by decide
    refine roundKept_yields mode sign ?_ (fun some => ?_) room
    · rw [decide_eq_true_iff, ne_eq, ne_eq, exact_iff, rest, ← BitVec.toNat_inj]
      rfl
    · by_cases just : shift = 128
      · rw [if_pos just]
        exact place (2 ^ 127) (by rw [just]; norm_num) rest some
      · rw [if_neg just, ← place (2 ^ (shift - 1)) _ rest some]
        · symm
          rw [compare_lt_iff_lt]
          exact a.isLt.trans_le (Nat.pow_le_pow_right two_pos (by omega))
        · rw [← pow_succ']
          congr 1
          omega
  · have short : shift < 128 := by omega
    have unit : 2 ^ shift = 2 * 2 ^ (shift - 1) := by
      rw [← pow_succ']
      congr 1
      omega
    rw [if_neg none, if_neg all]
    refine (shl_one_yields short).bind fun power hpower => ?_
    refine (sub_yields (hpower ▸ Nat.two_pow_pos shift)).bind fun mask hmask => ?_
    refine (shl_one_yields (by omega)).bind fun half hhalf => ?_
    refine (shr_yields a short).bind fun kept hkept => ?_
    have lost : (a &&& mask).toNat = a.toNat % 2 ^ shift := by
      rw [BitVec.toNat_and, hmask, hpower]
      exact Nat.and_two_pow_sub_one_eq_mod a.toNat shift
    have fewer : a.toNat / 2 ^ shift ≤ a.toNat / 2 :=
      Nat.div_le_div_left (Nat.le_self_pow none 2) two_pos
    have bound := a.isLt
    rw [← hkept]
    refine roundKept_yields mode sign ?_ (fun some => ?_) (by omega)
    · rw [decide_eq_true_iff, ne_eq, ne_eq, exact_iff, ← lost, ← BitVec.toNat_inj]
      rfl
    · rw [lost, hhalf]
      exact place _ unit rfl some

/-! ## Digits one by one -/

/-- Long division: the quotient counts units of twice the divisor, and the last rest is less than
one. -/
theorem divideFrom_yields {divisor : Wide} (nonzero : 0 < divisor.toNat)
    (room : divisor.toNat < 2 ^ 127) (count : ℕ) (rest quotient : Wide)
    (small : rest.toNat < 2 * divisor.toNat) (short : count < 128)
    (clear : 2 ^ count ∣ quotient.toNat) :
    Yields (divideFrom divisor count rest quotient) fun r =>
      r.1.toNat = quotient.toNat + rest.toNat * 2 ^ count / (2 * divisor.toNat) ∧
        r.2.toNat = rest.toNat * 2 ^ count % (2 * divisor.toNat) := by
  induction count generalizing rest quotient with
  | zero =>
    rw [pow_zero, Nat.mul_one, Nat.div_eq_of_lt small, Nat.mod_eq_of_lt small]
    exact .some ⟨rfl, rfl⟩
  | succ position ih =>
    unfold divideFrom
    have double : 0 < 2 * divisor.toNat := by omega
    by_cases fits : divisor ≤ rest
    · have ordered : divisor.toNat ≤ rest.toNat := fits
      rw [if_pos fits]
      refine (sub_yields ordered).bind fun less hless => ?_
      refine (shl_one_yields (by omega)).bind fun one hone => ?_
      have moved : (less <<< 1).toNat = 2 * (rest.toNat - divisor.toNat) := by
        rw [toNat_shl_of_lt (by omega)]
        omega
      obtain ⟨k, hk⟩ := clear
      have joined : (quotient ||| one).toNat = quotient.toNat + 2 ^ position := by
        have below : 2 ^ position < 2 ^ (position + 1) := Nat.pow_lt_pow_succ one_lt_two
        rw [BitVec.toNat_or, hone, hk, Nat.mul_comm, or_eq_add below]
      refine (ih _ _ (by omega) (by omega) ?_).mono fun r values => ?_
      · rw [joined, hk, pow_succ, Nat.mul_assoc]
        exact ⟨2 * k + 1, by ring⟩
      · obtain ⟨hquotient, hrest⟩ := values
        have whole : rest.toNat * 2 ^ (position + 1) =
            2 * (rest.toNat - divisor.toNat) * 2 ^ position +
              2 ^ position * (2 * divisor.toNat) := by
          obtain ⟨d, hd⟩ : ∃ d, rest.toNat = divisor.toNat + d :=
            ⟨_, (Nat.add_sub_of_le ordered).symm⟩
          rw [hd, Nat.add_sub_cancel_left]
          ring
        rw [hquotient, hrest, joined, moved, whole, Nat.add_mul_div_right _ _ double,
          Nat.add_mul_mod_self_right]
        exact ⟨by omega, rfl⟩
    · have ordered : rest.toNat < divisor.toNat := not_le.mp fits
      rw [if_neg fits]
      have moved : (rest <<< 1).toNat = 2 * rest.toNat := by
        rw [toNat_shl_of_lt (by omega)]
        omega
      have next := ih (rest <<< 1) quotient (by omega) (by omega)
        ((pow_dvd_pow 2 (Nat.le_succ position)).trans clear)
      rw [moved] at next
      rw [show rest.toNat * 2 ^ (position + 1) = 2 * rest.toNat * 2 ^ position by ring]
      exact next

/-- Two bits of two words. -/
theorem bitPairWide_yields (high low : Wide) {position : ℕ} (short : position < 128) :
    Yields (bitPairWide high low (position * 2))
      (·.toNat = (high.toNat * 2 ^ 128 + low.toNat) / 4 ^ position % 4) := by
  have last (c : Wide) : (c &&& 3).toNat = c.toNat % 4 := by
    rw [BitVec.toNat_and]
    exact Nat.and_two_pow_sub_one_eq_mod c.toNat 2
  have unit : 4 ^ position = 2 ^ (position * 2) := by
    rw [Nat.mul_comm, pow_mul]
    norm_num
  have below := low.isLt
  unfold bitPairWide
  refine .step (guard_eq (by omega)) ?_
  rw [unit]
  by_cases upper : 128 ≤ position * 2
  · rw [if_pos upper]
    refine .step (uint32?_eq (k := position * 2 - 128) (by omega) (by omega)) ?_
    refine (shr_yields high (by omega)).bind fun moved value => .some ?_
    have split : 2 ^ (position * 2) = 2 ^ 128 * 2 ^ (position * 2 - 128) := by
      rw [← pow_add, Nat.add_sub_of_le upper]
    have above : (high.toNat * 2 ^ 128 + low.toNat) / 2 ^ 128 = high.toNat := by omega
    rw [last, value, split, ← Nat.div_div_eq_div_mul, above]
  · rw [if_neg upper]
    refine (shr_yields low (by omega)).bind fun moved value => .some ?_
    have split : 2 ^ 128 = 4 * 2 ^ (126 - position * 2) * 2 ^ (position * 2) := by
      rw [show (4 : ℕ) = 2 ^ 2 by norm_num, ← pow_add, ← pow_add]
      congr 1
      omega
    rw [last, value, split, ← Nat.mul_assoc, Nat.add_comm,
      Nat.add_mul_div_right _ _ (Nat.two_pow_pos _), Nat.mul_left_comm, Nat.add_mul_mod_self_left]

/-- The root digit by digit: square and rest make what has been looked at, and the rest is not more
than twice the root. -/
theorem rootFrom_yields (high low : Wide) (count : ℕ) (rest root : Wide)
    (made : root.toNat * root.toNat + rest.toNat =
      (high.toNat * 2 ^ 128 + low.toNat) / 4 ^ count)
    (small : rest.toNat ≤ 2 * root.toNat) (room : (root.toNat + 1) * 2 ^ count ≤ 2 ^ 120)
    (short : count ≤ 120) :
    Yields (rootFrom high low count rest root) fun r =>
      r.1.toNat * r.1.toNat + r.2.toNat = high.toNat * 2 ^ 128 + low.toNat ∧
        r.2.toNat ≤ 2 * r.1.toNat ∧ r.1.toNat < 2 ^ 120 := by
  induction count generalizing rest root with
  | zero =>
    rw [pow_zero, Nat.div_one] at made
    rw [pow_zero, Nat.mul_one] at room
    exact .some ⟨made, small, room⟩
  | succ position ih =>
    unfold rootFrom
    have positive : 0 < 2 ^ position := Nat.two_pow_pos position
    have bounded : (root.toNat + 1) * 2 ≤ 2 ^ 120 := by
      refine le_trans ?_ room
      rw [pow_succ', ← Nat.mul_assoc]
      exact Nat.le_mul_of_pos_right _ positive
    refine (bitPairWide_yields high low (by omega)).bind fun pair hpair => ?_
    generalize high.toNat * 2 ^ 128 + low.toNat = radicand at made hpair ih ⊢
    have pairLt : pair.toNat < 4 := hpair ▸ Nat.mod_lt _ (by norm_num)
    have looked :
        radicand / 4 ^ position = 4 * (root.toNat * root.toNat + rest.toNat) + pair.toNat := by
      rw [made, hpair, pow_succ, ← Nat.div_div_eq_div_mul]
      omega
    have next : ((rest <<< 2) ||| pair).toNat = 4 * rest.toNat + pair.toNat := by
      rw [toNat_shl_or (by omega) (by omega)]
      omega
    have one : (1 : Wide).toNat = 1 := rfl
    have trial : ((root <<< 2) ||| 1).toNat = 4 * root.toNat + 1 := by
      rw [toNat_shl_or (by omega) (by omega)]
      omega
    have doubled : (root <<< 1).toNat = 2 * root.toNat := by
      rw [toNat_shl_of_lt (by omega)]
      omega
    have raised : ((root <<< 1) ||| 1).toNat = 2 * root.toNat + 1 := by
      rw [toNat_shl_or (by omega) (by omega)]
      omega
    dsimp only
    by_cases fits : (root <<< 2) ||| (1 : Wide) ≤ (rest <<< 2) ||| pair
    · have ordered : 4 * root.toNat + 1 ≤ 4 * rest.toNat + pair.toNat := by
        rw [← next, ← trial]
        exact fits
      rw [if_pos fits]
      refine (sub_yields fits).bind fun less hless => ?_
      rw [next, trial] at hless
      refine ih _ _ ?_ (by omega) ?_ (by omega)
      · rw [looked, raised, hless]
        have square : (2 * root.toNat + 1) * (2 * root.toNat + 1) =
            4 * (root.toNat * root.toNat) + 4 * root.toNat + 1 := by ring
        omega
      · rw [raised]
        calc (2 * root.toNat + 1 + 1) * 2 ^ position
            = (root.toNat + 1) * 2 ^ (position + 1) := by ring
          _ ≤ 2 ^ 120 := room
    · have ordered : 4 * rest.toNat + pair.toNat < 4 * root.toNat + 1 := by
        rw [← next, ← trial]
        exact not_le.mp fits
      rw [if_neg fits]
      refine ih _ _ ?_ (by omega) ?_ (by omega)
      · rw [looked, doubled, next]
        have square : 2 * root.toNat * (2 * root.toNat) = 4 * (root.toNat * root.toNat) := by ring
        omega
      · rw [doubled]
        calc (2 * root.toNat + 1) * 2 ^ position ≤ (2 * root.toNat + 1 + 1) * 2 ^ position :=
              Nat.mul_le_mul_right _ (Nat.le_succ _)
          _ = (root.toNat + 1) * 2 ^ (position + 1) := by ring
          _ ≤ 2 ^ 120 := room

/-- One bit of an integer quotient. -/
theorem reduceOnce_yields {divisor rest : Wide} (small : rest.toNat < 2 * divisor.toNat)
    (quotient : BitVec 64) :
    Yields (reduceOnce divisor rest quotient) fun r =>
      r.1.toNat = rest.toNat % divisor.toNat ∧
        r.2.toNat = (quotient.toNat * 2 + rest.toNat / divisor.toNat) % 2 ^ 64 := by
  unfold reduceOnce
  have moved : (quotient <<< 1).toNat = quotient.toNat * 2 % 2 ^ 64 := by
    rw [BitVec.toNat_shiftLeft, Nat.shiftLeft_eq]
  by_cases fits : divisor ≤ rest
  · have ordered : divisor.toNat ≤ rest.toNat := fits
    have less : rest.toNat - divisor.toNat < divisor.toNat := by omega
    have one : rest.toNat / divisor.toNat = 1 :=
      Nat.div_eq_of_lt_le (by omega) (by omega)
    have joined : ((quotient <<< 1) ||| 1).toNat = quotient.toNat * 2 % 2 ^ 64 + 1 := by
      rw [BitVec.toNat_or, moved, show 2 ^ 64 = 2 ^ 63 * 2 by norm_num, Nat.mul_mod_mul_right]
      exact or_eq_add (n := 1) one_lt_two
    rw [if_pos fits]
    refine (sub_yields ordered).bind fun rest' value => .some ⟨?_, ?_⟩
    · rw [value, Nat.mod_eq_sub_mod ordered, Nat.mod_eq_of_lt less]
    · rw [joined, one]
      omega
  · have ordered : rest.toNat < divisor.toNat := not_le.mp fits
    rw [if_neg fits, Nat.mod_eq_of_lt ordered, Nat.div_eq_of_lt ordered]
    exact .some ⟨rfl, moved⟩

/-- The rest of a division to an integer, and the last bits of the quotient. -/
theorem reduceFrom_yields {divisor : Wide} (room : divisor.toNat < 2 ^ 127) (more : ℕ)
    {rest : Wide} (small : rest.toNat < 2 * divisor.toNat) (quotient : BitVec 64) :
    Yields (reduceFrom divisor more rest quotient) fun r =>
      r.1.toNat = rest.toNat * 2 ^ more % divisor.toNat ∧
        r.2.toNat =
          (quotient.toNat * 2 ^ (more + 1) + rest.toNat * 2 ^ more / divisor.toNat) % 2 ^ 64 := by
  have nonzero : 0 < divisor.toNat := by omega
  induction more generalizing rest quotient with
  | zero =>
    simpa only [reduceFrom, pow_zero, Nat.mul_one, zero_add, pow_one] using
      reduceOnce_yields small quotient
  | succ more ih =>
    unfold reduceFrom
    refine (reduceOnce_yields small quotient).bind fun once values => ?_
    obtain ⟨hrest, hquotient⟩ := values
    have less : once.1.toNat < divisor.toNat := hrest ▸ Nat.mod_lt _ nonzero
    have doubled : (once.1 <<< 1).toNat = once.1.toNat * 2 := toNat_shl_of_lt (by omega)
    refine (ih (by omega) once.2).mono fun r values => ?_
    obtain ⟨rest', quotient'⟩ := values
    have whole : rest.toNat * 2 ^ (more + 1) =
        once.1.toNat * 2 * 2 ^ more +
          rest.toNat / divisor.toNat * 2 ^ (more + 1) * divisor.toNat := by
      nth_rewrite 1 [← Nat.div_add_mod rest.toNat divisor.toNat]
      rw [hrest]
      ring
    refine ⟨?_, ?_⟩
    · rw [rest', doubled, whole, Nat.add_mul_mod_self_right]
    · rw [quotient', doubled, whole, Nat.add_mul_div_right _ _ nonzero, hquotient]
      have expanded : (quotient.toNat * 2 + rest.toNat / divisor.toNat) * 2 ^ (more + 1) =
          quotient.toNat * 2 ^ (more + 1 + 1) +
            rest.toNat / divisor.toNat * 2 ^ (more + 1) := by ring
      have kept : (quotient.toNat * 2 + rest.toNat / divisor.toNat) % 2 ^ 64 * 2 ^ (more + 1) ≡
          quotient.toNat * 2 ^ (more + 1 + 1) + rest.toNat / divisor.toNat * 2 ^ (more + 1)
            [MOD 2 ^ 64] :=
        expanded ▸ (Nat.mod_modEq _ _).mul_right _
      rw [Nat.add_comm (once.1.toNat * 2 * 2 ^ more / divisor.toNat), ← Nat.add_assoc]
      exact kept.add_right _

end Wide

end M68k
