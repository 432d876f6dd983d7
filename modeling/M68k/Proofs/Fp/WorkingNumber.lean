import M68k.Proofs.Fp.DenotedNumber
import M68k.Proofs.Fp.WorkingWord

/-!
# Numbers in working form

A number in working form stands for an exact one if both compare alike with all multiples of a unit
far below the bits that are kept.  The operands of all formats have their last bits clear, which
leaves room for what the arithmetic shifts out.

* `Alike` — numbers on the same side of all multiples of a unit;
* `Working.StandsFor`, `Working.Holds` — a number in working form in the place of an exact one;
* `ofParts_yields` — bringing the leading one in place.
-/

namespace M68k

open Decimal (stickyQuotient jammed_stickyQuotient or_one_eq)

variable {K : Type*} [Field K] [LinearOrder K] [IsStrictOrderedRing K]

/-! ## Numbers that compare alike -/

/-- Whether two numbers compare alike with all multiples of a power of two. -/
def Alike (i : ℤ) (x y : K) : Prop :=
  ∀ m : ℤ, (x < m * 2 ^ i ↔ y < m * 2 ^ i) ∧ (x = m * 2 ^ i ↔ y = m * 2 ^ i)

namespace Alike

variable {i j : ℤ} {x y z : K}

omit [IsStrictOrderedRing K] in
theorem of_eq (same : x = y) : Alike i x y := by
  subst same
  exact fun m => ⟨Iff.rfl, Iff.rfl⟩

omit [IsStrictOrderedRing K] in
theorem trans (h : Alike i x y) (h' : Alike i y z) : Alike i x z :=
  fun m => ⟨(h m).1.trans (h' m).1, (h m).2.trans (h' m).2⟩

/-- Multiples of a larger unit are multiples of a smaller one. -/
theorem coarser (h : Alike i x y) (order : i ≤ j) : Alike j x y := by
  obtain ⟨d, rfl⟩ := Int.le.dest order
  intro m
  have unit : (m : K) * 2 ^ (i + d) = ((m * 2 ^ d : ℤ) : K) * 2 ^ i := by
    rw [zpow_add₀ two_ne_zero, zpow_natCast]
    push_cast
    ring
  rw [unit]
  exact h _

theorem scale (h : Alike i x y) (j : ℤ) : Alike (i + j) (x * 2 ^ j) (y * 2 ^ j) := by
  intro m
  have unit : (0 : K) < 2 ^ j := zpow_pos two_pos j
  rw [zpow_add₀ two_ne_zero, ← mul_assoc, mul_lt_mul_iff_left₀ unit, mul_lt_mul_iff_left₀ unit,
    mul_left_inj' unit.ne', mul_left_inj' unit.ne']
  exact h m

theorem add_multiple (h : Alike i x y) (k : ℤ) : Alike i (k * 2 ^ i + x) (k * 2 ^ i + y) := by
  intro m
  have moved (z : K) : (k * 2 ^ i + z < m * 2 ^ i ↔ z < (m - k : ℤ) * 2 ^ i) ∧
      (k * 2 ^ i + z = m * 2 ^ i ↔ z = (m - k : ℤ) * 2 ^ i) := by
    push_cast
    rw [sub_mul, lt_sub_iff_add_lt', eq_sub_iff_add_eq']
    exact ⟨Iff.rfl, Iff.rfl⟩
  rw [(moved x).1, (moved x).2, (moved y).1, (moved y).2]
  exact h _

theorem sub_from_multiple (h : Alike i x y) (k : ℤ) : Alike i (k * 2 ^ i - x) (k * 2 ^ i - y) := by
  intro m
  have moved (z : K) : (k * 2 ^ i - z < m * 2 ^ i ↔
        ¬ (z < (k - m : ℤ) * 2 ^ i ∨ z = (k - m : ℤ) * 2 ^ i)) ∧
      (k * 2 ^ i - z = m * 2 ^ i ↔ z = (k - m : ℤ) * 2 ^ i) := by
    push_cast
    rw [sub_mul, ← le_iff_lt_or_eq, not_le, sub_lt_comm, eq_comm (a := z), sub_eq_iff_eq_add,
      sub_eq_iff_eq_add, add_comm]
    exact ⟨Iff.rfl, Iff.rfl⟩
  rw [(moved x).1, (moved x).2, (moved y).1, (moved y).2, (h (k - m)).1, (h (k - m)).2]
  exact ⟨Iff.rfl, Iff.rfl⟩

/-- Numbers between the same two neighbouring integers. -/
theorem of_between {n : ℤ} (hx : (n : K) < x ∧ x < n + 1) (hy : (n : K) < y ∧ y < n + 1) :
    Alike 0 x y := by
  intro m
  rw [zpow_zero, mul_one]
  rcases le_or_gt m n with below | above
  · have below : (m : K) ≤ n := by exact_mod_cast below
    exact ⟨iff_of_false (by linarith) (by linarith), iff_of_false (by linarith) (by linarith)⟩
  · have above : (n : K) + 1 ≤ m := by exact_mod_cast above
    exact ⟨iff_of_true (by linarith) (by linarith), iff_of_false (by linarith) (by linarith)⟩

end Alike

/-- What is jammed compares alike with even numbers. -/
theorem Jammed.alike {n : ℕ} {v : K} (jammed : Jammed n v) : Alike 1 v (n : K) := by
  intro m
  rw [zpow_one, mul_comm]
  exact jammed.compare m

theorem Jammed.le_of_lt {n m : ℕ} {v : K} (jammed : Jammed n v) (small : v < m) : n ≤ m := by
  obtain rfl | ⟨-, close⟩ := jammed
  · have bound : n < m := by exact_mod_cast small
    exact bound.le
  · have bound : (n : K) < m + 1 := by linarith [(abs_lt.mp close).1]
    have bound : n < m + 1 := by exact_mod_cast bound
    omega

/-- In units twice as large at least a number splits like one that compares alike. -/
theorem Alike.splits {i q : ℤ} {x y : K} (h : Alike i x y) (coarse : i < q) {parts : ℕ × Remnant}
    (splits : Splits parts (y / 2 ^ q)) : Splits parts (x / 2 ^ q) := by
  have unit : (0 : K) < 2 ^ q := zpow_pos two_pos q
  refine splits.congr fun m => ?_
  have half : (m : K) / 2 * 2 ^ q = m * 2 ^ (q - 1) := by
    rw [zpow_sub_one₀ two_ne_zero]
    ring
  rw [div_lt_iff₀ unit, div_lt_iff₀ unit, div_eq_iff unit.ne', div_eq_iff unit.ne', half]
  exact h.coarser (by omega) m

/-! ## Normalized numbers -/

namespace Working

variable {w : Working} {v : K}

/-- The leading one is in its place. -/
def Normal (w : Working) : Prop := 2 ^ 126 ≤ w.significand.toNat ∧ w.significand.toNat < 2 ^ 127

variable (K) in
/-- The magnitude of the number. -/
def size (w : Working) : K := w.significand.toNat * 2 ^ (w.exponent - 126)

/-- A normalized number in the place of an exact magnitude. -/
structure StandsFor (w : Working) (v : K) : Prop where
  normal : w.Normal
  range : -2 ^ 18 < w.exponent ∧ w.exponent < 2 ^ 18
  alike : Alike (w.exponent - 119) v (w.size K)

/-- What the operands of all formats have in common: many clear bits at the end, and an exponent of
not more than sixteen bits. -/
structure Operand (w : Working) : Prop where
  normal : w.Normal
  clear : 2 ^ 14 ∣ w.significand.toNat
  range : -2 ^ 15 < w.exponent ∧ w.exponent < 2 ^ 15

theorem Normal.ne_zero (normal : w.Normal) : w.significand ≠ 0 := by
  intro zero
  have low := normal.1
  rw [zero] at low
  exact absurd low (by decide)

theorem Normal.size_bounds (normal : w.Normal) :
    2 ^ w.exponent ≤ w.size K ∧ w.size K < 2 ^ (w.exponent + 1) := by
  have two : (2 : K) ≠ 0 := two_ne_zero
  have unit : (0 : K) < 2 ^ (w.exponent - 126) := zpow_pos two_pos _
  have low : ((2 ^ 126 : ℕ) : K) ≤ w.significand.toNat := by exact_mod_cast normal.1
  have high : (w.significand.toNat : K) < (2 ^ 127 : ℕ) := by exact_mod_cast normal.2
  have bound (n : ℕ) : ((2 ^ n : ℕ) : K) * 2 ^ (w.exponent - 126) = 2 ^ (w.exponent - 126 + n) := by
    rw [zpow_add₀ two, zpow_natCast, mul_comm]
    push_cast
    rfl
  constructor
  · calc (2 : K) ^ w.exponent = (2 ^ 126 : ℕ) * 2 ^ (w.exponent - 126) := by
          rw [bound]
          congr 1
          ring
      _ ≤ w.size K := mul_le_mul_of_nonneg_right low unit.le
  · calc w.size K < (2 ^ 127 : ℕ) * 2 ^ (w.exponent - 126) :=
          mul_lt_mul_of_pos_right high unit
      _ = 2 ^ (w.exponent + 1) := by
          rw [bound]
          congr 1
          ring

/-- The number has the leading exponent of the one that it stands for. -/
theorem StandsFor.bounds (h : w.StandsFor v) : 2 ^ w.exponent ≤ v ∧ v < 2 ^ (w.exponent + 1) := by
  obtain ⟨low, high⟩ := h.normal.size_bounds (K := K)
  have at_lead := (h.alike.coarser (j := w.exponent) (by omega) 1).1
  have above := (h.alike.coarser (j := w.exponent + 1) (by omega) 1).1
  rw [Int.cast_one, one_mul] at at_lead above
  exact ⟨not_lt.mp (mt at_lead.mp low.not_gt), above.mpr high⟩

theorem StandsFor.pos (h : w.StandsFor v) : 0 < v := (zpow_pos two_pos _).trans_le h.bounds.1

omit [IsStrictOrderedRing K] in
theorem Operand.standsFor (h : w.Operand) : w.StandsFor (w.size K) :=
  ⟨h.normal, ⟨by linarith [h.range.1], by linarith [h.range.2]⟩, .of_eq rfl⟩

/-- A number in working form in the place of an exact one with its sign; a zero has the sign
`zeroSign`. -/
structure Holds (zeroSign : Bool) (w : Working) (x : K) : Prop where
  zero : x = 0 → w = Working.zero zeroSign
  nonzero : x ≠ 0 → w.sign = decide (x < 0) ∧ w.StandsFor |x|

theorem StandsFor.holds (h : w.StandsFor v) {sign : Bool} (signed : w.sign = sign)
    (zeroSign : Bool) : Holds zeroSign w (withSign sign v) where
  zero zero := absurd ((withSign_eq_zero_iff sign).mp zero) h.pos.ne'
  nonzero _ := by
    rw [Fp.decide_withSign_neg sign h.pos, abs_withSign, abs_of_pos h.pos]
    exact ⟨signed, h⟩

omit [IsStrictOrderedRing K] in
theorem holds_zero (zeroSign : Bool) : Holds zeroSign (Working.zero zeroSign) (0 : K) :=
  ⟨fun _ => rfl, fun nonzero => absurd rfl nonzero⟩

/-! ## Bringing the leading one in place -/

theorem stickyQuotient_two_bounds {n : ℕ} (low : 2 ^ 127 ≤ n) (high : n < 2 ^ 128) :
    2 ^ 126 ≤ stickyQuotient n 2 ∧ stickyQuotient n 2 < 2 ^ 127 := by
  have half : n / 2 < 2 ^ 127 := by omega
  unfold stickyQuotient
  split_ifs
  · rw [Nat.or_zero]
    omega
  · rw [or_one_eq]
    omega

/-- Where there is room above the leading one, the number stays what it is. -/
theorem ofParts_yields_of_lt {sign : Bool} {exponent : ℤ} {significand : Wide}
    (positive : 0 < significand.toNat) (room : significand.toNat < 2 ^ 127)
    (range : -2 ^ 17 < exponent ∧ exponent < 2 ^ 17) :
    Yields (ofParts sign exponent significand) fun w => w.sign = sign ∧ w.Normal ∧
      ∃ s : ℕ, s ≤ 126 ∧ w.exponent = exponent - s ∧
        w.significand.toNat = significand.toNat * 2 ^ s := by
  have nonzero : significand ≠ 0 := fun zero => by simp [zero] at positive
  unfold ofParts
  rw [if_neg nonzero]
  refine (Wide.normalize_yields positive room).bind fun moved values => ?_
  obtain ⟨s, short, adjust, value, low, high⟩ := values
  refine .step (int32?_eq (by omega) (by omega)) (.some ⟨rfl, ⟨low, high⟩, s, short, ?_, value⟩)
  show exponent + moved.2 = exponent - s
  omega

theorem size_of_moved {exponent : ℤ} {n s : ℕ} (moved : w.exponent = exponent - s)
    (value : w.significand.toNat = n * 2 ^ s) : w.size K = n * 2 ^ (exponent - 126) := by
  rw [size, moved, value, show exponent - 126 = exponent - s - 126 + s by ring,
    zpow_add₀ two_ne_zero, zpow_natCast]
  push_cast
  ring

/-- A significand stands for a number if it is that number, or is near enough and long enough not to
be moved far. -/
theorem ofParts_yields {sign : Bool} {exponent : ℤ} {significand : Wide} {v : ℚ}
    (positive : 0 < significand.toNat) (range : -2 ^ 17 < exponent ∧ exponent < 2 ^ 17)
    (near : v = significand.toNat * 2 ^ (exponent - 126) ∨ 2 ^ 121 ≤ significand.toNat ∧
      Alike (exponent - 125) v (significand.toNat * 2 ^ (exponent - 126))) :
    Yields (ofParts sign exponent significand) fun w => w.sign = sign ∧ w.StandsFor v := by
  have alike : Alike (exponent - 125) v (significand.toNat * 2 ^ (exponent - 126)) :=
    near.elim .of_eq And.right
  rcases Nat.lt_or_ge significand.toNat (2 ^ 127) with room | carry
  · refine (ofParts_yields_of_lt positive room range).mono fun w parts => ?_
    obtain ⟨signed, normal, s, short, moved, value⟩ := parts
    refine ⟨signed, normal, by omega, ?_⟩
    rw [size_of_moved moved value]
    rcases near with exact | ⟨long, -⟩
    · exact .of_eq exact
    · -- a long significand is moved by a few bits only
      have few : s ≤ 6 := by
        by_contra many
        have shifted : 2 ^ 121 * 2 ^ 7 ≤ significand.toNat * 2 ^ s :=
          Nat.mul_le_mul long (Nat.pow_le_pow_right two_pos (by omega))
        have := normal.2
        omega
      exact alike.coarser (by omega)
  · have nonzero : significand ≠ 0 := fun zero => by simp [zero] at positive
    obtain ⟨low, high⟩ := stickyQuotient_two_bounds carry significand.isLt
    have halved := (jammed_stickyQuotient significand.toNat two_pos).alike.scale (exponent - 125)
    have same : (significand.toNat : ℚ) / (2 : ℕ) * 2 ^ (exponent - 125) =
        significand.toNat * 2 ^ (exponent - 126) := by
      rw [show exponent - 125 = exponent - 126 + 1 by ring, zpow_add_one₀ two_ne_zero]
      push_cast
      ring
    rw [same] at halved
    unfold ofParts
    rw [if_neg nonzero]
    refine (Wide.normalize_yields_of_carry carry).bind fun moved values => ?_
    obtain ⟨adjust, value⟩ := values
    refine .step (int32?_eq (by omega) (by omega)) (.some ?_)
    refine ⟨rfl, ⟨value ▸ low, value ▸ high⟩, ?_, ?_⟩
    · dsimp only
      omega
    · show Alike (exponent + moved.2 - 119) v (moved.1.toNat * 2 ^ (exponent + moved.2 - 126))
      rw [value, adjust, show exponent + 1 - 126 = exponent - 125 by ring]
      exact (alike.coarser (by omega)).trans (halved.coarser (by omega))

end Working

end M68k
