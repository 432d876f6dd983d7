import M68k.Proofs.Fp.WorkingNumber

/-!
# Arithmetic in working form

The kernels of the operations on numbers in working form.  None of their steps leaves its word, and
their results stand for the exact ones: with as many bits as there are, what is shifted out by the
alignment of a summand or left over by a division or root is far below the bits that are kept, and a
difference that loses many bits by cancellation is exact.

* `add_yields`, `mul_yields`, `div_yields`, `sqrt_yields` — results stand for the exact ones;
* `remainder_yields` — a remainder is exact, and its quotient the one asked for.
-/

namespace M68k

open Decimal (stickyQuotient stickyQuotient_bounds jammed_stickyQuotient)

namespace Working

variable {a b : Working}

/-! ## Sums -/

/-- The significand of the smaller summand in units of the other one. -/
theorem aligned_yields (small : a.Operand) (distance : ℕ) :
    Yields (a.significand.shiftRightJam (min distance 200)) fun aligned =>
      Jammed aligned.toNat ((a.significand.toNat : ℚ) / 2 ^ distance) ∧
        (distance ≤ 14 → ((aligned.toNat : ℕ) : ℚ) = a.significand.toNat / 2 ^ distance) := by
  have unit : (0 : ℚ) < 2 ^ distance := pow_pos two_pos _
  refine (Wide.shiftRightJam_yields _ _).mono fun aligned value => ⟨?_, fun near => ?_⟩
  · rcases le_or_gt distance 200 with near | far
    · have jammed := jammed_stickyQuotient a.significand.toNat (Nat.two_pow_pos distance)
      rw [value, min_eq_left near]
      push_cast at jammed
      exact jammed
    · -- nothing but the sticky bit is left of either
      have low : 0 < a.significand.toNat := (Nat.two_pow_pos 126).trans_le small.normal.1
      have below : a.significand.toNat < 2 ^ 200 := small.normal.2.trans (by norm_num)
      have sticky : aligned.toNat = 1 := by
        rw [value, min_eq_right far.le, stickyQuotient, Nat.div_eq_of_lt below,
          Nat.mod_eq_of_lt below, if_neg low.ne', Nat.zero_or]
      have positive : (0 : ℚ) < a.significand.toNat := by exact_mod_cast low
      have less : (a.significand.toNat : ℚ) < 2 ^ distance := by
        have : a.significand.toNat < 2 ^ distance :=
          below.trans (Nat.pow_lt_pow_right one_lt_two far)
        exact_mod_cast this
      have quotient : (a.significand.toNat : ℚ) / 2 ^ distance < 1 := (div_lt_one unit).mpr less
      have some : (0 : ℚ) < a.significand.toNat / 2 ^ distance := div_pos positive unit
      rw [sticky]
      refine .inr ⟨rfl, abs_lt.mpr ⟨?_, ?_⟩⟩ <;> push_cast <;> linarith
  · have divides : 2 ^ distance ∣ a.significand.toNat := (pow_dvd_pow 2 near).trans small.clear
    rw [value, min_eq_left (by omega), stickyQuotient, if_pos (Nat.mod_eq_zero_of_dvd divides),
      Nat.or_zero, Nat.cast_div divides (by exact_mod_cast unit.ne')]
    push_cast
    rfl

/-- It has as many bits less as it is moved down. -/
theorem aligned_le (small : a.Operand) {n m distance : ℕ} (far : n ≤ distance) (short : n ≤ 127)
    (jammed : Jammed m ((a.significand.toNat : ℚ) / 2 ^ distance)) : m ≤ 2 ^ (127 - n) := by
  refine jammed.le_of_lt ?_
  have high : (a.significand.toNat : ℚ) < (2 ^ 127 : ℕ) := by exact_mod_cast small.normal.2
  have whole : (2 : ℚ) ^ 127 = 2 ^ (127 - n) * 2 ^ n := by
    rw [← pow_add, Nat.sub_add_cancel short]
  have power : (2 : ℚ) ^ n ≤ 2 ^ distance := pow_le_pow_right₀ one_le_two far
  have unit : (0 : ℚ) < 2 ^ (127 - n) := pow_pos two_pos _
  rw [div_lt_iff₀ (pow_pos two_pos _)]
  push_cast at high ⊢
  calc (a.significand.toNat : ℚ) < 2 ^ (127 - n) * 2 ^ n := whole ▸ high
    _ ≤ 2 ^ (127 - n) * 2 ^ distance := mul_le_mul_of_nonneg_left power unit.le

section Sum

variable {sign : Bool} {aligned : Wide} {t : ℚ} (ha : a.Operand) (jammed : Jammed aligned.toNat t)
include ha jammed

/-- A summand of the same sign. -/
theorem addAligned_yields (fits : aligned.toNat ≤ 2 ^ 127) :
    Yields (do ofParts sign a.exponent (← a.significand.add? aligned)) fun w =>
      w.sign = sign ∧ w.StandsFor ((a.significand.toNat + t) * 2 ^ (a.exponent - 126)) := by
  obtain ⟨low, high⟩ := ha.normal
  obtain ⟨k, hk⟩ : 2 ∣ a.significand.toNat := (by norm_num : 2 ∣ 2 ^ 14).trans ha.clear
  refine (Wide.add_yields (by omega)).bind fun sum value => ?_
  refine ofParts_yields (by omega) ⟨by linarith [ha.range.1], by linarith [ha.range.2]⟩
    (.inr ⟨by omega, ?_⟩)
  have alike := (jammed.alike.add_multiple k).scale (a.exponent - 126)
  rw [value, hk]
  convert alike using 2 <;> push_cast <;> ring

/-- A smaller summand of the other sign. -/
theorem subAligned_yields (less : aligned.toNat < a.significand.toNat)
    (near : t = aligned.toNat ∨ aligned.toNat ≤ 2 ^ 112) :
    Yields (do ofParts sign a.exponent (← a.significand.sub? aligned)) fun w =>
      w.sign = sign ∧ w.StandsFor ((a.significand.toNat - t) * 2 ^ (a.exponent - 126)) := by
  obtain ⟨low, high⟩ := ha.normal
  obtain ⟨k, hk⟩ : 2 ∣ a.significand.toNat := (by norm_num : 2 ∣ 2 ^ 14).trans ha.clear
  refine (Wide.sub_yields less.le).bind fun difference value => ?_
  refine ofParts_yields (by omega) ⟨by linarith [ha.range.1], by linarith [ha.range.2]⟩ ?_
  rw [value, Nat.cast_sub less.le]
  rcases near with exact | short
  · exact .inl (by rw [exact])
  · have alike := (jammed.alike.sub_from_multiple k).scale (a.exponent - 126)
    refine .inr ⟨by omega, ?_⟩
    rw [hk]
    convert alike using 2 <;> push_cast <;> ring

end Sum

/-- The number with its sign. -/
def signed (w : Working) : ℚ := withSign w.sign (w.size ℚ)

theorem withSign_add_of_eq {s t : Bool} (same : s = t) (u v : ℚ) :
    withSign s u + withSign t v = withSign s (u + v) := by
  subst same
  cases s with
  | false => rfl
  | true => exact (neg_add u v).symm

theorem withSign_add_of_ne {s t : Bool} (opposite : s ≠ t) (u v : ℚ) :
    withSign s u + withSign t v = withSign s (u - v) := by
  cases s <;> cases t <;> simp at opposite ⊢ <;> ring

/-- The sum of operands in order.  An inexact difference is a long one. -/
theorem addOrdered_yields (mode : RoundingMode) (ha : a.Operand) (hb : b.Operand)
    (ordered : b.exponent ≤ a.exponent) {zeroSign : Bool}
    (exact : a.sign ≠ b.sign → zeroSign = decide (mode = .down)) :
    Yields (addOrdered mode a b) (Holds zeroSign · (a.signed + b.signed)) := by
  obtain ⟨d, hd⟩ := Int.le.dest ordered
  obtain ⟨ha', hb'⟩ := ha.range, hb.range
  unfold addOrdered
  refine .step (int32?_eq (n := a.exponent - b.exponent) (by omega) (by omega)) ?_
  rw [show (a.exponent - b.exponent).natAbs = d by omega]
  refine (aligned_yields hb d).bind fun aligned found => ?_
  obtain ⟨jammed, near⟩ := found
  have bound {n : ℕ} (far : n ≤ d) (short : n ≤ 127) := aligned_le hb far short jammed
  have sizeB : b.size ℚ = b.significand.toNat / 2 ^ d * 2 ^ (a.exponent - 126) := by
    rw [← hd, size, show b.exponent + d - 126 = b.exponent - 126 + d by ring,
      zpow_add₀ two_ne_zero, zpow_natCast]
    field_simp
  generalize (b.significand.toNat : ℚ) / 2 ^ d = t at jammed near sizeB
  by_cases same : a.sign = b.sign
  · rw [if_pos same, signed, signed, withSign_add_of_eq same, sizeB, size, ← add_mul]
    exact (addAligned_yields ha jammed (bound (Nat.zero_le d) (by norm_num))).mono
      fun w sum => sum.2.holds sum.1 zeroSign
  rw [if_neg same, signed, signed, withSign_add_of_ne same, sizeB, size, ← sub_mul]
  rcases lt_trichotomy aligned.toNat a.significand.toNat with less | equal | greater
  · rw [compare_gt_iff_gt.mpr less]
    have near : t = aligned.toNat ∨ aligned.toNat ≤ 2 ^ 112 :=
      (Nat.lt_or_ge 14 d).elim (fun far => .inr (bound far (by norm_num)))
        fun close => .inl (near close).symm
    exact (subAligned_yields ha jammed less near).mono
      fun w difference => difference.2.holds difference.1 zeroSign
  · obtain ⟨k, hk⟩ : 2 ∣ a.significand.toNat := (by norm_num : 2 ∣ 2 ^ 14).trans ha.clear
    have whole : t = a.significand.toNat := by
      have even := (jammed.alike k).2
      rw [equal, hk, zpow_one] at even
      rw [hk]
      push_cast at even ⊢
      linarith [even.mpr (mul_comm _ _)]
    rw [compare_eq_iff_eq.mpr equal.symm, whole, sub_self, zero_mul,
      (withSign_eq_zero_iff a.sign).mpr rfl, ← exact same]
    exact .some (holds_zero zeroSign)
  · -- only a summand that is not moved is greater
    have close : d = 0 := by
      by_contra moved
      have := bound (Nat.one_le_iff_ne_zero.mpr moved) (by norm_num)
      have := ha.normal.1
      omega
    have whole : t = aligned.toNat := (near (by omega)).symm
    have turned : withSign a.sign ((a.significand.toNat - t) * (2 : ℚ) ^ (a.exponent - 126)) =
        withSign b.sign ((aligned.toNat - a.significand.toNat) * (2 : ℚ) ^ (a.exponent - 126)) := by
      rw [whole, Bool.eq_not_of_ne same]
      cases b.sign <;> simp <;> ring
    rw [compare_lt_iff_lt.mpr greater, turned]
    refine (Wide.sub_yields greater.le).bind fun difference value => ?_
    refine (ofParts_yields (by omega) (by omega) (.inl ?_)).mono
      fun w parts => parts.2.holds parts.1 zeroSign
    rw [value, Nat.cast_sub greater.le]

/-- **The sum of two operands.**  Where they have different signs, a sum of zero is negative in mode
`down` only. -/
theorem add_yields (mode : RoundingMode) (ha : a.Operand) (hb : b.Operand) {zeroSign : Bool}
    (exact : a.sign ≠ b.sign → zeroSign = decide (mode = .down)) :
    Yields (add mode a b) (Holds zeroSign · (a.signed + b.signed)) := by
  unfold add
  rw [if_neg ha.normal.ne_zero, if_neg hb.normal.ne_zero]
  split_ifs with ordered
  · exact addOrdered_yields mode ha hb ordered exact
  · rw [add_comm]
    exact addOrdered_yields mode hb ha (not_le.mp ordered).le fun other => exact other.symm

/-! ## Products and quotients -/

/-- **The product of two operands.** -/
theorem mul_yields (ha : a.Operand) (hb : b.Operand) :
    Yields (mul a b) fun w => w.sign = (a.sign ^^ b.sign) ∧ w.StandsFor (a.size ℚ * b.size ℚ) := by
  obtain ⟨ha', hb'⟩ := ha.range, hb.range
  have low : 2 ^ 126 * 2 ^ 126 ≤ a.significand.toNat * b.significand.toNat :=
    Nat.mul_le_mul ha.normal.1 hb.normal.1
  have high : a.significand.toNat * b.significand.toNat < 2 ^ 127 * 2 ^ 127 :=
    Nat.mul_lt_mul'' ha.normal.2 hb.normal.2
  unfold mul
  refine (Wide.mulWide_yields _ _).bind fun words product => ?_
  have fits : words.1.toNat < 2 ^ 126 := by omega
  refine (Wide.shiftRightJamWide_yields (by norm_num) (by norm_num) fits).bind
    fun significand value => ?_
  rw [product] at value
  have long : 2 ^ 126 ≤ significand.toNat := by
    have := (stickyQuotient_bounds (a.significand.toNat * b.significand.toNat) (2 ^ 126)).1
    omega
  have alike := (jammed_stickyQuotient (a.significand.toNat * b.significand.toNat)
    (Nat.two_pow_pos 126)).alike.scale (a.exponent + b.exponent - 126)
  have exponents : (2 : ℚ) ^ (a.exponent + b.exponent - 126) =
      2 ^ (a.exponent - 126) * 2 ^ (b.exponent - 126) * 2 ^ 126 := by
    rw [← zpow_natCast, ← zpow_add₀ two_ne_zero, ← zpow_add₀ two_ne_zero]
    congr 1
    push_cast
    ring
  refine .step (int32?_eq (by omega) (by omega)) ?_
  refine ofParts_yields (by omega) (by omega) (.inr ⟨by omega, ?_⟩)
  rw [← value] at alike
  convert alike using 1
  · ring
  · rw [exponents, size, size]
    push_cast
    field_simp
    norm_num

/-- A quotient between one and two. -/
theorem divideOrdered_yields {sign : Bool} {exponent : ℤ} {dividend divisor : Wide}
    (room : divisor.toNat < 2 ^ 127) (low : divisor.toNat ≤ dividend.toNat)
    (high : dividend.toNat < 2 * divisor.toNat) (range : -2 ^ 18 < exponent ∧ exponent < 2 ^ 18) :
    Yields (divideOrdered sign exponent dividend divisor) fun w => w.sign = sign ∧
      w.StandsFor ((dividend.toNat : ℚ) / divisor.toNat * 2 ^ exponent) := by
  have nonzero : 0 < divisor.toNat := by omega
  have double : 0 < 2 * divisor.toNat := by omega
  unfold divideOrdered
  refine (Wide.divideFrom_yields nonzero room 127 dividend 0 high (by norm_num)
    (dvd_zero _)).bind fun found values => ?_
  obtain ⟨hquotient, hrest⟩ := values
  rw [show (0 : Wide).toNat = 0 from rfl, Nat.zero_add] at hquotient
  have value : (found.1 ||| Wide.bit (found.2 ≠ 0)).toNat =
      stickyQuotient (dividend.toNat * 2 ^ 127) (2 * divisor.toNat) := by
    rw [BitVec.toNat_or, Wide.toNat_bit_ne_zero, hquotient, hrest, stickyQuotient]
  have least : 2 ^ 126 ≤ dividend.toNat * 2 ^ 127 / (2 * divisor.toNat) := by
    rw [Nat.le_div_iff_mul_le double]
    omega
  have greatest : dividend.toNat * 2 ^ 127 / (2 * divisor.toNat) < 2 ^ 127 := by
    rw [Nat.div_lt_iff_lt_mul double]
    omega
  refine .some ⟨rfl, ⟨?_, ?_⟩, range, ?_⟩
  · exact value ▸ least.trans (stickyQuotient_bounds _ _).1
  · refine value ▸ Nat.or_lt_two_pow greatest ?_
    split_ifs <;> norm_num
  · have alike := (jammed_stickyQuotient (dividend.toNat * 2 ^ 127) double).alike.scale
      (exponent - 126)
    have divided : ((dividend.toNat * 2 ^ 127 : ℕ) : ℚ) / (2 * divisor.toNat : ℕ) *
        2 ^ (exponent - 126) = dividend.toNat / divisor.toNat * 2 ^ exponent := by
      have unit : (divisor.toNat : ℚ) ≠ 0 := by exact_mod_cast nonzero.ne'
      rw [zpow_sub₀ two_ne_zero]
      push_cast
      field_simp
      ring
    rw [divided] at alike
    show Alike (exponent - 119) _ (((found.1 ||| Wide.bit (found.2 ≠ 0)).toNat : ℚ) *
      2 ^ (exponent - 126))
    rw [value]
    exact alike.coarser (by omega)

/-- **The quotient of two operands.** -/
theorem div_yields (ha : a.Operand) (hb : b.Operand) :
    Yields (div a b) fun w => w.sign = (a.sign ^^ b.sign) ∧ w.StandsFor (a.size ℚ / b.size ℚ) := by
  obtain ⟨ha', hb'⟩ := ha.range, hb.range
  obtain ⟨lowA, highA⟩ := ha.normal
  obtain ⟨lowB, highB⟩ := hb.normal
  have quotient : a.size ℚ / b.size ℚ =
      a.significand.toNat / b.significand.toNat * 2 ^ (a.exponent - b.exponent) := by
    rw [size, size, mul_div_mul_comm, ← zpow_sub₀ two_ne_zero]
    congr 2
    ring
  unfold div
  refine .step (int32?_eq (n := a.exponent - b.exponent) (by omega) (by omega)) ?_
  split_ifs with less
  · have ordered : a.significand.toNat < b.significand.toNat := less
    have doubled : (a.significand <<< 1).toNat = a.significand.toNat * 2 :=
      Wide.toNat_shl_of_lt (by omega)
    have halved : a.size ℚ / b.size ℚ = ((a.significand <<< 1).toNat : ℚ) / b.significand.toNat *
        2 ^ (a.exponent - b.exponent - 1) := by
      rw [quotient, doubled, zpow_sub_one₀ two_ne_zero]
      push_cast
      ring
    refine .step (int32?_eq (by omega) (by omega)) ?_
    rw [halved]
    exact divideOrdered_yields highB (by omega) (by omega) (by omega)
  · have ordered : b.significand.toNat ≤ a.significand.toNat := not_lt.mp less
    rw [quotient]
    exact divideOrdered_yields highB ordered (by omega) (by omega)

/-! ## Roots -/

/-- The radicand as two words. -/
theorem radicand_eq (c : Wide) {k : ℕ} (short : k < 128) :
    (c >>> (128 - k)).toNat * 2 ^ 128 + (c <<< k).toNat = c.toNat * 2 ^ k := by
  have whole : 2 ^ 128 = 2 ^ (128 - k) * 2 ^ k := by
    rw [← pow_add, Nat.sub_add_cancel short.le]
  have division := Nat.div_add_mod c.toNat (2 ^ (128 - k))
  rw [Wide.toNat_shr, Wide.toNat_shl, whole, Nat.mul_mod_mul_right]
  nth_rewrite 3 [← division]
  ring

/-- A whole root with a bit for what is left, seven bits below its last one. -/
theorem alike_root {root rest : ℕ} (small : rest ≤ 2 * root) :
    Alike 0 √((root * root + rest : ℕ) : ℝ) (root + (if rest = 0 then 0 else 1) / 2 ^ 7) := by
  have square : (0 : ℝ) ≤ root := Nat.cast_nonneg root
  split_ifs with exact
  · refine .of_eq ?_
    rw [exact, Nat.add_zero, Nat.cast_mul, Real.sqrt_mul_self square]
    norm_num
  · have some : (1 : ℝ) ≤ rest := by exact_mod_cast Nat.one_le_iff_ne_zero.mpr exact
    have few : (rest : ℝ) ≤ 2 * root := by exact_mod_cast small
    refine .of_between (n := root) ⟨?_, ?_⟩ ⟨?_, ?_⟩ <;> push_cast
    · refine Real.lt_sqrt_of_sq_lt ?_
      nlinarith
    · rw [Real.sqrt_lt' (by linarith)]
      nlinarith
    · linarith [show (0 : ℝ) < 1 / 2 ^ 7 by norm_num]
    · linarith [show (1 : ℝ) / 2 ^ 7 < 1 by norm_num]

/-- A root of enough bits is itself long. -/
theorem le_root {root rest : ℕ} (made : 2 ^ 238 ≤ root * root + rest) (small : rest ≤ 2 * root) :
    2 ^ 119 ≤ root := by
  by_contra less
  have next : (root + 1) * (root + 1) ≤ 2 ^ 119 * 2 ^ 119 :=
    Nat.mul_le_mul (not_le.mp less) (not_le.mp less)
  have expanded : (root + 1) * (root + 1) = root * root + 2 * root + 1 := by ring
  omega

/-- The root of a number with an even exponent. -/
theorem sqrt_size {k radicand : ℕ} (hk : 112 + a.exponent % 2 = k)
    (made : radicand = a.significand.toNat * 2 ^ k) :
    √(a.size ℝ) = √(radicand : ℝ) * 2 ^ (a.exponent / 2 - 119) := by
  have unit : (0 : ℝ) < 2 ^ (a.exponent / 2 - 119) := zpow_pos two_pos _
  have scaled : a.size ℝ = (radicand : ℝ) * (2 ^ (a.exponent / 2 - 119)) ^ 2 := by
    have exponents : a.exponent - 126 = k + (a.exponent / 2 - 119 + (a.exponent / 2 - 119)) := by
      omega
    rw [made, size, exponents, zpow_add₀ two_ne_zero, zpow_add₀ two_ne_zero, zpow_natCast]
    push_cast
    ring
  rw [scaled, Real.sqrt_mul (Nat.cast_nonneg _), Real.sqrt_sq unit.le]

/-- **The root of an operand.** -/
theorem sqrt_yields (ha : a.Operand) :
    Yields (sqrt a) fun w => w.sign = false ∧ w.StandsFor √(a.size ℝ) := by
  obtain ⟨low, high⟩ := ha.normal
  have range := ha.range
  obtain ⟨k, hk, bounds⟩ : ∃ k : ℕ, 112 + a.exponent % 2 = k ∧ 112 ≤ k ∧ k ≤ 113 :=
    ⟨(112 + a.exponent % 2).toNat, by omega, by omega, by omega⟩
  have least : 2 ^ 238 ≤ a.significand.toNat * 2 ^ k := by
    calc 2 ^ 238 = 2 ^ 126 * 2 ^ 112 := by norm_num
      _ ≤ a.significand.toNat * 2 ^ k :=
          Nat.mul_le_mul low (Nat.pow_le_pow_right two_pos bounds.1)
  have greatest : a.significand.toNat * 2 ^ k < 4 ^ 120 := by
    calc a.significand.toNat * 2 ^ k < 2 ^ 127 * 2 ^ 113 :=
          Nat.mul_lt_mul_of_lt_of_le high (Nat.pow_le_pow_right two_pos bounds.2) (by norm_num)
      _ = 4 ^ 120 := by norm_num
  unfold sqrt
  refine .step (uint32?_eq hk (by omega)) ?_
  refine .step (uint32?_eq (k := 128 - k) (by omega) (by omega)) ?_
  refine .step (if_pos (by omega)) ?_
  refine .step (Wide.shl?_eq _ (by omega)) ?_
  have radicand := radicand_eq a.significand (k := k) (by omega)
  have start : (0 : Wide).toNat = 0 := rfl
  refine (Wide.rootFrom_yields _ _ 120 0 0 ?_ le_rfl (by rw [start]; norm_num)
    le_rfl).bind fun found values => ?_
  · rw [radicand, Nat.div_eq_of_lt greatest]
    rfl
  obtain ⟨made, small, short⟩ := values
  rw [radicand] at made
  generalize hr : found.1.toNat = r at made small short
  generalize hrest : found.2.toNat = rest at made small
  have long : 2 ^ 119 ≤ r := le_root (by omega) small
  have sticky : (if rest = 0 then 0 else 1 : ℕ) ≤ 1 := by split_ifs <;> omega
  have value : ((found.1 <<< 7) ||| Wide.bit (found.2 ≠ 0)).toNat =
      r * 2 ^ 7 + if rest = 0 then 0 else 1 := by
    have last : (Wide.bit (found.2 ≠ 0)).toNat = if rest = 0 then 0 else 1 := by
      rw [Wide.toNat_bit_ne_zero, hrest]
    rw [Wide.toNat_shl_or (by omega) (by omega), hr, last]
  refine .some ⟨rfl, ⟨?_, ?_⟩, ?_, ?_⟩
  · rw [value]
    omega
  · rw [value]
    omega
  · dsimp only
    omega
  · have alike := (alike_root small).scale (a.exponent / 2 - 119)
    rw [← sqrt_size hk made, zero_add] at alike
    show Alike (a.exponent / 2 - 119) _ (_ * 2 ^ (a.exponent / 2 - 126))
    rw [value]
    convert alike using 1
    rw [show a.exponent / 2 - 119 = a.exponent / 2 - 126 + (7 : ℕ) by push_cast; ring,
      zpow_add₀ two_ne_zero, zpow_natCast]
    push_cast
    ring

/-! ## Remainders -/

/-- When a quotient is rounded up to the nearest integer. -/
theorem roundsUp_iff {units rest divisor : ℕ} (positive : 0 < divisor) :
    RoundingMode.nearestEven.roundsUp false units (.ofRemainder rest divisor) = true ↔
      divisor < 2 * rest ∨ 2 * rest = divisor ∧ units % 2 = 1 := by
  unfold Remnant.ofRemainder
  split_ifs with zero low half
  · simp [RoundingMode.roundsUp, zero, positive.ne]
  · simp [RoundingMode.roundsUp, RoundingMode.awayFromZero]
    omega
  · simp [RoundingMode.roundsUp, half]
  · simp [RoundingMode.roundsUp]
    omega

/-- Whether a result is the rest of a division to an integer, with the quotient's last bits. -/
def IsRemainder (nearest : Bool) (a b : Working) (r : Working × BitVec 64) : Prop :=
  ∃ parts, Splits parts (a.size ℚ / b.size ℚ) ∧
    let quotient := if nearest then RoundingMode.nearestEven.round false parts else parts.1
    r.2 = BitVec.ofNat 64 quotient ∧
      Holds a.sign r.1 (withSign a.sign (a.size ℚ - quotient * b.size ℚ))

section Division

variable {nearest : Bool} {n d : ℕ} {u : ℚ} {r : Working × BitVec 64}
  (positive : 0 < d) (unit : 0 < u) (ha : a.size ℚ = n * u) (hb : b.size ℚ = d * u)
include positive unit ha hb

theorem splits_sizes : Splits (n / d, .ofRemainder (n % d) d) (a.size ℚ / b.size ℚ) := by
  rw [ha, hb, mul_div_mul_right _ _ unit.ne']
  exact Magnitude.splits_div n positive

/-- A quotient that is not rounded up. -/
theorem isRemainder_kept
    (kept : nearest = true → ¬ (d < 2 * (n % d) ∨ 2 * (n % d) = d ∧ n / d % 2 = 1))
    (quotient : r.2 = BitVec.ofNat 64 (n / d))
    (rest : Holds a.sign r.1 (withSign a.sign ((n % d : ℕ) * u))) : IsRemainder nearest a b r := by
  refine ⟨_, splits_sizes positive unit ha hb, ?_⟩
  have same : (if nearest then RoundingMode.nearestEven.round false
      (n / d, .ofRemainder (n % d) d) else n / d) = n / d := by
    cases nearest with
    | false => rfl
    | true => exact if_neg fun up => kept rfl ((roundsUp_iff positive).mp up)
  have division : (d : ℚ) * (n / d : ℕ) + (n % d : ℕ) = n := by exact_mod_cast Nat.div_add_mod n d
  have left : a.size ℚ - (n / d : ℕ) * b.size ℚ = (n % d : ℕ) * u := by
    rw [ha, hb, ← division]
    ring
  dsimp only
  rw [same, left]
  exact ⟨quotient, rest⟩

/-- A quotient that is rounded up, so that the rest has the other sign. -/
theorem isRemainder_raised (near : nearest = true)
    (up : d < 2 * (n % d) ∨ 2 * (n % d) = d ∧ n / d % 2 = 1)
    (quotient : r.2 = BitVec.ofNat 64 (n / d + 1))
    (rest : Holds a.sign r.1 (withSign (!a.sign) ((d - n % d : ℕ) * u))) :
    IsRemainder nearest a b r := by
  refine ⟨_, splits_sizes positive unit ha hb, ?_⟩
  have next : (if nearest then RoundingMode.nearestEven.round false
      (n / d, .ofRemainder (n % d) d) else n / d) = n / d + 1 := by
    rw [near]
    exact if_pos ((roundsUp_iff positive).mpr up)
  have division : (d : ℚ) * (n / d : ℕ) + (n % d : ℕ) = n := by exact_mod_cast Nat.div_add_mod n d
  have left : withSign a.sign (a.size ℚ - (n / d + 1 : ℕ) * b.size ℚ) =
      withSign (!a.sign) ((d - n % d : ℕ) * u) := by
    rw [ha, hb, ← division, Nat.cast_sub (Nat.mod_lt n positive).le]
    push_cast
    cases a.sign <;> simp <;> ring
  dsimp only
  rw [next, left]
  exact ⟨quotient, rest⟩

end Division

theorem settleRest_yields {zeroSign sign : Bool} {exponent : ℤ} {rest : Wide}
    {quotient : BitVec 64} (range : -2 ^ 17 < exponent ∧ exponent < 2 ^ 17) :
    Yields (settleRest zeroSign sign exponent rest quotient) fun r => r.2 = quotient ∧
      Holds zeroSign r.1 (withSign sign ((rest.toNat : ℚ) * 2 ^ (exponent - 126))) := by
  unfold settleRest
  by_cases none : rest = 0
  · rw [if_pos none, none]
    refine .some ⟨rfl, ?_⟩
    rw [show (0 : Wide).toNat = 0 from rfl, Nat.cast_zero, zero_mul,
      (withSign_eq_zero_iff sign).mpr rfl]
    exact holds_zero zeroSign
  · have positive : 0 < rest.toNat :=
      Nat.pos_of_ne_zero fun zero => none (BitVec.eq_of_toNat_eq zero)
    rw [if_neg none]
    exact (ofParts_yields positive range (.inl rfl)).bind
      fun w parts => .some ⟨rfl, parts.2.holds parts.1 zeroSign⟩

section Remainder

variable (nearest : Bool) (ha : a.Operand) (hb : b.Operand)
include ha hb

/-- A dividend with the smaller exponent is less than the divisor. -/
theorem size_eq_of_exponent_lt {k : ℕ} (hk : b.exponent = a.exponent + (k + 1 : ℕ)) :
    b.size ℚ = (b.significand.toNat * 2 ^ (k + 1) : ℕ) * 2 ^ (a.exponent - 126) ∧
      a.significand.toNat < b.significand.toNat * 2 ^ (k + 1) := by
  have least := Nat.one_le_two_pow (n := k)
  have low := hb.normal.1
  have high := ha.normal.2
  constructor
  · rw [size, show b.exponent - 126 = a.exponent - 126 + (k + 1 : ℕ) by omega,
      zpow_add₀ two_ne_zero, zpow_natCast]
    push_cast
    ring
  · rw [pow_succ']
    nlinarith

/-- A dividend of less than half the divisor is the rest itself. -/
theorem remainder_yields_of_far (far : a.exponent < b.exponent - 1) :
    Yields (remainder nearest a b) (IsRemainder nearest a b) := by
  obtain ⟨k, hk⟩ : ∃ k : ℕ, b.exponent = a.exponent + (k + 1 + 1 : ℕ) :=
    ⟨(b.exponent - a.exponent - 2).toNat, by omega⟩
  obtain ⟨sizeB, small⟩ := size_eq_of_exponent_lt ha hb hk
  have half : 2 * a.significand.toNat < b.significand.toNat * 2 ^ (k + 1 + 1) := by
    have least := Nat.one_le_two_pow (n := k)
    have low := hb.normal.1
    have high := ha.normal.2
    rw [pow_succ', pow_succ']
    nlinarith
  have positive : 0 < b.significand.toNat * 2 ^ (k + 1 + 1) := by omega
  obtain ⟨ha', hb'⟩ := ha.range, hb.range
  unfold remainder
  refine .step (int32?_eq (n := b.exponent - 1) (by omega) (by omega)) ?_
  rw [if_pos far]
  refine .some (isRemainder_kept (n := a.significand.toNat) positive (zpow_pos two_pos _) rfl sizeB
    (fun _ => ?_) ?_ ?_)
  · rw [Nat.mod_eq_of_lt small]
    omega
  · rw [Nat.div_eq_of_lt small]
    rfl
  · rw [Nat.mod_eq_of_lt small]
    exact ha.standsFor.holds rfl a.sign

/-- With a dividend less than the divisor and not less than a quarter of it, the quotient is zero
or, if that is nearer, one. -/
theorem remainder_yields_of_near (near : a.exponent = b.exponent - 1) :
    Yields (remainder nearest a b) (IsRemainder nearest a b) := by
  obtain ⟨sizeB, small⟩ := size_eq_of_exponent_lt ha hb (k := 0) (by omega)
  rw [zero_add, pow_one] at sizeB small
  obtain ⟨ha', hb'⟩ := ha.range, hb.range
  have highB := hb.normal.2
  have unit : (0 : ℚ) < 2 ^ (a.exponent - 126) := zpow_pos two_pos _
  have positive : 0 < b.significand.toNat * 2 := by omega
  have half : (b.significand.toNat * 2 < 2 * a.significand.toNat ∨
      2 * a.significand.toNat = b.significand.toNat * 2 ∧ 0 % 2 = 1) ↔
        b.significand.toNat < a.significand.toNat := by omega
  unfold remainder
  refine .step (int32?_eq (n := b.exponent - 1) (by omega) (by omega)) ?_
  rw [if_neg (by omega), if_pos near]
  by_cases up : nearest = true ∧ b.significand.toNat < a.significand.toNat
  · have more : b.significand < a.significand := up.2
    have doubled : (b.significand <<< 1).toNat = b.significand.toNat * 2 :=
      Wide.toNat_shl_of_lt (by omega)
    rw [if_pos (by simp [up.1, more])]
    refine (Wide.sub_yields (by omega)).bind fun rest value => ?_
    rw [doubled] at value
    refine (ofParts_yields (by omega) (by omega) (.inl rfl)).bind fun w parts => .some ?_
    refine isRemainder_raised (n := a.significand.toNat) positive unit rfl sizeB up.1 ?_ ?_ ?_
    · rw [Nat.mod_eq_of_lt small, Nat.div_eq_of_lt small]
      exact half.mpr up.2
    · rw [Nat.div_eq_of_lt small]
      rfl
    · rw [Nat.mod_eq_of_lt small, ← value, near]
      exact parts.2.holds parts.1 a.sign
  · have kept : ¬ (nearest && decide (b.significand < a.significand)) = true := by
      rw [Bool.and_eq_true, decide_eq_true_iff]
      exact up
    rw [if_neg kept]
    refine .some (isRemainder_kept (n := a.significand.toNat) positive unit rfl sizeB
      (fun near => ?_) ?_ ?_)
    · rw [Nat.mod_eq_of_lt small, Nat.div_eq_of_lt small, half]
      exact fun more => up ⟨near, more⟩
    · rw [Nat.div_eq_of_lt small]
      rfl
    · rw [Nat.mod_eq_of_lt small]
      exact ha.standsFor.holds rfl a.sign

/-- With a dividend that has not the smaller exponent, the quotient is found bit by bit. -/
theorem remainder_yields_of_le (order : b.exponent ≤ a.exponent) :
    Yields (remainder nearest a b) (IsRemainder nearest a b) := by
  obtain ⟨steps, hsteps⟩ := Int.le.dest order
  obtain ⟨lowB, highB⟩ := hb.normal
  have highA := ha.normal.2
  obtain ⟨ha', hb'⟩ := ha.range, hb.range
  have unit : (0 : ℚ) < 2 ^ (b.exponent - 126) := zpow_pos two_pos _
  have positive : 0 < b.significand.toNat := by omega
  have sizeA : a.size ℚ = (a.significand.toNat * 2 ^ steps : ℕ) * 2 ^ (b.exponent - 126) := by
    rw [size, show a.exponent - 126 = b.exponent - 126 + steps by omega, zpow_add₀ two_ne_zero,
      zpow_natCast]
    push_cast
    ring
  unfold remainder
  refine .step (int32?_eq (n := b.exponent - 1) (by omega) (by omega)) ?_
  rw [if_neg (by omega), if_neg (by omega)]
  refine .step (int32?_eq (n := a.exponent - b.exponent) (by omega) (by omega)) ?_
  refine .step (uint32?_eq (k := steps) (by omega) (by omega)) ?_
  refine (Wide.reduceFrom_yields highB steps (by omega) 0).bind fun found values => ?_
  obtain ⟨hrest, hquotient⟩ := values
  rw [show (0 : BitVec 64).toNat = 0 from rfl, Nat.zero_mul, Nat.zero_add] at hquotient
  generalize a.significand.toNat * 2 ^ steps = n at hrest hquotient sizeA
  have small : found.1.toNat < b.significand.toNat := hrest ▸ Nat.mod_lt n positive
  have quotient : found.2 = BitVec.ofNat 64 (n / b.significand.toNat) :=
    BitVec.eq_of_toNat_eq (by rw [hquotient, BitVec.toNat_ofNat])
  have doubled : (found.1 <<< 1).toNat = 2 * (n % b.significand.toNat) := by
    rw [Wide.toNat_shl_of_lt (by omega)]
    omega
  have odd : found.2.getLsbD 0 = true ↔ n / b.significand.toNat % 2 = 1 := by
    rw [quotient, BitVec.getLsbD_ofNat, Nat.testBit_zero]
    simp
  have condition : (nearest && (decide (b.significand < found.1 <<< 1) ||
        found.1 <<< 1 == b.significand && found.2.getLsbD 0)) = true ↔
      nearest = true ∧ (b.significand.toNat < 2 * (n % b.significand.toNat) ∨
        2 * (n % b.significand.toNat) = b.significand.toNat ∧
          n / b.significand.toNat % 2 = 1) := by
    rw [Bool.and_eq_true, Bool.or_eq_true, Bool.and_eq_true, decide_eq_true_iff, beq_iff_eq, odd,
      BitVec.lt_def, ← BitVec.toNat_inj, doubled]
  have range : -2 ^ 17 < b.exponent ∧ b.exponent < 2 ^ 17 := by omega
  by_cases up : nearest = true ∧ (b.significand.toNat < 2 * (n % b.significand.toNat) ∨
      2 * (n % b.significand.toNat) = b.significand.toNat ∧ n / b.significand.toNat % 2 = 1)
  · dsimp only
    rw [if_pos (condition.mpr up)]
    refine (Wide.sub_yields small.le).bind fun rest value => ?_
    refine (settleRest_yields range).mono fun r settled => ?_
    refine isRemainder_raised positive unit sizeA rfl up.1 up.2 ?_ ?_
    · rw [settled.1, quotient, BitVec.ofNat_add]
      rfl
    · rw [← hrest, ← value]
      exact settled.2
  · dsimp only
    rw [if_neg (mt condition.mp up)]
    refine (settleRest_yields range).mono fun r settled => ?_
    refine isRemainder_kept positive unit sizeA rfl (fun near more => up ⟨near, more⟩) ?_ ?_
    · rw [settled.1, quotient]
    · rw [← hrest]
      exact settled.2

/-- **The remainder of two operands**, with the last bits of the quotient. -/
theorem remainder_yields : Yields (remainder nearest a b) (IsRemainder nearest a b) := by
  rcases lt_trichotomy a.exponent (b.exponent - 1) with less | equal | greater
  · exact remainder_yields_of_far nearest ha hb less
  · exact remainder_yields_of_near nearest ha hb equal
  · exact remainder_yields_of_le nearest ha hb (by omega)

end Remainder

end Working

end M68k
