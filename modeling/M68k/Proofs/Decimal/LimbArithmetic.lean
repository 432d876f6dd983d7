import M68k.Proofs.Decimal.LimbNumber

/-!
# Arithmetic in limbs

Each operation on limbs is the operation on the numbers they stand for, and its result has no zeros
at the end.  Inside, a number is followed through its limbs with what is carried: the limbs that are
done, and what is carried times the weight of the next limb, are the number so far.

* `mulSmall_yields`, `pow10_yields`, `mul_yields` — products; a row of a product may overwrite the
  limb after it, which is still zero;
* `represents_shl`, `represents_shr`, `represents_shr1` — shifts;
* `sub_yields` — differences;
* `divide_yields`, `divRem_yields` — quotients and remainders.
-/

namespace M68k

theorem uint64?_eq {n : ℤ} {k : ℕ} (h : n = k) (small : k < 2 ^ 64) : uint64? n = some k := by
  subst h
  exact if_pos ⟨by omega, by omega⟩

theorem int64?_eq {n : ℤ} (low : -2 ^ 63 ≤ n) (high : n < 2 ^ 63) : int64? n = some n :=
  if_pos ⟨low, high⟩

theorem Yields.map {α β : Type} {x : Option α} {f : α → β} {P : α → Prop} {Q : β → Prop}
    (h : Yields x P) (result : ∀ a, P a → Q (f a)) : Yields (x.map f) Q := by
  obtain ⟨a, rfl, holds⟩ := h
  exact ⟨f a, rfl, result a holds⟩

namespace Limbs

variable {a b : Limbs} {m n : ℕ}

/-! ## Products -/

/-- A product of limbs with two more summands has room in a word of 64 bits. -/
theorem multiplyAdd_yields (a b old : Limb) {carry : ℕ} (small : carry < 2 ^ 32) :
    Yields (multiplyAdd a b old carry) fun r =>
      r.1.toNat + 2 ^ 32 * r.2 = old.toNat + a.toNat * b.toNat + carry ∧ r.2 < 2 ^ 32 := by
  have product : a.toNat * b.toNat ≤ (2 ^ 32 - 1) * (2 ^ 32 - 1) :=
    Nat.mul_le_mul (Nat.le_sub_one_of_lt a.isLt) (Nat.le_sub_one_of_lt b.isLt)
  have bound := old.isLt
  refine .step (uint64?_eq rfl (by omega)) (.step (uint64?_eq rfl (by omega)) ?_)
  refine .step (uint64?_eq (Nat.cast_add ..).symm (by omega)) (.some ⟨?_, ?_⟩)
  · rw [BitVec.toNat_ofNat]
    exact Nat.mod_add_div ..
  · rw [Nat.div_lt_iff_lt_mul (by decide), base]
    omega

/-- A number times a factor, and what was carried before. -/
theorem mulSmallFrom_yields (factor : Limb) (limbs : Limbs) {carry : ℕ} (small : carry < 2 ^ 32) :
    Yields (mulSmallFrom factor carry limbs)
      (value · = value limbs * factor.toNat + carry) := by
  induction limbs generalizing carry with
  | nil =>
    refine .some ?_
    split_ifs with none
    · rw [none, value_nil, Nat.zero_mul]
    · rw [value_singleton, BitVec.toNat_ofNat, Nat.mod_eq_of_lt small, value_nil, Nat.zero_mul,
        Nat.zero_add]
  | cons limb rest ih =>
    refine (multiplyAdd_yields limb factor 0 small).bind fun (digit, next) ⟨sum, fits⟩ => ?_
    refine (ih fits).bind fun done total => .some ?_
    rw [value_cons, value_cons, total]
    have zero : (0 : Limb).toNat = 0 := rfl
    rw [zero] at sum
    dsimp only at sum
    linear_combination sum

theorem mulSmall_yields (h : Represents a m) (factor : Limb) :
    Yields (a.mulSmall factor) (Represents · (m * factor.toNat)) :=
  (mulSmallFrom_yields factor a (by decide)).map fun _ total =>
    represents_trim_of_eq (by rw [total, h.value_eq, Nat.add_zero])

theorem mulPow10_yields (h : Represents a m) (n : ℕ) :
    Yields (a.mulPow10 n) (Represents · (m * 10 ^ n)) := by
  induction n using Nat.strongRecOn generalizing a m with
  | ind n ih =>
    unfold mulPow10
    split_ifs with many
    · refine (mulSmall_yields h _).bind fun next product => ?_
      refine (ih (n - 9) (by omega) product).mono fun result total => ?_
      have nine : (1000000000 : Limb).toNat = 10 ^ 9 := rfl
      rwa [nine, mul_assoc, ← pow_add, Nat.add_sub_cancel' many] at total
    · have small : 10 ^ n < 2 ^ 32 := by
        have : 10 ^ n ≤ 10 ^ 8 := Nat.pow_le_pow_right (by decide) (by omega)
        omega
      refine .step (uint32?_eq rfl small) ((mulSmall_yields h _).mono fun result product => ?_)
      rw [BitVec.toNat_ofNat, Nat.pow_eq, Nat.mod_eq_of_lt small] at product
      exact product

/-- **Powers of ten.** -/
theorem pow10_yields (n : ℕ) : Yields (pow10 n) (Represents · (10 ^ n)) := by
  have one := mulPow10_yields (represents_ofWide 1) n
  have unit : (1 : Wide).toNat = 1 := rfl
  rwa [unit, one_mul] at one

/-- A row of a product.  The limb that it overwrites is zero, as are all after it. -/
theorem addRow_yields (factor : Limb) (b low : Limbs) (same : low.length = b.length) (room : ℕ)
    {carry : ℕ} (small : carry < 2 ^ 32) :
    Yields (addRow factor carry b (low ++ List.replicate (room + 1) 0)) fun sum =>
      ∃ low', sum = low' ++ List.replicate room 0 ∧ low'.length = b.length + 1 ∧
        value low' = value low + factor.toNat * value b + carry := by
  induction b generalizing low carry with
  | nil =>
    obtain rfl := List.eq_nil_of_length_eq_zero same
    refine .some ⟨[BitVec.ofNat 32 carry], rfl, rfl, ?_⟩
    rw [value_singleton, BitVec.toNat_ofNat, Nat.mod_eq_of_lt small]
    simp
  | cons limb rest ih =>
    obtain ⟨old, low, rfl⟩ := List.exists_cons_of_length_eq_add_one same
    rw [List.length_cons, List.length_cons, Nat.add_right_cancel_iff] at same
    refine (multiplyAdd_yields factor limb old small).bind fun (digit, next) ⟨sum, fits⟩ => ?_
    refine (ih low same fits).bind fun done ⟨low', shape, length, total⟩ => .some ?_
    refine ⟨digit :: low', by rw [shape]; rfl, ?_, ?_⟩
    · rw [List.length_cons, List.length_cons, length]
    rw [value_cons, value_cons, value_cons, total]
    dsimp only at sum
    linear_combination sum

/-- All rows of a product.  With each one a limb of the sum is done. -/
theorem addRows_yields (a b low : Limbs) (same : low.length = b.length) :
    Yields (addRows b a (low ++ List.replicate a.length 0))
      (value · = value low + value a * value b) := by
  induction a generalizing low with
  | nil =>
    refine .some ?_
    rw [List.length_nil, List.replicate_zero, List.append_nil, value_nil, Nat.zero_mul,
      Nat.add_zero]
  | cons limb rest ih =>
    refine (addRow_yields limb b low same rest.length (by decide)).bind fun sum row => ?_
    obtain ⟨low', rfl, length, total⟩ := row
    obtain ⟨digit, low', rfl⟩ := List.exists_cons_of_length_eq_add_one length
    rw [List.length_cons, Nat.add_right_cancel_iff] at length
    refine (ih low' length).bind fun done product => .some ?_
    rw [value_cons] at total ⊢
    rw [product, value_cons]
    linear_combination total

/-- **Products.** -/
theorem mul_yields (ha : Represents a m) (hb : Represents b n) :
    Yields (a.mul b) (Represents · (m * n)) := by
  unfold mul
  split_ifs with zero
  · have product : m * n = 0 := by
      rw [Nat.mul_eq_zero, ← ha.eq_nil_iff, ← hb.eq_nil_iff]
      exact zero
    rw [product]
    exact .some .nil
  · rw [Nat.add_comm, List.replicate_add]
    refine (addRows_yields a b _ (List.length_replicate ..)).map fun sum total => ?_
    apply represents_trim_of_eq
    rw [total, value_replicate_zero, Nat.zero_add, ha.value_eq, hb.value_eq]

/-! ## Shifts -/

/-- Bits that leave a limb enter the next one. -/
theorem value_shlFrom {shift : ℕ} (short : shift < 32) (limbs : Limbs) {carry : Limb}
    (few : carry.toNat < 2 ^ shift) :
    value (shlFrom shift carry limbs) = value limbs * 2 ^ shift + carry.toNat := by
  have whole : 2 ^ 32 = 2 ^ shift * 2 ^ (32 - shift) := by
    rw [← pow_add, Nat.add_sub_cancel' short.le]
  induction limbs generalizing carry with
  | nil => rw [shlFrom, value_singleton, value_nil, Nat.zero_mul, Nat.zero_add]
  | cons limb rest ih =>
    have out : (limb >>> (32 - shift)).toNat = limb.toNat / 2 ^ (32 - shift) := by
      rw [BitVec.toNat_ushiftRight, Nat.shiftRight_eq_div_pow]
    have few' : (limb >>> (32 - shift)).toNat < 2 ^ shift := by
      rw [out, Nat.div_lt_iff_lt_mul (Nat.two_pow_pos _), ← whole]
      exact limb.isLt
    have kept : (limb <<< shift).toNat = limb.toNat % 2 ^ (32 - shift) * 2 ^ shift := by
      rw [BitVec.toNat_shiftLeft, Nat.shiftLeft_eq, whole, mul_comm (2 ^ shift),
        Nat.mul_mod_mul_right]
    have parts := Nat.mod_add_div limb.toNat (2 ^ (32 - shift))
    rw [shlFrom, value_cons, value_cons, ih few', BitVec.toNat_or, kept, out,
      Wide.or_eq_add few]
    rw [whole]
    linear_combination 2 ^ shift * parts

/-- **Shifts up.** -/
theorem represents_shl (h : Represents a m) (bits : ℕ) :
    Represents (a.shl bits) (m * 2 ^ bits) := by
  have weight : 2 ^ bits = 2 ^ (32 * (bits / 32)) * 2 ^ (bits % 32) := by
    rw [← pow_add, Nat.div_add_mod]
  unfold shl
  split_ifs with zero within
  · rw [h.eq_nil_iff.mp zero, Nat.zero_mul]
    exact .nil
  · apply represents_trim_of_eq
    rw [value_append, value_replicate_zero, List.length_replicate, h.value_eq, weight, within]
    ring
  · apply represents_trim_of_eq
    have moved : value (shlFrom (bits % 32) 0 a) = value a * 2 ^ (bits % 32) :=
      value_shlFrom (Nat.mod_lt bits (by decide)) a (Nat.two_pow_pos _)
    rw [value_append, value_replicate_zero, List.length_replicate, moved, h.value_eq, weight]
    ring

/-- A limb also takes bits of the next one. -/
theorem value_shrFrom {shift : ℕ} (short : shift < 32) (limbs : Limbs) :
    value (shrFrom shift limbs) = value limbs / 2 ^ shift := by
  have whole : 2 ^ 32 = 2 ^ shift * 2 ^ (32 - shift) := by
    rw [← pow_add, Nat.add_sub_cancel' short.le]
  induction limbs with
  | nil => rw [shrFrom, value_nil, Nat.zero_div]
  | cons limb rest ih =>
    have own : (limb >>> shift).toNat = limb.toNat / 2 ^ shift := by
      rw [BitVec.toNat_ushiftRight, Nat.shiftRight_eq_div_pow]
    have few : limb.toNat / 2 ^ shift < 2 ^ (32 - shift) := by
      rw [Nat.div_lt_iff_lt_mul (Nat.two_pow_pos _), mul_comm, ← whole]
      exact limb.isLt
    have taken : BitVec.toNat (rest.head?.elim (0 : Limb) (· <<< (32 - shift))) =
        value rest % 2 ^ shift * 2 ^ (32 - shift) := by
      rw [← head_mod rest short.le]
      cases rest.head? with
      | none => simp
      | some next =>
        rw [Option.elim_some, Option.getD_some, BitVec.toNat_shiftLeft, Nat.shiftLeft_eq, whole,
          Nat.mul_mod_mul_right]
    have parts := Nat.mod_add_div (value rest) (2 ^ shift)
    have moved : value (limb :: rest) / 2 ^ shift =
        limb.toNat / 2 ^ shift + 2 ^ (32 - shift) * value rest := by
      rw [value_cons, whole, mul_assoc, Nat.add_mul_div_left _ _ (Nat.two_pow_pos _)]
    rw [shrFrom, value_cons, ih, BitVec.toNat_or, own, taken, Nat.or_comm, Wide.or_eq_add few,
      moved, whole]
    linear_combination 2 ^ (32 - shift) * parts

/-- **Shifts down.** -/
theorem represents_shr (h : Represents a m) (bits : ℕ) :
    Represents (a.shr bits) (m / 2 ^ bits) := by
  have rest : m / 2 ^ bits = value (a.drop (bits / 32)) / 2 ^ (bits % 32) := by
    rw [value_drop, h.value_eq, Nat.div_div_eq_div_mul, ← pow_add, Nat.div_add_mod]
  unfold shr
  rw [rest]
  split_ifs with short within
  · rw [List.drop_of_length_le short, value_nil, Nat.zero_div]
    exact .nil
  · rw [within, pow_zero, Nat.div_one]
    exact represents_trim _
  · exact represents_trim_of_eq (value_shrFrom (Nat.mod_lt _ (by decide)) _)

/-- The bit that leaves a number is for the limb below it. -/
theorem halve_spec (limbs : Limbs) :
    value (halve limbs).1 = value limbs / 2 ∧
      (halve limbs).2.toNat = value limbs % 2 * 2 ^ 31 := by
  induction limbs with
  | nil => exact ⟨rfl, rfl⟩
  | cons limb rest ih =>
    obtain ⟨half, bit⟩ := ih
    have own : (limb >>> 1).toNat = limb.toNat / 2 := by
      rw [BitVec.toNat_ushiftRight, Nat.shiftRight_eq_div_pow, pow_one]
    have few : limb.toNat / 2 < 2 ^ 31 := by
      have := limb.isLt
      omega
    have lost : (limb <<< 31).toNat = limb.toNat % 2 * 2 ^ 31 := by
      rw [BitVec.toNat_shiftLeft, Nat.shiftLeft_eq, show 2 ^ 32 = 2 * 2 ^ 31 from rfl,
        Nat.mul_mod_mul_right]
    constructor
    · rw [halve, value_cons, half, value_cons, BitVec.toNat_or, own, bit, Nat.or_comm,
        Wide.or_eq_add few]
      omega
    · rw [halve, value_cons, lost]
      omega

theorem represents_shr1 (h : Represents a m) : Represents a.shr1 (m / 2) :=
  represents_trim_of_eq (by rw [(halve_spec a).1, h.value_eq])

/-! ## Differences -/

theorem value_head_tail (limbs : Limbs) :
    value limbs = (limbs.head?.getD 0).toNat + 2 ^ 32 * value limbs.tail := by
  cases limbs with
  | nil => rfl
  | cons limb rest => exact value_cons limb rest

theorem toNat_ofInt_of_range {n : ℤ} (low : 0 ≤ n) (high : n < 2 ^ 32) :
    ((BitVec.ofInt 32 n).toNat : ℤ) = n := by
  rw [BitVec.toNat_ofInt]
  omega

/-- Limb by limb, what is taken away and what is left make the number. -/
theorem subFrom_yields (limbs other : Limbs) {borrow : ℤ} (one : 0 ≤ borrow ∧ borrow ≤ 1)
    (less : value other + borrow ≤ value limbs) :
    Yields (subFrom borrow limbs other)
      fun rest => (value rest : ℤ) + value other + borrow = value limbs := by
  induction limbs generalizing other borrow with
  | nil =>
    refine .some ?_
    rw [value_nil] at less ⊢
    omega
  | cons limb rest ih =>
    rw [value_head_tail other, value_cons] at less
    have digit := BitVec.isLt (other.head?.getD (0 : Limb))
    have bound := limb.isLt
    refine .step (int64?_eq (by omega) (by omega)) (.step (int64?_eq (by omega) (by omega)) ?_)
    have unit : (base : ℤ) = 2 ^ 32 := rfl
    split_ifs with negative
    · refine .step (int64?_eq (by omega) (by omega)) ?_
      refine (ih other.tail ⟨by decide, le_rfl⟩ (by omega)).bind fun done total => .some ?_
      rw [value_cons, value_cons, value_head_tail other, Nat.cast_add,
        toNat_ofInt_of_range (by omega) (by omega), unit]
      push_cast
      linear_combination 2 ^ 32 * total
    · refine (ih other.tail ⟨le_rfl, by decide⟩ (by omega)).bind fun done total => .some ?_
      rw [value_cons, value_cons, value_head_tail other, Nat.cast_add,
        toNat_ofInt_of_range (by omega) (by omega)]
      push_cast
      linear_combination 2 ^ 32 * total

/-- **Differences.** -/
theorem sub_yields (ha : Represents a m) (hb : Represents b n) (le : n ≤ m) :
    Yields (a.sub b) (Represents · (m - n)) := by
  have ordered : a.compare b ≠ .lt := by
    rw [ne_eq, ha.compare_lt_iff hb]
    omega
  have fits : (value b : ℤ) + 0 ≤ value a := by
    rw [ha.value_eq, hb.value_eq]
    omega
  refine .step (guard_eq ordered) ?_
  refine (subFrom_yields a b ⟨le_rfl, by decide⟩ fits).map fun rest total => ?_
  apply represents_trim_of_eq
  rw [ha.value_eq, hb.value_eq] at total
  omega

/-! ## Quotients -/

/-- The bits of a quotient below a position.  The divisor stands one position below, for the last
bit and after it too. -/
theorem divideFrom_yields {position r q d : ℕ} {quotient : Wide} {rest divisor : Limbs}
    (left : Represents rest r) (moved : Represents divisor (d * 2 ^ position / 2))
    (below : r < d * 2 ^ position) (done : quotient.toNat = q * 2 ^ position)
    (fits : q * 2 ^ position + r / d < 2 ^ 128) :
    Yields (divideFrom position quotient rest divisor) fun result =>
      result.1.toNat = q * 2 ^ position + r / d ∧ Represents result.2 (r % d) := by
  induction position generalizing r q quotient rest divisor with
  | zero =>
    rw [pow_zero, mul_one] at below
    refine .some ⟨?_, ?_⟩
    · rw [done, Nat.div_eq_of_lt below, Nat.add_zero]
    · rwa [Nat.mod_eq_of_lt below]
  | succ position ih =>
    have weight : d * 2 ^ (position + 1) / 2 = d * 2 ^ position := by
      rw [pow_succ, ← mul_assoc, Nat.mul_div_cancel _ two_pos]
    rw [weight] at moved
    have next := represents_shr1 moved
    have twice : q * 2 ^ (position + 1) = 2 * q * 2 ^ position := by
      rw [pow_succ]
      ring
    rw [twice] at done fits ⊢
    unfold divideFrom
    split_ifs with more
    · rw [ne_eq, left.compare_lt_iff moved, not_lt] at more
      have positive : 0 < d := Nat.pos_of_mul_pos_right (below.pos)
      have bit : 2 ^ position ≤ r / d := by rwa [Nat.le_div_iff_mul_le positive, mul_comm]
      have short : position < 128 :=
        (Nat.pow_lt_pow_iff_right one_lt_two).mp (by omega)
      have others : (r - d * 2 ^ position) / d = r / d - 2 ^ position := Nat.sub_mul_div _ _ _
      have same : (r - d * 2 ^ position) % d = r % d := Nat.sub_mul_mod more
      have sum : 2 * q * 2 ^ position + r / d =
          (2 * q + 1) * 2 ^ position + (r - d * 2 ^ position) / d := by
        rw [others, add_one_mul]
        omega
      rw [sum] at fits ⊢
      refine (sub_yields left moved more).bind fun less difference => ?_
      refine (Wide.shl_one_yields short).bind fun power value => ?_
      rw [← same]
      refine ih difference next ?_ ?_ fits
      · rw [pow_succ, ← mul_assoc] at below
        omega
      · rw [BitVec.toNat_or, done, value, ← twice,
          Wide.or_eq_add (Nat.pow_lt_pow_right one_lt_two (Nat.lt_succ_self position)), twice]
        ring
    · rw [not_ne_iff, left.compare_lt_iff moved] at more
      exact ih left next more done fits

/-- The divisor is moved up so far that it is greater than half of the number. -/
theorem lt_moved_divisor (positive : 0 < n) (le : n ≤ m) :
    m < n * 2 ^ (Decimal.bitLength m - Decimal.bitLength n + 1) := by
  obtain ⟨-, -, high⟩ := Decimal.bitLength_bounds (positive.trans_le le)
  obtain ⟨some, low, -⟩ := Decimal.bitLength_bounds positive
  calc m < 2 ^ Decimal.bitLength m := high
    _ ≤ 2 ^ (Decimal.bitLength n - 1 + (Decimal.bitLength m - Decimal.bitLength n + 1)) :=
        Nat.pow_le_pow_right two_pos (by omega)
    _ = 2 ^ (Decimal.bitLength n - 1) * 2 ^ (Decimal.bitLength m - Decimal.bitLength n + 1) :=
        pow_add ..
    _ ≤ n * 2 ^ (Decimal.bitLength m - Decimal.bitLength n + 1) := Nat.mul_le_mul_right _ low

theorem bitLength_mono (le : n ≤ m) : Decimal.bitLength n ≤ Decimal.bitLength m := by
  rcases Nat.eq_zero_or_pos n with rfl | positive
  · exact Nat.zero_le _
  · obtain ⟨-, -, high⟩ := Decimal.bitLength_bounds (positive.trans_le le)
    obtain ⟨some, low, -⟩ := Decimal.bitLength_bounds positive
    have := (Nat.pow_lt_pow_iff_right one_lt_two).mp (low.trans_lt (le.trans_lt high))
    omega

/-- **Quotients.**  Long division is exact when the quotient fits in a word, although the divisor is
moved down once more after the last bit. -/
theorem divide_yields (ha : Represents a m) (hb : Represents b n) (positive : 0 < n)
    (counted : n ≤ m → Decimal.bitLength m < 2 ^ 32) (fits : m / n < 2 ^ 128) :
    Yields (a.divide b) fun r => r.1.toNat = m / n ∧ Represents r.2 (m % n) := by
  unfold divide
  split_ifs with less
  · rw [ha.compare_lt_iff hb] at less
    rw [Nat.div_eq_of_lt less, Nat.mod_eq_of_lt less]
    exact .some ⟨rfl, ha⟩
  · rw [ha.compare_lt_iff hb, not_lt] at less
    have lengths := bitLength_mono less
    have counted := counted less
    rw [ha.bitLength_eq, hb.bitLength_eq]
    refine .step (uint32?_eq rfl counted) (.step (uint32?_eq rfl (by omega)) ?_)
    refine .step (uint32?_eq (Nat.cast_sub lengths).symm (by omega)) ?_
    have divisor : Represents (b.shl (Decimal.bitLength m - Decimal.bitLength n))
        (n * 2 ^ (Decimal.bitLength m - Decimal.bitLength n + 1) / 2) := by
      rw [pow_succ, ← mul_assoc, Nat.mul_div_cancel _ two_pos]
      exact represents_shl hb _
    refine (divideFrom_yields (q := 0) ha divisor (lt_moved_divisor positive less) ?_ ?_).mono ?_
    · rw [Nat.zero_mul]
      rfl
    · rwa [Nat.zero_mul, Nat.zero_add]
    · rintro result ⟨quotient, rest⟩
      rw [Nat.zero_mul, Nat.zero_add] at quotient
      exact ⟨quotient, rest⟩

/-- The lengths of two numbers bound their quotient. -/
theorem div_lt_of_bitLength (positive : 0 < n)
    (near : Decimal.bitLength m < Decimal.bitLength n + 128) : m / n < 2 ^ 128 := by
  rcases lt_or_ge m n with less | more
  · rw [Nat.div_eq_of_lt less]
    exact Nat.two_pow_pos _
  · rw [Nat.div_lt_iff_lt_mul positive, mul_comm]
    exact (lt_moved_divisor positive more).trans_le
      (Nat.mul_le_mul_left _ (Nat.pow_le_pow_right two_pos (by omega)))

/-- A division that makes sure of what it relies on comes to the same. -/
theorem divRem_yields (ha : Represents a m) (hb : Represents b n) (positive : 0 < n)
    (counted : Decimal.bitLength m < 2 ^ 32)
    (near : Decimal.bitLength m < Decimal.bitLength n + 128) :
    Yields (a.divRem b) fun r => r.1.toNat = m / n ∧ Represents r.2 (m % n) := by
  have some : b ≠ [] := by
    rw [ne_eq, hb.eq_nil_iff]
    omega
  have exact_division :=
    divide_yields ha hb positive (fun _ => counted) (div_lt_of_bitLength positive near)
  refine .step (guard_eq some) ?_
  split_ifs with less
  · exact exact_division
  · rw [ha.compare_lt_iff hb, not_lt] at less
    have lengths := bitLength_mono less
    rw [ha.bitLength_eq, hb.bitLength_eq]
    refine .step (uint32?_eq rfl counted) (.step (uint32?_eq rfl (by omega)) ?_)
    exact .step (guard_eq near) exact_division

/-- A division that makes sure of what it relies on has a result only if the divisor is not zero and
the quotient fits in a word. -/
theorem divRem_relies (ha : Represents a m) (hb : Represents b n) (ends : (a.divRem b).isSome) :
    0 < n ∧ m / n < 2 ^ 128 := by
  have some : b ≠ [] := of_guard_bind ends
  have positive : 0 < n := by
    rw [Nat.pos_iff_ne_zero, ne_eq, ← hb.eq_nil_iff]
    exact some
  refine ⟨positive, ?_⟩
  unfold divRem at ends
  rw [guard_eq some, Option.bind_eq_bind, Option.bind_some] at ends
  split_ifs at ends with less
  · rw [ha.compare_lt_iff hb] at less
    rw [Nat.div_eq_of_lt less]
    exact Nat.two_pow_pos _
  · obtain ⟨result, ends⟩ := Option.isSome_iff_exists.mp ends
    obtain ⟨length, counted, ends⟩ := Option.bind_eq_some_iff.mp ends
    obtain ⟨length', counted', ends⟩ := Option.bind_eq_some_iff.mp ends
    rw [ha.bitLength_of_some counted, hb.bitLength_of_some counted'] at ends
    exact div_lt_of_bitLength positive (of_guard_bind (Option.isSome_iff_exists.mpr ⟨_, ends⟩))

end Limbs

end M68k
