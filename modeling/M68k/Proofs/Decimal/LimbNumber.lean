import Mathlib.Data.List.DropRight
import Mathlib.Data.Nat.Digits.Lemmas
import M68k.Decimal.Limbs
import M68k.Proofs.Fp.WorkingWord

/-!
# Numbers of limbs

Limbs are the digits of a natural number to the base `2 ^ 32`.  Without zeros at the end there is
one list of limbs for each number, and its length and last limb tell how large the number is: order
and number of bits are those of the number.

* `value` — the number that limbs stand for;
* `Represents` — limbs of a number without zeros at the end;
* `Represents.compare_eq` — the order of limbs is that of numbers;
* `Represents.bitLength_eq` — counting bits from the last limb;
* `lowBitsNonzero_iff`, `toNat_lowWide` — the last bits.
-/

namespace M68k

namespace Limbs

/-- The number that limbs stand for. -/
def value (limbs : Limbs) : ℕ := Nat.ofDigits (2 ^ 32) (limbs.map BitVec.toNat)

/-- There is no zero at the end. -/
def Trimmed (limbs : Limbs) : Prop := limbs.getLast? ≠ some 0

instance (limbs : Limbs) : Decidable (Trimmed limbs) :=
  inferInstanceAs (Decidable (limbs.getLast? ≠ some 0))

/-- Limbs of a number, without zeros at the end. -/
structure Represents (limbs : Limbs) (n : ℕ) : Prop where
  value_eq : value limbs = n
  trimmed : Trimmed limbs

theorem uint32?_eq_none {n : ℤ} (large : 2 ^ 32 ≤ n) : uint32? n = none :=
  if_neg fun fits => absurd fits.2 (by omega)

theorem toNat_eq_zero_iff {w : ℕ} (word : BitVec w) : word.toNat = 0 ↔ word = 0 := by
  rw [← BitVec.toNat_inj]
  rfl

/-! ## The value -/

@[simp] theorem value_nil : value [] = 0 := rfl

@[simp] theorem value_cons (limb : Limb) (rest : Limbs) :
    value (limb :: rest) = limb.toNat + 2 ^ 32 * value rest := by
  rw [value, List.map_cons, Nat.ofDigits_cons]
  rfl

theorem value_singleton (limb : Limb) : value [limb] = limb.toNat := by
  rw [value_cons, value_nil, mul_zero, add_zero]

theorem value_append (low high : Limbs) :
    value (low ++ high) = value low + 2 ^ (32 * low.length) * value high := by
  rw [value, List.map_append, Nat.ofDigits_append, List.length_map, ← pow_mul]
  rfl

@[simp] theorem value_replicate_zero (n : ℕ) : value (List.replicate n 0) = 0 := by
  induction n with
  | zero => rfl
  | succ n ih =>
    rw [List.replicate_succ, value_cons, ih]
    rfl

theorem value_lt (limbs : Limbs) : value limbs < 2 ^ (32 * limbs.length) := by
  have digits : ∀ digit ∈ limbs.map BitVec.toNat, digit < 2 ^ 32 := by
    intro digit mem
    obtain ⟨limb, -, rfl⟩ := List.mem_map.mp mem
    exact limb.isLt
  have bound := Nat.ofDigits_lt_base_pow_length (by decide) digits
  rwa [List.length_map, ← pow_mul] at bound

/-- The first limbs are what is left of the number below the place where the others begin. -/
theorem value_split (limbs : Limbs) (n : ℕ) :
    value limbs / 2 ^ (32 * n) = value (limbs.drop n) ∧
      value limbs % 2 ^ (32 * n) = value (limbs.take n) := by
  have low : value (limbs.take n) < 2 ^ (32 * n) :=
    (value_lt _).trans_le (Nat.pow_le_pow_right two_pos
      (Nat.mul_le_mul_left _ (List.length_take_le n limbs)))
  have whole : value (limbs.take n) + 2 ^ (32 * n) * value (limbs.drop n) = value limbs := by
    obtain long | short := Nat.le_total n limbs.length
    · have append := value_append (limbs.take n) (limbs.drop n)
      rw [List.take_append_drop, List.length_take_of_le long] at append
      exact append.symm
    · rw [List.take_of_length_le short, List.drop_of_length_le short, value_nil, mul_zero, add_zero]
  exact (Nat.div_mod_unique (Nat.two_pow_pos _)).mpr ⟨whole, low⟩

theorem value_drop (limbs : Limbs) (n : ℕ) : value (limbs.drop n) = value limbs / 2 ^ (32 * n) :=
  (value_split limbs n).1.symm

theorem value_take (limbs : Limbs) (n : ℕ) : value (limbs.take n) = value limbs % 2 ^ (32 * n) :=
  (value_split limbs n).2.symm

theorem value_ne_zero_iff (limbs : Limbs) : value limbs ≠ 0 ↔ ∃ limb ∈ limbs, limb ≠ 0 := by
  induction limbs with
  | nil => simp
  | cons limb rest ih =>
    have either : value (limb :: rest) ≠ 0 ↔ limb ≠ 0 ∨ value rest ≠ 0 := by
      rw [value_cons, ← not_and_or, ← toNat_eq_zero_iff limb]
      omega
    rw [either, ih, List.exists_mem_cons_iff]

/-! ## Zeros at the end -/

theorem trimmed_nil : Trimmed [] := Option.some_ne_none 0 |>.symm

theorem trimmed_append_singleton {low : Limbs} {top : Limb} : Trimmed (low ++ [top]) ↔ top ≠ 0 := by
  rw [Trimmed, List.getLast?_concat, ne_eq, Option.some.injEq]

theorem trim_append_singleton (low : Limbs) (top : Limb) :
    trim (low ++ [top]) = if top = 0 then trim low else low ++ [top] := by
  have step := List.rdropWhile_concat (· == (0 : Limb)) low top
  simp only [beq_iff_eq] at step
  exact step

/-- Trimming keeps the number. -/
theorem represents_trim (limbs : Limbs) : Represents (trim limbs) (value limbs) := by
  induction limbs using List.reverseRecOn with
  | nil => exact ⟨rfl, trimmed_nil⟩
  | append_singleton low top ih =>
    rw [trim_append_singleton]
    split_ifs with zero
    · rw [zero, value_append, value_singleton]
      simpa using ih
    · exact ⟨rfl, trimmed_append_singleton.mpr zero⟩

theorem represents_trim_of_eq {limbs : Limbs} {n : ℕ} (h : value limbs = n) :
    Represents (trim limbs) n := h ▸ represents_trim limbs

/-- A number is zero or has a last limb. -/
theorem eq_nil_or_append (limbs : Limbs) : limbs = [] ∨ ∃ low top, limbs = low ++ [top] := by
  rcases List.eq_nil_or_concat limbs with nil | ⟨low, top, rfl⟩
  · exact .inl nil
  · exact .inr ⟨low, top, List.concat_eq_append⟩

namespace Represents

variable {a b : Limbs} {m n : ℕ}

theorem nil : Represents [] 0 := ⟨rfl, trimmed_nil⟩

/-- The last limb counts fully. -/
theorem le_of_append {low : Limbs} {top : Limb} (h : Represents (low ++ [top]) n) :
    2 ^ (32 * low.length) * top.toNat ≤ n ∧ n < 2 ^ (32 * low.length) * (top.toNat + 1) := by
  have below := value_lt low
  rw [← h.value_eq, value_append, value_singleton, mul_add_one]
  omega

theorem top_pos {low : Limbs} {top : Limb} (h : Represents (low ++ [top]) n) : 0 < top.toNat :=
  Nat.pos_of_ne_zero <|
    mt (toNat_eq_zero_iff top).mp (trimmed_append_singleton.mp h.trimmed)

/-- A number of so many limbs is not less than the power of the base below it. -/
theorem le_of_ne_nil (h : Represents a n) (some : a ≠ []) : 2 ^ (32 * (a.length - 1)) ≤ n := by
  obtain rfl | ⟨low, top, rfl⟩ := eq_nil_or_append a
  · exact absurd rfl some
  · rw [List.length_append, List.length_singleton, Nat.add_sub_cancel]
    exact (Nat.le_mul_of_pos_right _ h.top_pos).trans h.le_of_append.1

theorem lt (h : Represents a n) : n < 2 ^ (32 * a.length) := h.value_eq ▸ value_lt a

theorem eq_nil_iff (h : Represents a n) : a = [] ↔ n = 0 := by
  constructor
  · rintro rfl
    exact h.value_eq.symm
  · intro zero
    by_contra some
    have least := h.le_of_ne_nil some
    have power : 0 < 2 ^ (32 * (a.length - 1)) := Nat.two_pow_pos _
    omega

theorem lt_of_length_lt (ha : Represents a m) (hb : Represents b n)
    (shorter : a.length < b.length) : m < n := by
  have some : b ≠ [] := List.ne_nil_of_length_pos (by omega)
  calc m < 2 ^ (32 * a.length) := ha.lt
    _ ≤ 2 ^ (32 * (b.length - 1)) := Nat.pow_le_pow_right two_pos (by omega)
    _ ≤ n := hb.le_of_ne_nil some

end Represents

/-! ## Words -/

theorem represents_ofWide (word : Wide) : Represents (ofWide word) word.toNat := by
  fun_induction ofWide word with
  | case1 => exact .nil
  | case2 word nonzero ih =>
    have low : (word.setWidth 32).toNat = word.toNat % 2 ^ 32 := BitVec.toNat_setWidth ..
    rw [Wide.toNat_shr] at ih
    constructor
    · rw [value_cons, ih.value_eq, low]
      exact Nat.mod_add_div ..
    · obtain none | ⟨front, top, more⟩ := eq_nil_or_append (ofWide (word >>> 32))
      · have short : word.toNat / 2 ^ 32 = 0 := ih.eq_nil_iff.mp none
        have positive : word.toNat ≠ 0 := mt (toNat_eq_zero_iff word).mp nonzero
        rw [none, ← List.nil_append [_], trimmed_append_singleton]
        intro zero
        rw [zero] at low
        have : (0 : Limb).toNat = 0 := rfl
        omega
      · have last := ih.trimmed
        rw [more] at last ⊢
        rw [← List.cons_append, trimmed_append_singleton]
        exact trimmed_append_singleton.mp last

/-- A word of limbs from the last one on. -/
theorem toNat_foldr {limbs : Limbs} (short : limbs.length ≤ 4) :
    BitVec.toNat (limbs.foldr (fun (limb : Limb) (word : Wide) =>
      word <<< 32 ||| limb.setWidth 128) 0) = value limbs := by
  induction limbs with
  | nil => rfl
  | cons limb rest ih =>
    rw [List.length_cons] at short
    have high := ih (by omega)
    have bound : value rest < 2 ^ 96 :=
      (value_lt rest).trans_le (Nat.pow_le_pow_right two_pos (by omega))
    have digit : (limb.setWidth 128).toNat = limb.toNat :=
      BitVec.toNat_setWidth_of_le (by decide)
    rw [List.foldr_cons, Wide.toNat_shl_or (by omega) (digit.symm ▸ limb.isLt), digit, high,
      value_cons, add_comm, mul_comm]

/-- The last 128 bits of a number. -/
theorem toNat_lowWide (limbs : Limbs) : (lowWide limbs).toNat = value limbs % 2 ^ 128 := by
  have short : (limbs.take 4).length ≤ 4 := List.length_take_le 4 limbs
  rw [lowWide, toNat_foldr short, value_take]

/-! ## Order -/

/-- The order of numbers by what stands before a position, and then by what follows it. -/
theorem compare_leading {unit low low' : ℕ} (small : low < unit) (small' : low' < unit)
    (high high' : ℕ) :
    Ord.compare (low + unit * high) (low' + unit * high') =
      (Ord.compare high high').then (Ord.compare low low') := by
  rcases lt_trichotomy high high' with less | rfl | greater
  · have gap : unit * (high + 1) ≤ unit * high' := Nat.mul_le_mul_left _ less
    rw [compare_lt_iff_lt.mpr less, Ordering.lt_then, compare_lt_iff_lt]
    rw [mul_add_one] at gap
    omega
  · rw [compare_eq_iff_eq.mpr rfl, Ordering.eq_then, Nat.compare_eq_ite_lt, Nat.compare_eq_ite_lt]
    simp only [Nat.add_lt_add_iff_right]
  · have gap : unit * (high' + 1) ≤ unit * high := Nat.mul_le_mul_left _ greater
    rw [compare_gt_iff_gt.mpr greater, Ordering.gt_then, compare_gt_iff_gt]
    rw [mul_add_one] at gap
    omega

/-- Lists of one length are in the order of their numbers. -/
theorem compareLex_reverse {a b : Limbs} (same : a.length = b.length) :
    List.compareLex (compareOn BitVec.toNat) a.reverse b.reverse =
      Ord.compare (value a) (value b) := by
  induction a using List.reverseRecOn generalizing b with
  | nil =>
    obtain rfl := List.eq_nil_of_length_eq_zero same.symm
    rfl
  | append_singleton low top ih =>
    obtain rfl | ⟨low', top', rfl⟩ := eq_nil_or_append b
    · simp at same
    · have lengths : low.length = low'.length := by simpa using same
      have below := value_lt low
      rw [List.reverse_concat, List.reverse_concat, List.compareLex_cons_cons, ih lengths,
        value_append, value_append, value_singleton, value_singleton]
      rw [lengths] at below ⊢
      exact (compare_leading below (value_lt low') _ _).symm

namespace Represents

variable {a b : Limbs} {m n : ℕ}

/-- **Order.**  Limbs without zeros at the end are in the order of their numbers. -/
theorem compare_eq (ha : Represents a m) (hb : Represents b n) :
    a.compare b = Ord.compare m n := by
  unfold Limbs.compare
  rcases lt_trichotomy a.length b.length with shorter | same | longer
  · rw [compare_lt_iff_lt.mpr shorter, Ordering.lt_then]
    exact (compare_lt_iff_lt.mpr (ha.lt_of_length_lt hb shorter)).symm
  · rw [compare_eq_iff_eq.mpr same, Ordering.eq_then, compareLex_reverse same, ha.value_eq,
      hb.value_eq]
  · rw [compare_gt_iff_gt.mpr longer, Ordering.gt_then]
    exact (compare_gt_iff_gt.mpr (hb.lt_of_length_lt ha longer)).symm

theorem compare_lt_iff (ha : Represents a m) (hb : Represents b n) :
    a.compare b = .lt ↔ m < n := by
  rw [ha.compare_eq hb, compare_lt_iff_lt]

end Represents

/-! ## Counting bits -/

theorem bitLength_of_bounds {n k : ℕ} (low : 2 ^ k ≤ n) (high : n < 2 ^ (k + 1)) :
    Decimal.bitLength n = k + 1 := by
  have positive : n ≠ 0 := by
    have := Nat.two_pow_pos k
    omega
  rw [Decimal.bitLength, if_neg positive, (Nat.log2_eq_iff positive).mpr ⟨low, high⟩]

theorem bitLength_limb (limb : Limb) :
    Decimal.bitLength limb.toNat + leadingZeros limb = 32 := by
  simp only [leadingZeros, Decimal.bitLength, toNat_eq_zero_iff]
  split_ifs with zero
  · rfl
  · have nonzero := mt (toNat_eq_zero_iff limb).mp zero
    have log : limb.toNat.log2 < 32 := (Nat.log2_lt nonzero).mpr limb.isLt
    omega

namespace Represents

variable {a : Limbs} {n : ℕ}

/-- All limbs but the last are full. -/
theorem bitLength_of_append {low : Limbs} {top : Limb} (h : Represents (low ++ [top]) n) :
    Decimal.bitLength n = 32 * low.length + Decimal.bitLength top.toNat := by
  obtain ⟨some, least, most⟩ := Decimal.bitLength_bounds h.top_pos
  obtain ⟨from_top, below⟩ := h.le_of_append
  obtain ⟨k, length⟩ : ∃ k, Decimal.bitLength top.toNat = k + 1 :=
    ⟨_, (Nat.sub_add_cancel some).symm⟩
  rw [length] at least most ⊢
  rw [← add_assoc]
  apply bitLength_of_bounds
  · rw [pow_add]
    exact (Nat.mul_le_mul_left _ least).trans from_top
  · rw [add_assoc, pow_add]
    exact below.trans_le (Nat.mul_le_mul_left _ most)

/-- **Counting bits.**  The bits are counted just if a word of 32 bits can hold their number. -/
theorem bitLength_eq (h : Represents a n) : a.bitLength = uint32? (Decimal.bitLength n) := by
  obtain rfl | ⟨low, top, rfl⟩ := eq_nil_or_append a
  · rw [h.eq_nil_iff.mp rfl]
    rfl
  · have whole := h.bitLength_of_append
    have last := bitLength_limb top
    have length : (low ++ [top]).length = low.length + 1 := by
      rw [List.length_append, List.length_singleton]
    obtain ⟨some, -, -⟩ := Decimal.bitLength_bounds h.top_pos
    rw [bitLength, List.getLast?_concat, length]
    simp only [Option.bind_eq_bind]
    rcases lt_or_ge (low.length + 1) (2 ^ 32) with few | many
    · rw [uint32?_eq rfl few, Option.bind_some, uint32?_eq (k := low.length) (by omega) (by omega),
        Option.bind_some]
      rcases lt_or_ge (low.length * 32) (2 ^ 32) with below | above
      · rw [uint32?_eq (k := low.length * 32) (by omega) below, Option.bind_some,
          uint32?_eq (k := Decimal.bitLength top.toNat) (by omega) (by omega), Option.bind_some]
        congr 1
        omega
      · have whole_large : uint32? (Decimal.bitLength n) = none := uint32?_eq_none (by omega)
        rw [uint32?_eq_none (by omega), whole_large, Option.bind_none]
    · have whole_large : uint32? (Decimal.bitLength n) = none := uint32?_eq_none (by omega)
      rw [uint32?_eq_none (by omega), whole_large, Option.bind_none]

/-- A number whose bits were counted. -/
theorem bitLength_of_some (h : Represents a n) {length : ℕ} (ends : a.bitLength = some length) :
    length = Decimal.bitLength n := by
  rw [h.bitLength_eq, uint32?, Option.ite_none_right_eq_some, Option.some.injEq] at ends
  exact ends.2.symm

end Represents

/-! ## The last bits -/

theorem any_ne_zero_iff (limbs : Limbs) : limbs.any (· != 0) = true ↔ value limbs ≠ 0 := by
  rw [value_ne_zero_iff, List.any_eq_true]
  simp only [bne_iff_ne]

/-- Bits of a limb below a position. -/
theorem toNat_and_mask (limb : Limb) {n : ℕ} (short : n < 32) :
    (limb &&& ((1 : Limb) <<< n - 1)).toNat = limb.toNat % 2 ^ n := by
  have unit : 2 ^ n < 2 ^ 32 := Nat.pow_lt_pow_right one_lt_two short
  have power : ((1 : Limb) <<< n).toNat = 2 ^ n := by
    rw [BitVec.toNat_shiftLeft, Nat.shiftLeft_eq, show (1 : Limb).toNat = 1 from rfl, one_mul,
      Nat.mod_eq_of_lt unit]
  have one : (1 : Limb).toNat ≤ ((1 : Limb) <<< n).toNat := by
    rw [power]
    exact Nat.two_pow_pos n
  rw [BitVec.toNat_and, BitVec.toNat_sub_of_le one, power]
  exact Nat.and_two_pow_sub_one_eq_mod _ n

/-- Bits of the first limb are bits of the number. -/
theorem head_mod (limbs : Limbs) {n : ℕ} (short : n ≤ 32) :
    (limbs.head?.getD 0).toNat % 2 ^ n = value limbs % 2 ^ n := by
  cases limbs with
  | nil => rfl
  | cons limb rest =>
    have whole : 2 ^ 32 = 2 ^ n * 2 ^ (32 - n) := by
      rw [← pow_add, Nat.add_sub_cancel' short]
    rw [List.head?_cons, Option.getD_some, value_cons, whole, mul_assoc, Nat.add_mul_mod_self_left]

/-- Whether the last bits of a number are not all zero. -/
theorem lowBitsNonzero_iff (limbs : Limbs) (bits : ℕ) :
    limbs.lowBitsNonzero bits = true ↔ value limbs % 2 ^ bits ≠ 0 := by
  have short : bits % 32 < 32 := Nat.mod_lt _ (by decide)
  have split : value limbs % 2 ^ bits =
      value limbs % 2 ^ (32 * (bits / 32)) +
        2 ^ (32 * (bits / 32)) * (value (limbs.drop (bits / 32)) % 2 ^ (bits % 32)) := by
    rw [value_drop, ← Nat.mod_mul, ← pow_add, Nat.div_add_mod]
  have unit : 2 ^ (32 * (bits / 32)) ≠ 0 := (Nat.two_pow_pos _).ne'
  have rest : (bits % 32 != 0 && limbs[bits / 32]?.any fun limb =>
      limb &&& ((1 : Limb) <<< (bits % 32) - 1) != 0) = true ↔
        value (limbs.drop (bits / 32)) % 2 ^ (bits % 32) ≠ 0 := by
    rw [← head_mod _ short.le, List.head?_drop]
    cases limbs[bits / 32]? with
    | none => simp
    | some limb =>
      have masked := toNat_and_mask limb short
      rw [Option.getD_some, ← masked, Option.any_some, Bool.and_eq_true, bne_iff_ne, bne_iff_ne,
        ne_eq (BitVec.toNat _), toNat_eq_zero_iff, and_iff_right_iff_imp]
      -- no bit is below the first position
      intro some none
      have nothing : limb.toNat % 2 ^ (bits % 32) = 0 := by rw [none, pow_zero, Nat.mod_one]
      exact some ((toNat_eq_zero_iff _).mp (masked.trans nothing))
  rw [lowBitsNonzero, Bool.or_eq_true, any_ne_zero_iff, rest, value_take, split, ne_eq (_ + _),
    Nat.add_eq_zero_iff, Nat.mul_eq_zero, not_and_or]
  simp only [unit, false_or, ne_eq]

/-- **The last bits.**  Whether any of the last bits of a number is set. -/
theorem lowBitsNonzero_iff_testBit (limbs : Limbs) (bits : ℕ) :
    limbs.lowBitsNonzero bits = true ↔ ∃ i < bits, (value limbs).testBit i = true := by
  rw [lowBitsNonzero_iff]
  constructor
  · intro some
    obtain ⟨i, bit⟩ := Nat.exists_testBit_of_ne_zero some
    rw [Nat.testBit_mod_two_pow, Bool.and_eq_true, decide_eq_true_eq] at bit
    exact ⟨i, bit⟩
  · rintro ⟨i, below, bit⟩ none
    have kept : (value limbs % 2 ^ bits).testBit i = true := by
      rw [Nat.testBit_mod_two_pow, bit, decide_eq_true below]
      rfl
    rw [none, Nat.zero_testBit] at kept
    exact Bool.false_ne_true kept

end Limbs

end M68k
