import M68k.Cpu.Execution.Arithmetic
import M68k.Proofs.Cpu.Action
import M68k.Proofs.Cpu.LimbChain

/-!
# Chains of decimal sums and differences

A decimal number of any length is a list of bytes of two digits each, the least significant byte
first.  Each byte of a sum or difference is corrected by six for every digit that is carried or
borrowed, which leaves the two digits of the integer and its quotient by a hundred.  The quotient is
the extend flag of the next byte, so that a chain adds or subtracts the whole numbers.

* `bcdAdd_splits`, `bcdSub_splits` — two digits at a time;
* `decimalChained` — chains, with any extend and zero flag before;
* `decimal_chains_exact` — long decimal sums, differences and complements.
-/

namespace M68k

namespace Alu

/-! ## Two digits -/

/-- Whether a byte holds two decimal digits. -/
def IsDecimal (byte : BitVec 8) : Prop := byte.toNat / 16 < 10 ∧ byte.toNat % 16 < 10

instance (byte : BitVec 8) : Decidable (IsDecimal byte) := inferInstanceAs (Decidable (_ ∧ _))

/-- The number that the two digits of a byte stand for. -/
def decimal (byte : BitVec 8) : ℕ := 10 * (byte.toNat / 16) + byte.toNat % 16

/-- A byte has the last two digits of an integer, and a carry its quotient by a hundred. -/
structure Splits (total : ℤ) (byte : BitVec 8) (carry : ℤ) : Prop where
  digits : IsDecimal byte
  value : (decimal byte : ℤ) = total % 100
  carry : carry = total / 100

/-- A word with the digits `high` and `low` in its last byte. -/
theorem Splits.of_digits {word total : ℤ} (high low wraps carry : ℤ) (h : 0 ≤ high ∧ high < 10)
    (l : 0 ≤ low ∧ low < 10) (digits : word = 256 * wraps + 16 * high + low)
    (number : total = 100 * carry + 10 * high + low) :
    Splits total (BitVec.ofInt 8 word) carry := by
  have toNat : ((BitVec.ofInt 8 word).toNat : ℤ) = 16 * high + low := by
    rw [toNat_ofInt]
    omega
  refine ⟨⟨by omega, by omega⟩, ?_, by omega⟩
  unfold decimal
  omega

/-- A sum is that of the words, corrected for each digit that is carried. -/
theorem bcdAdd_eq (s d : BitVec 8) (x : Bool) :
    ∃ low high : Bool, (low = true ↔ 9 < d.toNat % 16 + s.toNat % 16 + x.toNat) ∧
      (high = true ↔ 9 < d.toNat / 16 + s.toNat / 16 +
        (d.toNat % 16 + s.toNat % 16 + x.toNat + 6 * low.toNat) / 16) ∧
      (bcdAdd s d x).value =
        BitVec.ofInt 8 (d.toNat + s.toNat + x.toNat + 6 * low.toNat + 96 * high.toNat) ∧
      (bcdAdd s d x).carry = high := by
  have correction (p : Prop) [Decidable p] (k : ℕ) :
      (if p then k else 0) = k * (decide p).toNat := by
    by_cases p <;> simp [*]
  refine ⟨decide _, (bcdAdd s d x).carry, decide_eq_true_iff, ?_, ?_, rfl⟩
  · rw [← correction]
    exact decide_eq_true_iff
  · show BitVec.ofNat 8 (d.toNat + s.toNat + x.toNat + (if _ then 6 else 0) +
      if (bcdAdd s d x).carry then 0x60 else 0) = _
    rw [correction, correction, ← BitVec.ofInt_natCast, Bool.decide_eq_true]
    push_cast
    rfl

/-- A difference is that of the words, corrected for each digit that is borrowed.  There is said to
be a borrow, too, if the correction of the low digit borrows from the word. -/
theorem bcdSub_eq (s d : BitVec 8) (x : Bool) :
    ∃ low high : Bool, (low = true ↔ d.toNat % 16 < s.toNat % 16 + x.toNat) ∧
      (high = true ↔ d.toNat / 16 < s.toNat / 16 + low.toNat) ∧
      (bcdSub s d x).value =
        BitVec.ofInt 8 (d.toNat - s.toNat - x.toNat - 6 * low.toNat - 96 * high.toNat) ∧
      (bcdSub s d x).carry =
        (high || (low && decide ((d.toNat - s.toNat - x.toNat : ℤ) % 256 < 6))) := by
  have word : d - s - (BitVec.ofBool x).setWidth 8 =
      BitVec.ofInt 8 (d.toNat - s.toNat - x.toNat) := by
    rw [ofInt_sub, ofInt_sub, ← eq_ofInt, ← eq_ofInt, ← extend_eq_ofInt]
  have below : (BitVec.ofInt 8 (d.toNat - s.toNat - x.toNat)).toNat < 6 ↔
      (d.toNat - s.toNat - x.toNat : ℤ) % 256 < 6 := by
    have := toNat_ofInt (w := 8) (d.toNat - s.toNat - x.toNat)
    omega
  have six (b : Bool) : (if b then (6 : BitVec 8) else 0) = BitVec.ofInt 8 (6 * b.toNat) := by
    cases b <;> rfl
  have sixty (b : Bool) : (if b then (0x60 : BitVec 8) else 0) = BitVec.ofInt 8 (96 * b.toNat) := by
    cases b <;> rfl
  refine ⟨decide _, decide _, decide_eq_true_iff, decide_eq_true_iff, ?_, ?_⟩
  · unfold bcdSub
    dsimp only
    rw [six, sixty, word, ← ofInt_sub, ← ofInt_sub]
  · simp only [bcdSub, word, below]

section

variable {s d : BitVec 8} (hs : IsDecimal s) (hd : IsDecimal d) (x : Bool)
include hs hd

theorem bcdAdd_splits :
    Splits (decimal d + decimal s + x.toNat) (bcdAdd s d x).value (bcdAdd s d x).carry.toNat := by
  obtain ⟨low, high, lowCarry, highCarry, value, carry⟩ := bcdAdd_eq s d x
  obtain ⟨⟨hs, hs'⟩, hd, hd'⟩ := And.intro hs hd
  have hx := x.toNat_lt
  rw [value, carry]
  refine .of_digits (d.toNat / 16 + s.toNat / 16 + low.toNat - 10 * high.toNat)
    (d.toNat % 16 + s.toNat % 16 + x.toNat - 10 * low.toNat) high.toNat _ ?_ ?_ ?_ ?_
  · cases low <;> cases high <;> simp at lowCarry highCarry ⊢ <;> omega
  · cases low <;> simp at lowCarry ⊢ <;> omega
  · omega
  · unfold decimal
    push_cast
    omega

theorem bcdSub_splits :
    Splits (decimal d - decimal s - x.toNat) (bcdSub s d x).value
      (-(bcdSub s d x).carry.toNat) := by
  obtain ⟨low, high, lowBorrow, highBorrow, value, carry⟩ := bcdSub_eq s d x
  obtain ⟨⟨hs, hs'⟩, hd, hd'⟩ := And.intro hs hd
  have hx := x.toNat_lt
  -- where the low digit borrows and the high one does not, the low half of the word is six or more
  have borrow : (bcdSub s d x).carry = high := by
    rw [carry]
    cases low <;> cases high <;> simp at lowBorrow highBorrow ⊢
    omega
  rw [value, borrow]
  refine .of_digits (d.toNat / 16 - s.toNat / 16 - low.toNat + 10 * high.toNat)
    (d.toNat % 16 - s.toNat % 16 - x.toNat + 10 * low.toNat) (-high.toNat) _ ?_ ?_ ?_ ?_
  · cases low <;> cases high <;> simp at lowBorrow highBorrow ⊢ <;> omega
  · cases low <;> simp at lowBorrow ⊢ <;> omega
  · omega
  · unfold decimal
    push_cast
    omega

end

/-! ## Steps of a chain -/

/-- A decimal sum or difference with the extend flag, of a source and a destination. -/
def decimalSum (add : Bool) (pair : BitVec 8 × BitVec 8) (x : Bool) : DecimalSum :=
  if add then bcdAdd pair.1 pair.2 x else bcdSub pair.1 pair.2 x

/-- A decimal sum or difference as an instruction takes it, with the codes that it leaves. -/
def decimalStep (add : Bool) (pair : BitVec 8 × BitVec 8) (sr : StatusRegister) :
    BitVec 8 × StatusRegister :=
  let sum := decimalSum add pair (sr.has .x)
  (sum.value, bcdCodes sum sr)

theorem decimalSum_splits (add : Bool) {pair : BitVec 8 × BitVec 8} (hs : IsDecimal pair.1)
    (hd : IsDecimal pair.2) (x : Bool) :
    let sum := decimalSum add pair x
    Splits (combined add (decimal pair.1) (decimal pair.2) x.toNat) sum.value
      (combined add 0 0 sum.carry.toNat) := by
  cases add with
  | true => simpa [decimalSum, combined] using bcdAdd_splits hs hd x
  | false => simpa [decimalSum, combined] using bcdSub_splits hs hd x

section Has

variable (sum : DecimalSum) (sr : StatusRegister)

@[simp] theorem has_carry_bcdCodes : (bcdCodes sum sr).has .c = sum.carry := by
  simp [bcdCodes, StatusRegister.has_set_of_ne]

@[simp] theorem has_extend_bcdCodes : (bcdCodes sum sr).has .x = sum.carry := by
  simp [bcdCodes, StatusRegister.has_set_of_ne]

@[simp] theorem has_zero_bcdCodes : (bcdCodes sum sr).has .z = (sr.has .z && sum.value == 0) := by
  simp [bcdCodes]

theorem bcdCodes_system :
    bcdCodes sum sr &&& ~~~StatusRegister.codeMask = sr &&& ~~~StatusRegister.codeMask := by
  unfold bcdCodes
  repeat rw [set_system _ (by decide)]

end Has

/-! ## Long decimal numbers -/

/-- The number that bytes of decimal digits stand for, the least significant byte first. -/
def decimalNumber (bytes : List (BitVec 8)) : ℕ := Nat.ofDigits 100 (bytes.map decimal)

theorem decimalNumber_cons (byte : BitVec 8) (rest : List (BitVec 8)) :
    (decimalNumber (byte :: rest) : ℤ) = decimal byte + 100 * decimalNumber rest := by
  rw [decimalNumber, List.map_cons, Nat.ofDigits_cons, decimalNumber]
  push_cast
  rfl

/-- Whether a chain has found an integer: in so many bytes of digits, with what is above them as the
extend flag. -/
structure DecimalChained (n : ℕ) (total : ℤ) (sr : StatusRegister)
    (found : List (BitVec 8) × StatusRegister) : Prop where
  length : found.1.length = n
  digits : ∀ byte ∈ found.1, IsDecimal byte
  number : (decimalNumber found.1 : ℤ) = total % 100 ^ n
  extend : found.2.has .x = true ↔ total < 0 ∨ 100 ^ n ≤ total
  carry : 1 ≤ n → found.2.has .c = found.2.has .x
  zero : found.2.has .z = (sr.has .z && decide (total % 100 ^ n = 0))
  system : found.2 &&& ~~~StatusRegister.codeMask = sr &&& ~~~StatusRegister.codeMask

theorem emod_hundred_pow (total : ℤ) (n : ℕ) :
    total % 100 ^ (n + 1) = total % 100 + 100 * (total / 100 % 100 ^ n) := by
  rw [pow_succ', Int.emod_def, ← Int.ediv_ediv_of_nonneg (by norm_num), Int.emod_def (total / 100)]
  linear_combination -Int.emod_add_mul_ediv total 100

theorem hundred_pow_le (total : ℤ) (n : ℕ) : 100 ^ n ≤ total / 100 ↔ 100 ^ (n + 1) ≤ total := by
  rw [Int.le_ediv_iff_mul_le (by norm_num), pow_succ]

namespace DecimalChained

variable {n : ℕ} {total : ℤ} {sr : StatusRegister}

/-- One more byte below others that have found the quotient. -/
theorem cons {sum : DecimalSum} {found : List (BitVec 8) × StatusRegister}
    (digits : IsDecimal sum.value) (rest : (decimal sum.value : ℤ) = total % 100)
    (carries : found.1 = [] → found.2 = bcdCodes sum sr)
    (others : DecimalChained n (total / 100) (bcdCodes sum sr) found) :
    DecimalChained (n + 1) total sr (sum.value :: found.1, found.2) := by
  have whole := emod_hundred_pow total n
  have quotient := Int.emod_nonneg (total / 100) (show (100 : ℤ) ^ n ≠ 0 by positivity)
  refine ⟨by simp [others.length], ?_, ?_, ?_, fun _ => ?_, ?_, ?_⟩
  · intro byte mem
    rcases List.mem_cons.mp mem with rfl | mem
    · exact digits
    · exact others.digits byte mem
  · rw [decimalNumber_cons, others.number, rest, whole]
  · rw [others.extend, hundred_pow_le]
    omega
  · rcases n.eq_zero_or_pos with rfl | more
    · rw [carries (List.length_eq_zero_iff.mp others.length)]
      simp
    · exact others.carry more
  · have zero : sum.value = 0 ↔ total % 100 = 0 := by
      rw [← rest, ← BitVec.toNat_inj]
      unfold decimal
      simp
      omega
    have both : total % 100 ^ (n + 1) = 0 ↔ total % 100 = 0 ∧ total / 100 % 100 ^ n = 0 := by
      omega
    rw [others.zero, has_zero_bcdCodes, Bool.and_assoc, Bool.eq_iff_iff]
    simp only [Bool.and_eq_true, beq_iff_eq, decide_eq_true_iff, zero, both]
  · rw [others.system, bcdCodes_system]

end DecimalChained

/-- **Chains find long decimal sums and differences**, whatever the extend and zero flags are
before. -/
theorem decimalChained (add : Bool) (pairs : List (BitVec 8 × BitVec 8))
    (digits : ∀ pair ∈ pairs, IsDecimal pair.1 ∧ IsDecimal pair.2) (sr : StatusRegister) :
    DecimalChained pairs.length
      (combined add (decimalNumber (pairs.map Prod.fst)) (decimalNumber (pairs.map Prod.snd))
        (sr.has .x).toNat) sr (chain (decimalStep add) pairs sr) := by
  induction pairs generalizing sr with
  | nil =>
    have extend : combined add 0 0 (sr.has .x).toNat % 100 ^ 0 = 0 := by simp
    refine ⟨rfl, by simp [chain], extend.symm, ?_, by simp, by simp [chain], rfl⟩
    cases add <;> cases h : sr.has .x <;> simp [chain, combined, decimalNumber, h]
  | cons pair rest ih =>
    obtain ⟨hs, hd⟩ := digits pair List.mem_cons_self
    have first := decimalSum_splits add hs hd (sr.has .x)
    have others := ih (fun p mem => digits p (List.mem_cons_of_mem _ mem))
      (decimalStep add pair sr).2
    -- what the first byte leaves over is the extend flag with which the others start
    have leftover (s d : ℤ) (carry : Bool) :
        combined add s d carry.toNat = combined add 0 0 carry.toNat + combined add s d 0 := by
      cases add <;> simp only [combined] <;> simp <;> ring
    rw [decimalStep, has_extend_bcdCodes, leftover, first.carry,
      ← Int.add_mul_ediv_left _ _ (show (100 : ℤ) ≠ 0 by decide), ← combined_add_mul] at others
    rw [List.map_cons, List.map_cons, decimalNumber_cons, decimalNumber_cons, chain]
    refine others.cons first.digits ?_ fun none => ?_
    · rw [combined_add_mul, Int.add_mul_emod_self_left, first.value]
    · have nil : rest = [] :=
        List.length_eq_zero_iff.mp (others.length.symm.trans (congrArg List.length none))
      rw [nil]
      rfl

/-! ## Long sums, differences and complements -/

/-- Whether a chain has given an integer in so many bytes of decimal digits, with codes that
describe the whole number: carry and extend flag are the carry or borrow out of the last byte, and
the zero flag says whether all digits are zero. -/
structure DecimalResult (n : ℕ) (total : ℤ) (sr : StatusRegister)
    (found : List (BitVec 8) × StatusRegister) : Prop where
  length : found.1.length = n
  digits : ∀ byte ∈ found.1, IsDecimal byte
  number : (decimalNumber found.1 : ℤ) = total % 10 ^ (2 * n)
  carry : found.2.has .c = true ↔ total < 0 ∨ 10 ^ (2 * n) ≤ total
  extend : found.2.has .x = found.2.has .c
  zero : found.2.has .z = true ↔ decimalNumber found.1 = 0
  system : found.2 &&& ~~~StatusRegister.codeMask = sr &&& ~~~StatusRegister.codeMask

/-- A chain that starts with the zero flag set says in the end whether the number is zero. -/
theorem DecimalChained.result {n : ℕ} (hn : 1 ≤ n) {total : ℤ} {sr : StatusRegister}
    {found : List (BitVec 8) × StatusRegister} (chained : DecimalChained n total sr found)
    (zero : sr.has .z = true) : DecimalResult n total sr found := by
  have range : (10 : ℤ) ^ (2 * n) = 100 ^ n := by rw [pow_mul]; norm_num
  refine ⟨chained.length, chained.digits, ?_, ?_, (chained.carry hn).symm, ?_, chained.system⟩
  · rw [range, chained.number]
  · rw [range, chained.carry hn, chained.extend]
  · rw [chained.zero, zero, Bool.true_and, decide_eq_true_iff, ← chained.number, Nat.cast_eq_zero]

theorem decimalNumber_zeros (n : ℕ) : decimalNumber (List.replicate n 0#8) = 0 := by
  rw [decimalNumber, List.map_replicate]
  exact Nat.ofDigits_replicate_zero

/-- **Decimal chains are exact.**  Byte by byte, starting with the extend flag clear and the zero
flag set, long decimal numbers are added, subtracted and complemented as they would be in one
piece. -/
theorem decimal_chains_exact {n : ℕ} (hn : 1 ≤ n) (src dst : List (BitVec 8))
    (hs : src.length = n) (hd : dst.length = n) (digits : ∀ byte ∈ src ++ dst, IsDecimal byte)
    {sr : StatusRegister} (extend : sr.has .x = false) (zero : sr.has .z = true) :
    let s := decimalNumber src
    let d := decimalNumber dst
    DecimalResult n (d + s) sr (chain (decimalStep true) (src.zip dst) sr) ∧
      DecimalResult n (d - s) sr (chain (decimalStep false) (src.zip dst) sr) ∧
      DecimalResult n (-d) sr (chain (fun byte => decimalStep false (byte, 0)) dst sr) := by
  intro s d
  have pairs : ∀ pair ∈ src.zip dst, IsDecimal pair.1 ∧ IsDecimal pair.2 := fun pair mem =>
    ⟨digits _ (List.mem_append_left _ (List.of_mem_zip mem).1),
      digits _ (List.mem_append_right _ (List.of_mem_zip mem).2)⟩
  have zipped (add : Bool) :
      DecimalResult n (combined add s d 0) sr (chain (decimalStep add) (src.zip dst) sr) := by
    have chained := decimalChained add (src.zip dst) pairs sr
    rw [extend, List.length_zip, hs, hd, Nat.min_self, List.map_fst_zip (by omega),
      List.map_snd_zip (by omega)] at chained
    exact chained.result hn zero
  have complement : DecimalResult n (-d) sr
      (chain (fun byte => decimalStep false (byte, 0)) dst sr) := by
    have chained := decimalChained false (dst.map fun byte => (byte, 0)) (by simpa using
      fun byte mem => ⟨digits byte (List.mem_append_right _ mem), by decide⟩) sr
    rw [chain_map, extend, List.length_map, hd, List.map_map, List.map_map] at chained
    refine DecimalChained.result hn ?_ zero
    simpa [combined, Function.comp_def, decimalNumber_zeros] using chained
  refine ⟨?_, ?_, complement⟩
  · simpa [combined] using zipped true
  · simpa [combined] using zipped false

/-- 9905 and 96: the low byte of the sum carries and is 1, and the difference from 96 borrows. -/
theorem decimal_chains_exact_carry :
    let src : List (BitVec 8) := [0x05, 0x99]
    let dst : List (BitVec 8) := [0x96, 0x00]
    let sr : StatusRegister := 0x2704
    (1 ≤ 2 ∧ src.length = 2 ∧ dst.length = 2 ∧ (∀ byte ∈ src ++ dst, IsDecimal byte) ∧
        sr.has .x = false ∧ sr.has .z = true) ∧
      chain (decimalStep true) (src.zip dst) sr = ([0x01, 0x00], 0x2711) ∧
      DecimalResult 2 10001 sr (chain (decimalStep true) (src.zip dst) sr) ∧
      DecimalResult 2 (-9809) sr (chain (decimalStep false) (src.zip dst) sr) ∧
      DecimalResult 2 (-96) sr (chain (fun byte => decimalStep false (byte, 0)) dst sr) :=
  ⟨by decide, by decide,
    decimal_chains_exact (by decide) [0x05, 0x99] [0x96, 0x00] rfl rfl (by decide) (by decide)
      (by decide)⟩

end Alu

/-! ## Instructions -/

open MachineM

/-- A decimal sum or difference of two data registers is one step of a chain. -/
theorem Execution.bcd_registers {β : Type} [Bus β] (add : Bool) (rx ry : RegisterNumber)
    (m : Machine β) :
    let rs := m.cpu.registers
    let found := Alu.decimalStep add ((rs.data ry).setWidth 8, (rs.data rx).setWidth 8) rs.sr
    Execution.bcd add rx ry false m =
      (.ok (), m.withRegisters ((rs.setData rx
        (Size.byte.insert (rs.data rx) (found.1.setWidth 32))).setCodes found.2)) := by
  have byte (value : BitVec 32) : (Size.byte.truncate value).setWidth 8 = value.setWidth 8 := by
    show ((value.setWidth 8).setWidth 32).setWidth 8 = _
    rw [BitVec.setWidth_setWidth_of_le _ (by decide), BitVec.setWidth_eq]
  have loads : load .byte (.dataReg rx) m =
      (.ok (Size.byte.truncate (m.cpu.registers.data rx)), m) :=
    rfl
  unfold Execution.bcd
  rw [bind_ok (show Execution.pairOperands .byte rx ry false m = (.ok (_, _), m) from rfl)]
  dsimp only
  rw [bind_ok loads, byte]
  cases add <;> rfl

end M68k
