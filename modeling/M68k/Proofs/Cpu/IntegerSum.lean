import M68k.Cpu.Alu
import Mathlib.Tactic

/-!
# Sums and differences as integers

The adder reads carry and overflow off the top bits of operands and result.  Both are facts about
integers: there is a carry or borrow if the sum or difference of the operands as unsigned numbers is
none itself, and an overflow if the same holds of signed numbers.  So the conditions tested after a
comparison are the unsigned and the signed order of its operands.

* `addCarry_eq`, `subBorrow_eq` — what the adder finds, from the integers;
* `condition_iff_holds` — what the sixteen conditions say after a comparison;
* `add_sub_cmp_integers` — sums, differences and comparisons with all their codes.
-/

namespace M68k

/-- Whether condition codes describe an integer that had to go into `w` bits.  The integer is given
twice, as computed from unsigned and from signed operands. -/
structure StatusRegister.Reports (w : ℕ) (unsigned signed : ℤ) (sr : StatusRegister) : Prop where
  carry : sr.has .c = true ↔ unsigned < 0 ∨ 2 ^ w ≤ unsigned
  overflow : sr.has .v = true ↔ signed < -2 ^ (w - 1) ∨ 2 ^ (w - 1) ≤ signed
  zero : sr.has .z = true ↔ unsigned % 2 ^ w = 0
  negative : sr.has .n = true ↔ 2 ^ (w - 1) ≤ unsigned % 2 ^ w

namespace Alu

variable {w : ℕ}

/-! ## Words as integers -/

theorem toNat_ofInt (u : ℤ) : ((BitVec.ofInt w u).toNat : ℤ) = u % 2 ^ w := by
  rw [BitVec.toNat_ofInt, Int.toNat_of_nonneg (Int.emod_nonneg _ (by positivity))]
  push_cast
  rfl

theorem ofInt_eq_zero_iff (u : ℤ) : BitVec.ofInt w u = 0 ↔ u % 2 ^ w = 0 := by
  rw [← BitVec.toNat_inj, ← toNat_ofInt]
  simp

theorem msb_ofInt_iff (u : ℤ) : (BitVec.ofInt w u).msb = true ↔ 2 ^ (w - 1) ≤ u % 2 ^ w := by
  rw [BitVec.msb_eq_decide, decide_eq_true_iff, ← toNat_ofInt, ← Nat.cast_le (α := ℤ)]
  push_cast
  rfl

theorem eq_ofInt (a : BitVec w) : a = BitVec.ofInt w a.toNat := by
  rw [BitVec.ofInt_natCast, BitVec.ofNat_toNat, BitVec.setWidth_eq]

theorem ofInt_sub (a b : ℤ) : BitVec.ofInt w (a - b) = BitVec.ofInt w a - BitVec.ofInt w b := by
  rw [BitVec.sub_eq_add_neg, ← BitVec.ofInt_neg, ← BitVec.ofInt_add, sub_eq_add_neg]

/-- The word that a carry adds. -/
theorem extend_eq_ofInt (x : Bool) : (BitVec.ofBool x).setWidth w = BitVec.ofInt w x.toNat := by
  apply BitVec.eq_of_toNat_eq
  rw [BitVec.ofInt_natCast, BitVec.toNat_setWidth, BitVec.toNat_ofBool, BitVec.toNat_ofNat]

/-- Half of the range, which the top bit stands for. -/
theorem exists_half (hw : 1 ≤ w) :
    ∃ h : ℕ, 2 ^ (w - 1) = h ∧ 2 ^ w = 2 * h ∧ (2 : ℤ) ^ (w - 1) = h ∧ (2 : ℤ) ^ w = 2 * h := by
  have whole : 2 ^ w = 2 * 2 ^ (w - 1) := by rw [← pow_succ', Nat.sub_add_cancel hw]
  exact ⟨2 ^ (w - 1), rfl, whole, by push_cast; rfl, by exact_mod_cast whole⟩

theorem toInt_cases {h : ℕ} (whole : 2 ^ w = 2 * h) (a : BitVec w) :
    a.toInt = a.toNat ∧ a.toNat < h ∨
      a.toInt = a.toNat - 2 * h ∧ h ≤ a.toNat ∧ a.toNat < 2 * h := by
  have bound : a.toNat < 2 * h := whole ▸ a.isLt
  rw [BitVec.toInt_eq_toNat_cond, whole]
  split_ifs
  · exact .inl ⟨rfl, by omega⟩
  · exact .inr ⟨by push_cast; rfl, by omega, bound⟩

/-- An integer that is out of a range by no more than the range is long. -/
theorem emod_cases (total k : ℤ) (low : -k ≤ total) (high : total < 2 * k) :
    total % k = total ∧ 0 ≤ total ∧ total < k ∨ total % k = total - k ∧ k ≤ total ∨
      total % k = total + k ∧ total < 0 := by
  rcases lt_or_ge total 0 with negative | nonneg
  · refine .inr (.inr ⟨?_, negative⟩)
    rw [← Int.add_emod_right, Int.emod_eq_of_lt (by omega) (by omega)]
  rcases lt_or_ge total k with inside | above
  · exact .inl ⟨Int.emod_eq_of_lt nonneg inside, nonneg, inside⟩
  · refine .inr (.inl ⟨?_, above⟩)
    rw [← Int.sub_emod_right, Int.emod_eq_of_lt (by omega) (by omega)]

/-- The word that holds an integer out of its range by no more than the range is long. -/
theorem toNat_cases {h : ℕ} (whole : 2 ^ w = 2 * h) {r : BitVec w} {total : ℤ}
    (value : r = BitVec.ofInt w total) (low : -(2 * h) ≤ total) (high : total < 2 * (2 * h)) :
    (r.toNat : ℤ) = total ∧ 0 ≤ total ∧ total < 2 * h ∨
      (r.toNat : ℤ) = total - 2 * h ∧ 2 * h ≤ total ∨
      (r.toNat : ℤ) = total + 2 * h ∧ total < 0 := by
  have range : (2 : ℤ) ^ w = 2 * h := by exact_mod_cast whole
  rw [value, toNat_ofInt, range]
  exact emod_cases total (2 * h) low high

/-! ## The adder -/

/-- An integer in `w` bits, and whether it lies outside of the unsigned and the signed numbers. -/
def Sum.ofInt (w : ℕ) (unsigned signed : ℤ) : Sum w where
  value := BitVec.ofInt w unsigned
  carry := decide (unsigned < 0 ∨ 2 ^ w ≤ unsigned)
  overflow := decide (signed < -2 ^ (w - 1) ∨ 2 ^ (w - 1) ≤ signed)

section

variable (hw : 1 ≤ w) (s d : BitVec w) (x : Bool)
include hw

/-- What the adder finds is the sum of the integers. -/
theorem addCarry_eq :
    addCarry s d x = .ofInt w (d.toNat + s.toNat + x.toNat) (d.toInt + s.toInt + x.toNat) := by
  have value : (addCarry s d x).value = BitVec.ofInt w (d.toNat + s.toNat + x.toNat) := by
    rw [BitVec.ofInt_add, BitVec.ofInt_add, ← eq_ofInt, ← eq_ofInt, ← extend_eq_ofInt,
      BitVec.add_comm d]
    rfl
  obtain ⟨h, half, whole, half', whole'⟩ := exists_half hw
  have hx := x.toNat_lt
  have hs := toInt_cases whole s
  have hd := toInt_cases whole d
  have hr := toNat_cases whole value (by omega) (by omega)
  rw [Sum.ofInt, ← value, half', whole']
  simp only [addCarry, Sum.mk.injEq, BitVec.msb_eq_decide, half] at hr ⊢
  refine ⟨trivial, Bool.eq_iff_iff.mpr ?_, Bool.eq_iff_iff.mpr ?_⟩
  · simp only [Bool.or_eq_true, Bool.and_eq_true, Bool.not_eq_true', decide_eq_true_iff,
      decide_eq_false_iff_not]
    omega
  · simp only [Bool.and_eq_true, bne_iff_ne, ne_eq, decide_eq_decide, decide_eq_true_iff]
    omega

/-- And likewise the difference. -/
theorem subBorrow_eq :
    subBorrow s d x = .ofInt w (d.toNat - s.toNat - x.toNat) (d.toInt - s.toInt - x.toNat) := by
  have value : (subBorrow s d x).value = BitVec.ofInt w (d.toNat - s.toNat - x.toNat) := by
    rw [ofInt_sub, ofInt_sub, ← eq_ofInt, ← eq_ofInt, ← extend_eq_ofInt]
    rfl
  obtain ⟨h, half, whole, half', whole'⟩ := exists_half hw
  have hx := x.toNat_lt
  have hs := toInt_cases whole s
  have hd := toInt_cases whole d
  have hr := toNat_cases whole value (by omega) (by omega)
  rw [Sum.ofInt, ← value, half', whole']
  simp only [subBorrow, Sum.mk.injEq, BitVec.msb_eq_decide, half] at hr ⊢
  refine ⟨trivial, Bool.eq_iff_iff.mpr ?_, Bool.eq_iff_iff.mpr ?_⟩
  · simp only [Bool.or_eq_true, Bool.and_eq_true, Bool.not_eq_true', decide_eq_true_iff,
      decide_eq_false_iff_not]
    omega
  · simp only [Bool.and_eq_true, bne_iff_ne, ne_eq, decide_eq_decide, decide_eq_true_iff]
    omega

end

/-! ## Condition codes -/

/-- Setting a condition code keeps the bits that are none. -/
theorem set_system (sr : StatusRegister) {flag : Flag} (code : flag.position < 5) (value : Bool) :
    sr.set flag value &&& ~~~StatusRegister.codeMask = sr &&& ~~~StatusRegister.codeMask := by
  have among : (1#16 <<< flag.position) &&& ~~~StatusRegister.codeMask = 0 ∧
      ~~~(1#16 <<< flag.position) &&& ~~~StatusRegister.codeMask = ~~~StatusRegister.codeMask := by
    cases flag <;> first | decide | simp [Flag.position] at code
  unfold StatusRegister.set
  split
  · rw [BitVec.and_or_distrib_right, among.1]
    exact BitVec.or_zero
  · rw [BitVec.and_assoc, among.2]

theorem sumCodes_system (sum : Sum w) (sr : StatusRegister) :
    sumCodes sum sr &&& ~~~StatusRegister.codeMask = sr &&& ~~~StatusRegister.codeMask := by
  unfold sumCodes
  repeat rw [set_system _ (by decide)]

/-- Codes taken from the parts of an integer describe it. -/
theorem reports_ofInt {sr : StatusRegister} (unsigned signed : ℤ) :
    let sum := Sum.ofInt w unsigned signed
    sr.has .c = sum.carry → sr.has .v = sum.overflow → sr.has .z = (sum.value == 0) →
      sr.has .n = sum.value.msb → sr.Reports w unsigned signed := by
  intro sum carry overflow zero negative
  refine ⟨?_, ?_, ?_, ?_⟩
  · rw [carry]
    exact decide_eq_true_iff
  · rw [overflow]
    exact decide_eq_true_iff
  · rw [zero, beq_iff_eq]
    exact ofInt_eq_zero_iff unsigned
  · rw [negative]
    exact msb_ofInt_iff unsigned

/-- The codes of a sum or difference describe the integer. -/
theorem sumCodes_reports (unsigned signed : ℤ) (sr : StatusRegister) :
    (sumCodes (.ofInt w unsigned signed) sr).Reports w unsigned signed := by
  apply reports_ofInt <;> simp [sumCodes, StatusRegister.has_set_of_ne]

theorem sumCodes_extend (sum : Sum w) (sr : StatusRegister) :
    (sumCodes sum sr).has .x = (sumCodes sum sr).has .c := by
  simp [sumCodes, StatusRegister.has_set_of_ne]

/-! ## Conditions -/

/-- The sixteen conditions that instructions test. -/
inductive Condition where
  | always
  | never
  | higher
  | lowerOrSame
  | higherOrSame
  | lower
  | notEqual
  | equal
  | overflowClear
  | overflowSet
  | plus
  | minus
  | greaterOrEqual
  | less
  | greater
  | lessOrEqual
  deriving DecidableEq, Repr

namespace Condition

/-- The four bits by which an instruction names a condition. -/
def code : Condition → BitVec 4
  | always => 0x0
  | never => 0x1
  | higher => 0x2
  | lowerOrSame => 0x3
  | higherOrSame => 0x4
  | lower => 0x5
  | notEqual => 0x6
  | equal => 0x7
  | overflowClear => 0x8
  | overflowSet => 0x9
  | plus => 0xA
  | minus => 0xB
  | greaterOrEqual => 0xC
  | less => 0xD
  | greater => 0xE
  | lessOrEqual => 0xF

/-- What a condition says of `d` in comparison with `s`: "high" and "low" are about unsigned
numbers, "greater" and "less" about signed ones, and the rest about their difference. -/
def Holds (s d : BitVec w) : Condition → Prop
  | always => True
  | never => False
  | higher => s.toNat < d.toNat
  | lowerOrSame => d.toNat ≤ s.toNat
  | higherOrSame => s.toNat ≤ d.toNat
  | lower => d.toNat < s.toNat
  | notEqual => d ≠ s
  | equal => d = s
  | overflowClear => -2 ^ (w - 1) ≤ d.toInt - s.toInt ∧ d.toInt - s.toInt < 2 ^ (w - 1)
  | overflowSet => d.toInt - s.toInt < -2 ^ (w - 1) ∨ 2 ^ (w - 1) ≤ d.toInt - s.toInt
  | plus => (d - s).msb = false
  | minus => (d - s).msb = true
  | greaterOrEqual => s.toInt ≤ d.toInt
  | less => d.toInt < s.toInt
  | greater => s.toInt < d.toInt
  | lessOrEqual => d.toInt ≤ s.toInt

/-- The formula over carry, overflow, zero and negative by which a condition is tested. -/
def Formula (c v z n : Bool) : Condition → Prop
  | always => True
  | never => False
  | higher => ¬ c ∧ ¬ z
  | lowerOrSame => c ∨ z
  | higherOrSame => ¬ c
  | lower => c
  | notEqual => ¬ z
  | equal => z
  | overflowClear => ¬ v
  | overflowSet => v
  | plus => ¬ n
  | minus => n
  | greaterOrEqual => n = v
  | less => n ≠ v
  | greater => ¬ z ∧ n = v
  | lessOrEqual => z ∨ n ≠ v

theorem holds_code (condition : Condition) (c v z n : Bool) :
    StatusRegister.holds condition.code c v z n = true ↔ condition.Formula c v z n := by
  cases condition <;> simp [code, StatusRegister.holds, Formula]

end Condition

/-- **Conditions are orders.**  Where the codes describe a difference, each condition holds of the
operands just if the test of its formula succeeds. -/
theorem condition_iff_holds (hw : 1 ≤ w) {s d : BitVec w} {sr : StatusRegister}
    (reports : sr.Reports w (d.toNat - s.toNat) (d.toInt - s.toInt)) (condition : Condition) :
    sr.condition condition.code = true ↔ condition.Holds s d := by
  obtain ⟨carry, overflow, zero, negative⟩ := reports
  obtain ⟨h, -, whole, half, full⟩ := exists_half hw
  have hs := toInt_cases whole s
  have hd := toInt_cases whole d
  have total := emod_cases (d.toNat - s.toNat) (2 * h) (by omega) (by omega)
  have minus : (d - s).msb = sr.has .n := by
    rw [Bool.eq_iff_iff, negative, ← msb_ofInt_iff, ofInt_sub, ← eq_ofInt, ← eq_ofInt]
  -- the sign of the difference is wrong just if it overflows
  have signs : sr.has .n = sr.has .v ↔ s.toInt ≤ d.toInt := by
    rw [Bool.eq_iff_iff, negative, overflow, full, half]
    omega
  rw [full] at carry zero
  rw [half] at overflow
  rw [StatusRegister.condition, Condition.holds_code]
  cases condition <;>
    simp only [Condition.Formula, Condition.Holds, carry, overflow, zero, minus, signs, ne_eq,
      ← BitVec.toNat_inj, half, Bool.not_eq_true]
  all_goals omega

/-! ## Instructions' sums, differences and comparisons -/

theorem one_le_bits (size : Size) : 1 ≤ size.bits := by cases size <;> decide

/-- A result as a 32-bit word has no bits above the size. -/
theorem toNat_result (size : Size) (unsigned signed : ℤ) :
    ((((Sum.ofInt size.bits unsigned signed).value.setWidth 32).toNat : ℕ) : ℤ) =
      unsigned % 2 ^ size.bits := by
  rw [BitVec.toNat_setWidth_of_le size.bits_le, Sum.ofInt, toNat_ofInt]

theorem add_eq (size : Size) (src dst : BitVec 32) (sr : StatusRegister) :
    let s := size.part src
    let d := size.part dst
    let sum := Sum.ofInt size.bits (d.toNat + s.toNat) (d.toInt + s.toInt)
    add size src dst sr = (sum.value.setWidth 32, sumCodes sum sr) := by
  simp [add, addCarry_eq (one_le_bits size)]

theorem sub_eq (size : Size) (src dst : BitVec 32) (sr : StatusRegister) :
    let s := size.part src
    let d := size.part dst
    let sum := Sum.ofInt size.bits (d.toNat - s.toNat) (d.toInt - s.toInt)
    sub size src dst sr = (sum.value.setWidth 32, sumCodes sum sr) := by
  simp [sub, subBorrow_eq (one_le_bits size)]

/-- A comparison leaves the codes of the difference, but for the extend flag. -/
theorem has_cmp {flag : Flag} (other : flag ≠ .x) (size : Size) (src dst : BitVec 32)
    (sr : StatusRegister) : (cmp size src dst sr).has flag = (sub size src dst sr).2.has flag :=
  StatusRegister.has_set_of_ne _ other _

/-- **Sums, differences and comparisons are those of integers.**  Results are cut to the size,
whatever stands above it in the operands.  Carry and extend flag say whether the unsigned numbers
have left the range, overflow whether the signed ones have, and zero and negative describe the
result; a comparison keeps the extend flag.  No other bit changes, and each of the sixteen
conditions tested after a comparison says of the operands what its name says. -/
theorem add_sub_cmp_integers (size : Size) (src dst : BitVec 32) (sr : StatusRegister) :
    let w := size.bits
    let s := size.part src
    let d := size.part dst
    let (sum, added) := add size src dst sr
    let (difference, subtracted) := sub size src dst sr
    let compared := cmp size src dst sr
    let system := ~~~StatusRegister.codeMask
    ((sum.toNat : ℤ) = (d.toNat + s.toNat) % 2 ^ w ∧
        added.Reports w (d.toNat + s.toNat) (d.toInt + s.toInt) ∧
        added.has .x = added.has .c ∧ added &&& system = sr &&& system) ∧
      ((difference.toNat : ℤ) = (d.toNat - s.toNat) % 2 ^ w ∧
        subtracted.Reports w (d.toNat - s.toNat) (d.toInt - s.toInt) ∧
        subtracted.has .x = subtracted.has .c ∧ subtracted &&& system = sr &&& system) ∧
      (compared.Reports w (d.toNat - s.toNat) (d.toInt - s.toInt) ∧
        (∀ flag, flag ≠ .x → compared.has flag = subtracted.has flag) ∧
        compared.has .x = sr.has .x ∧ compared &&& system = sr &&& system) ∧
      ∀ condition : Condition,
        compared.condition condition.code = true ↔ condition.Holds s d := by
  intro w s d
  have kept : ∀ flag, flag ≠ .x →
      (cmp size src dst sr).has flag = (sub size src dst sr).2.has flag :=
    fun flag other => has_cmp other size src dst sr
  have system : cmp size src dst sr &&& ~~~StatusRegister.codeMask =
      (sub size src dst sr).2 &&& ~~~StatusRegister.codeMask := set_system _ (by decide) _
  have reports := sumCodes_reports (w := w) (d.toNat - s.toNat) (d.toInt - s.toInt) sr
  have difference := sub_eq size src dst sr
  dsimp only at difference
  rw [add_eq]
  rw [difference] at kept system ⊢
  have compared : (cmp size src dst sr).Reports w (d.toNat - s.toNat) (d.toInt - s.toInt) := by
    obtain ⟨carry, overflow, zero, negative⟩ := reports
    constructor
    · rwa [kept .c (by decide)]
    · rwa [kept .v (by decide)]
    · rwa [kept .z (by decide)]
    · rwa [kept .n (by decide)]
  refine ⟨⟨toNat_result size _ _, sumCodes_reports _ _ sr, sumCodes_extend _ sr,
    sumCodes_system _ sr⟩, ⟨toNat_result size _ _, reports, sumCodes_extend _ sr,
    sumCodes_system _ sr⟩, ⟨compared, kept, ?_, ?_⟩,
    condition_iff_holds (one_le_bits size) compared⟩
  · exact StatusRegister.has_set_self _ _ _
  · exact system.trans (sumCodes_system _ sr)

end Alu

end M68k
