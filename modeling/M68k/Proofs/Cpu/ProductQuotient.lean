import M68k.Proofs.Cpu.Call
import M68k.Proofs.Cpu.IntegerSum
import M68k.Proofs.Cpu.Ram

/-!
# Exact products and quotients

A product or quotient is exact if it fits its registers, and overflow says that it does not.  A
quotient that does not fit, or a division by zero, leaves the registers as they were.  All forms of
the instructions end in the same two ways of writing a result, which differ by the registers that
they write.

* `quotient?_eq` — the quotient that is reported, and when none is;
* `Divided.of_finish`, `Multiplied.of_finish` — what is written, with all codes;
* `multiplication_division_exact` — word and long forms on any operand.
-/

namespace M68k

/-- Quotient and remainder of a division that rounds toward zero. -/
structure IsDivision (dividend divisor q r : ℤ) : Prop where
  equation : dividend = q * divisor + r
  small : |r| < |divisor|
  sign : r = 0 ∨ r.sign = dividend.sign

/-- The numbers of `w` bits. -/
def InRange (signed : Bool) (w : ℕ) (n : ℤ) : Prop :=
  if signed then -2 ^ (w - 1) ≤ n ∧ n < 2 ^ (w - 1) else 0 ≤ n ∧ n < 2 ^ w

instance (signed : Bool) (w : ℕ) (n : ℤ) : Decidable (InRange signed w n) :=
  inferInstanceAs (Decidable (if signed = true then _ else _))

/-- Whether condition codes describe a value that was computed. -/
structure StatusRegister.Describes {w : ℕ} (value : BitVec w) (overflow : Prop)
    (before after : StatusRegister) : Prop where
  negative : after.has .n = value.msb
  zero : after.has .z = true ↔ value = 0
  overflow : after.has .v = true ↔ overflow
  carry : after.has .c = false
  extend : after.has .x = before.has .x

/-- Registers and condition codes have been written, and nothing else has changed but the cycles. -/
structure Machine.Computes {β : Type} (m : Machine β) (written : Registers) (m' : Machine β) :
    Prop where
  only : m' = ⟨{ m.cpu with
    registers := { written with sr := m'.cpu.registers.sr }
    cycles := m'.cpu.cycles }, m.bus⟩
  system : m'.cpu.registers.sr &&& ~~~StatusRegister.codeMask =
    m.cpu.registers.sr &&& ~~~StatusRegister.codeMask
  /-- The longest division takes so many. -/
  cycles : m'.cpu.cycles ≤ m.cpu.cycles + 156

namespace Execution

open MachineM

variable {β : Type}

/-- A division of the numbers in `w` bits, from the machine that has found the divisor on. -/
structure Divided [Bus β] (signed : Bool) (w : ℕ) (dividend divisor : ℤ)
    (write : BitVec w → BitVec w → Registers → Registers) (m : Machine β)
    (result : Except Fault Unit × Machine β) : Prop where
  /-- The exception returns behind the instruction. -/
  zero : divisor = 0 → result.1 = .error (.trap .zeroDivide) ∧
    m.Computes m.cpu.registers result.2 ∧
    Handling.handle (.trap .zeroDivide) result.2 =
      Handling.handleException .zeroDivide m.cpu.registers.pc result.2
  overflow : divisor ≠ 0 → ¬InRange signed w (dividend.tdiv divisor) → result.1 = .ok () ∧
    result.2.cpu.registers.sr.has .v = true ∧ m.Computes m.cpu.registers result.2
  exact : divisor ≠ 0 → InRange signed w (dividend.tdiv divisor) → result.1 = .ok () ∧
    ∃ quotient remainder : BitVec w,
      number signed quotient = dividend.tdiv divisor ∧
      IsDivision dividend divisor (number signed quotient) (number signed remainder) ∧
      m.cpu.registers.sr.Describes quotient False result.2.cpu.registers.sr ∧
      m.Computes (write quotient remainder m.cpu.registers) result.2

/-- A multiplication of numbers into `w` bits. -/
def Multiplied (signed : Bool) (w : ℕ) (product : ℤ) (write : BitVec w → Registers → Registers)
    (m : Machine β) (result : Except Fault Unit × Machine β) : Prop :=
  let value := BitVec.ofInt w product
  result.1 = .ok () ∧ (InRange signed w product → number signed value = product) ∧
    m.cpu.registers.sr.Describes value (¬InRange signed w product) result.2.cpu.registers.sr ∧
    m.Computes (write value m.cpu.registers) result.2

/-! ## Numbers -/

variable {w : ℕ}

theorem inRange_number (signed : Bool) (value : BitVec w) :
    InRange signed w (number signed value) := by
  cases signed
  · have bound : (value.toNat : ℤ) < 2 ^ w := by exact_mod_cast value.isLt
    exact ⟨Int.natCast_nonneg _, bound⟩
  · exact ⟨BitVec.le_toInt value, BitVec.toInt_lt⟩

theorem number_eq_zero_iff (signed : Bool) (value : BitVec w) :
    number signed value = 0 ↔ value = 0 := by
  cases signed
  · rw [← BitVec.toNat_inj]
    exact Int.natCast_eq_zero
  · rw [← BitVec.toInt_inj, BitVec.ofNat_eq_ofNat, BitVec.toInt_zero]
    rfl

theorem number_nonneg {signed : Bool} (unsigned : signed = false) (value : BitVec w) :
    0 ≤ number signed value := by
  subst unsigned
  exact Int.natCast_nonneg _

theorem number_ofInt (hw : 1 ≤ w) {signed : Bool} {n : ℤ} (range : InRange signed w n) :
    number signed (BitVec.ofInt w n) = n := by
  cases signed
  · obtain ⟨low, high⟩ := range
    exact (Alu.toNat_ofInt n).trans (Int.emod_eq_of_lt low high)
  · exact BitVec.toInt_ofInt_eq_self hw range.1 range.2

/-- A number of less magnitude than one in the range, of no other sign where there is none. -/
theorem inRange_of_small {signed : Bool} {n bound : ℤ} (range : InRange signed w bound)
    (small : |n| < |bound|) (nonneg : signed = false → 0 ≤ n) : InRange signed w n := by
  cases signed
  · obtain ⟨low, high⟩ := range
    rw [abs_of_nonneg low, abs_of_nonneg (nonneg rfl)] at small
    exact ⟨nonneg rfl, small.trans high⟩
  · obtain ⟨low, high⟩ := range
    have magnitude : |bound| ≤ 2 ^ (w - 1) := abs_le.mpr ⟨low, high.le⟩
    obtain ⟨below, above⟩ := abs_lt.mp (small.trans_le magnitude)
    exact ⟨below.le, above⟩

theorem isDivision_tdiv (dividend : ℤ) {divisor : ℤ} (nonzero : divisor ≠ 0) :
    IsDivision dividend divisor (dividend.tdiv divisor) (dividend.tmod divisor) := by
  refine ⟨(Int.tdiv_mul_add_tmod dividend divisor).symm, ?_, ?_⟩
  · rw [Int.abs_eq_natAbs, Int.abs_eq_natAbs, Int.natAbs_tmod, Nat.cast_lt]
    exact Nat.mod_lt _ (Int.natAbs_pos.mpr nonzero)
  · rw [Int.sign_tmod]
    split_ifs with divides
    · exact .inl (Int.tmod_eq_zero_of_dvd divides)
    · exact .inr rfl

/-- A quotient is reported just if it is in the range. -/
theorem quotient?_eq (signed : Bool) (w : ℕ) {dividend divisor : ℤ}
    (nonneg : signed = false → 0 ≤ dividend ∧ 0 ≤ divisor) :
    quotient? signed w dividend divisor =
      if InRange signed w (dividend.tdiv divisor) then
        some (BitVec.ofInt w (dividend.tdiv divisor), BitVec.ofInt w (dividend.tmod divisor))
      else none := by
  cases signed
  · have low := Int.tdiv_nonneg (nonneg rfl).1 (nonneg rfl).2
    simp [quotient?, InRange, low]
  · simp [quotient?, InRange]

/-! ## Cycles -/

theorem divisionSteps_le (divisor : BitVec 32) (steps : ℕ) (rest : BitVec 32) :
    Timing.divisionSteps divisor steps rest ≤ 2 * steps := by
  induction steps generalizing rest with
  | zero => exact le_rfl
  | succ steps ih =>
    rw [Timing.divisionSteps]
    split_ifs
    · have := ih (rest <<< 1 - divisor)
      omega
    · have := ih (rest <<< 1 - divisor)
      omega
    · have := ih (rest <<< 1)
      omega

theorem division_cycles_le (signed : Bool) (dividend : BitVec 32) (divisor : BitVec 16) :
    (if signed then Timing.signedDivision dividend divisor
      else Timing.unsignedDivision dividend divisor) ≤ 156 := by
  cases signed
  · have steps := divisionSteps_le (divisor.setWidth 32 <<< 16) 15 dividend
    simp only [Timing.unsignedDivision, Bool.false_eq_true, if_false]
    split_ifs <;> omega
  · simp only [Timing.signedDivision, if_true]
    have zeros := List.length_filter_le
      (fun i => !(dividend.toInt.natAbs / divisor.toInt.natAbs).testBit (15 - i)) (List.range 15)
    rw [List.length_range] at zeros
    split_ifs <;> omega

theorem multiplication_cycles_le (source : BitVec 16) (signed : Bool) :
    Timing.multiplication source signed ≤ 32 := by
  have ones := List.length_filter_le
    (if signed then source <<< 1 ^^^ source else source).getLsbD (List.range 16)
  rw [List.length_range] at ones
  rw [Timing.multiplication]
  omega

/-! ## Results and their codes -/

/-- The machine when cycles have passed and registers with condition codes been written. -/
def written (m : Machine β) (cycles : ℕ) (registers : Registers) (codes : StatusRegister) :
    Machine β :=
  ⟨{ m.cpu with registers := registers.setCodes codes, cycles := m.cpu.cycles + cycles }, m.bus⟩

theorem setCodes_eq {sr codes : StatusRegister}
    (system : codes &&& ~~~StatusRegister.codeMask = sr &&& ~~~StatusRegister.codeMask) :
    sr.setCodes codes = codes := by
  rw [StatusRegister.setCodes, ← system]
  exact codes.setCodes_self

theorem computes_written (m : Machine β) {cycles : ℕ} (few : cycles ≤ 156) {registers : Registers}
    (status : registers.sr = m.cpu.registers.sr) {codes : StatusRegister}
    (system : codes &&& ~~~StatusRegister.codeMask =
      m.cpu.registers.sr &&& ~~~StatusRegister.codeMask) :
    (written m cycles registers codes).cpu.registers.sr = codes ∧
      m.Computes registers (written m cycles registers codes) := by
  have same : (registers.setCodes codes).sr = codes := by
    show registers.sr.setCodes codes = codes
    rw [status, setCodes_eq system]
  refine ⟨same, rfl, ?_, Nat.add_le_add_left few _⟩
  show (registers.setCodes codes).sr &&& _ = _
  rw [same, system]

/-- The codes of a division: of its quotient, or overflow. -/
theorem divisionCodes_describes (size : Size)
    (result : Option (BitVec size.bits × BitVec size.bits)) (sr : StatusRegister) :
    divisionCodes size result sr &&& ~~~StatusRegister.codeMask =
        sr &&& ~~~StatusRegister.codeMask ∧
      match result with
      | some (quotient, _) => sr.Describes quotient False (divisionCodes size result sr)
      | none => (divisionCodes size result sr).has .v = true := by
  have part (value : BitVec size.bits) : size.part (value.setWidth 32) = value := by
    rw [Size.part, BitVec.setWidth_setWidth_of_le _ size.bits_le, BitVec.setWidth_eq]
  rcases result with _ | ⟨quotient, remainder⟩
  · refine ⟨?_, ?_⟩
    · unfold divisionCodes
      repeat rw [Alu.set_system _ (by decide)]
    · exact StatusRegister.has_set_self _ _ _
  · refine ⟨?_, ?_, ?_, ?_, ?_, ?_⟩
    · unfold divisionCodes Alu.signCodes
      repeat rw [Alu.set_system _ (by decide)]
    all_goals simp [divisionCodes, Alu.signCodes, part, StatusRegister.has_set_of_ne]

/-- The registers when a division has written its result, if it has one. -/
def afterDivision {w : ℕ} (write : BitVec w → BitVec w → Registers → Registers) (rs : Registers) :
    Option (BitVec w × BitVec w) → Registers
  | some (quotient, remainder) => write quotient remainder rs
  | none => rs

/-- A division that ends by writing the result that `quotient?` reports is exact. -/
theorem Divided.of_written [Bus β] (size : Size) {signed : Bool} {dividend divisor : ℤ}
    (nonneg : signed = false → 0 ≤ dividend ∧ 0 ≤ divisor) (nonzero : divisor ≠ 0)
    (range : InRange signed size.bits divisor)
    {write : BitVec size.bits → BitVec size.bits → Registers → Registers}
    (keeps : ∀ q r rs, (write q r rs).sr = rs.sr) (m : Machine β) {cycles : ℕ}
    (few : cycles ≤ 156) {result : Except Fault Unit × Machine β}
    (writes : result = (.ok (), written m cycles
      (afterDivision write m.cpu.registers (quotient? signed size.bits dividend divisor))
      (divisionCodes size (quotient? signed size.bits dividend divisor) m.cpu.registers.sr))) :
    Divided signed size.bits dividend divisor write m result := by
  subst writes
  rw [quotient?_eq signed size.bits nonneg]
  refine ⟨fun zero => absurd zero nonzero, fun _ outside => ?_, fun _ inside => ?_⟩
  · rw [if_neg outside]
    obtain ⟨system, overflow⟩ := divisionCodes_describes size none m.cpu.registers.sr
    obtain ⟨same, computes⟩ := computes_written m few (Eq.refl m.cpu.registers.sr) system
    exact ⟨rfl, (congrArg (StatusRegister.has · .v) same).trans overflow, computes⟩
  · rw [if_pos inside]
    have divides := isDivision_tdiv dividend nonzero
    have small : InRange signed size.bits (dividend.tmod divisor) :=
      inRange_of_small range divides.small fun unsigned =>
        Int.tmod_nonneg _ (nonneg unsigned).1
    obtain ⟨system, describes⟩ := divisionCodes_describes size
      (some (BitVec.ofInt size.bits (dividend.tdiv divisor),
        BitVec.ofInt size.bits (dividend.tmod divisor))) m.cpu.registers.sr
    obtain ⟨same, computes⟩ := computes_written m few (keeps _ _ m.cpu.registers) system
    have hw := Alu.one_le_bits size
    refine ⟨rfl, _, _, number_ofInt hw inside, ?_, same.symm ▸ describes, computes⟩
    rw [number_ofInt hw inside, number_ofInt hw small]
    exact divides

/-- A multiplication that ends by writing its product is exact. -/
theorem Multiplied.of_written {w : ℕ} (hw : 1 ≤ w) (signed : Bool) (product : ℤ)
    {write : BitVec w → Registers → Registers}
    (keeps : ∀ value rs, (write value rs).sr = rs.sr) (m : Machine β) {cycles : ℕ}
    (few : cycles ≤ 156) {codes : StatusRegister}
    (system : codes &&& ~~~StatusRegister.codeMask =
      m.cpu.registers.sr &&& ~~~StatusRegister.codeMask)
    (describes : m.cpu.registers.sr.Describes (BitVec.ofInt w product) (¬InRange signed w product)
      codes) {result : Except Fault Unit × Machine β}
    (writes : result = (.ok (), written m cycles (write (BitVec.ofInt w product) m.cpu.registers)
      codes)) :
    Multiplied signed w product write m result := by
  subst writes
  obtain ⟨same, computes⟩ := computes_written m few (keeps (BitVec.ofInt w product) _) system
  exact ⟨rfl, number_ofInt hw, same.symm ▸ describes, computes⟩

/-! ## Instructions -/

variable [Bus β] {src : AddressMode} {m m₀ m₁ : Machine β} {extension : BitVec 16}
  {value : BitVec 32}

/-- A division by zero traps. -/
theorem Divided.of_zero {signed : Bool} {w : ℕ} {dividend divisor : ℤ} (zero : divisor = 0)
    {write : BitVec w → BitVec w → Registers → Registers} (m : Machine β) :
    Divided signed w dividend divisor write m (divideByZero m) := by
  have traps : divideByZero m = (.error (.trap .zeroDivide),
      written m 0 m.cpu.registers (m.cpu.registers.sr.set .c false)) := rfl
  have carry : Flag.c.position < 5 := by decide
  have system := Alu.set_system m.cpu.registers.sr carry false
  obtain ⟨-, computes⟩ := computes_written m (Nat.zero_le 156) (Eq.refl m.cpu.registers.sr) system
  rw [traps]
  exact ⟨fun _ => ⟨rfl, computes, Handling.handle_apply (.trap .zeroDivide) _⟩,
    fun nonzero => absurd zero nonzero, fun nonzero => absurd zero nonzero⟩

/-- A word division spends its cycles before it writes its result. -/
theorem div_apply (signed : Bool) (r : RegisterNumber)
    (reads : operand src .word m = (.ok value, m₁)) :
    let dividend := m₁.cpu.registers.data r
    let divisor := value.setWidth 16
    let result := quotient? signed 16 (number signed dividend) (number signed divisor)
    div signed src r m =
      if divisor = 0 then divideByZero m₁
      else (.ok (), written m₁
        (if m₁.cpu.model.isEarly then
          if signed then Timing.signedDivision dividend divisor
          else Timing.unsignedDivision dividend divisor
        else 0)
        (afterDivision (fun quotient remainder rs => rs.setData r (remainder ++ quotient))
          m₁.cpu.registers result)
        (divisionCodes .word result m₁.cpu.registers.sr)) := by
  intro dividend divisor result
  have looks : data r m₁ = (.ok dividend, m₁) := rfl
  unfold div
  rw [bind_ok reads]
  refine (bind_ok looks _).trans ?_
  by_cases zero : divisor = 0
  · rw [if_pos zero, if_pos zero]
  · have found : quotient? signed 16 (number signed dividend)
        (number signed (value.setWidth 16)) = result := rfl
    rw [if_neg zero, if_neg zero, bind_ok (cpu_apply m₁)]
    dsimp only
    rw [found]
    clear_value result
    cases m₁.cpu.model.isEarly <;> cases result <;> rfl

theorem divLong_apply (fetches : fetch m = (.ok extension, m₀))
    (reads : operand src .long m₀ = (.ok value, m₁)) :
    let form := LongForm.ofExtension extension
    let low := m₁.cpu.registers.data form.low
    let dividend := if form.wide then number form.signed (m₁.cpu.registers.data form.high ++ low)
      else number form.signed low
    let result := quotient? form.signed 32 dividend (number form.signed value)
    divLong src m =
      if value = 0 then divideByZero m₁
      else (.ok (), written m₁ 0
        (afterDivision
          (fun quotient remainder rs => (rs.setData form.high remainder).setData form.low quotient)
          m₁.cpu.registers result)
        (divisionCodes .long result m₁.cpu.registers.sr)) := by
  intro form low dividend result
  unfold divLong
  rw [bind_ok fetches]
  refine (bind_ok reads _).trans ?_
  by_cases zero : value = 0
  · rw [if_pos zero, if_pos zero]
  · rw [if_neg zero, if_neg zero]
    have looks : data form.low m₁ = (.ok low, m₁) := rfl
    have looks' : data form.high m₁ = (.ok (m₁.cpu.registers.data form.high), m₁) := rfl
    refine (bind_ok looks _).trans ((bind_ok looks' _).trans ?_)
    have found : quotient? form.signed 32 dividend (number form.signed value) = result := rfl
    dsimp only
    rw [found]
    clear_value result
    cases result <;> rfl

theorem divided_div (signed : Bool) (r : RegisterNumber)
    (reads : operand src .word m = (.ok value, m₁)) :
    Divided signed 16 (number signed (m₁.cpu.registers.data r))
      (number signed (value.setWidth 16))
      (fun quotient remainder rs => rs.setData r (remainder ++ quotient)) m₁
      (div signed src r m) := by
  have applied := div_apply signed r reads
  dsimp only at applied
  generalize value.setWidth 16 = divisor at applied ⊢
  by_cases zero : divisor = 0
  · rw [applied, if_pos zero]
    exact .of_zero ((number_eq_zero_iff signed divisor).mpr zero) m₁
  · rw [if_neg zero] at applied
    have nonzero : number signed divisor ≠ 0 := mt (number_eq_zero_iff signed divisor).mp zero
    refine Divided.of_written .word (fun unsigned => ⟨?_, ?_⟩) nonzero
      (inRange_number signed divisor) ?_ m₁ ?_ applied
    · exact number_nonneg unsigned _
    · exact number_nonneg unsigned _
    · exact fun _ _ _ => rfl
    · split
      · exact division_cycles_le signed _ _
      · exact Nat.zero_le _

theorem divided_divLong (fetches : fetch m = (.ok extension, m₀))
    (reads : operand src .long m₀ = (.ok value, m₁)) :
    let form := LongForm.ofExtension extension
    let low := m₁.cpu.registers.data form.low
    let high := m₁.cpu.registers.data form.high
    Divided form.signed 32
      (if form.wide then number form.signed (high ++ low) else number form.signed low)
      (number form.signed value)
      (fun quotient remainder rs => (rs.setData form.high remainder).setData form.low quotient) m₁
      (divLong src m) := by
  have applied := divLong_apply fetches reads
  dsimp only at applied ⊢
  generalize LongForm.ofExtension extension = form at applied ⊢
  by_cases zero : value = 0
  · rw [applied, if_pos zero]
    exact .of_zero ((number_eq_zero_iff form.signed value).mpr zero) m₁
  · rw [if_neg zero] at applied
    have nonzero : number form.signed value ≠ 0 := mt (number_eq_zero_iff form.signed value).mp zero
    refine Divided.of_written .long (fun unsigned => ⟨?_, ?_⟩) nonzero
      (inRange_number form.signed value) ?_ m₁ (Nat.zero_le _) applied
    · split <;> exact number_nonneg unsigned _
    · exact number_nonneg unsigned _
    · exact fun _ _ _ => rfl

/-- A product has at most twice as many bits as its factors. -/
theorem inRange_mul {w : ℕ} (hw : 1 ≤ w) {signed : Bool} {a b : ℤ} (ha : InRange signed w a)
    (hb : InRange signed w b) : InRange signed (2 * w) (a * b) := by
  cases signed
  · obtain ⟨la, ua⟩ := ha
    obtain ⟨lb, ub⟩ := hb
    refine ⟨mul_nonneg la lb, ?_⟩
    rw [two_mul, pow_add]
    exact mul_lt_mul'' ua ub la lb
  · have magnitude {n : ℤ} (range : InRange true w n) : |n| ≤ 2 ^ (w - 1) :=
      abs_le.mpr ⟨range.1, range.2.le⟩
    have square : (2 : ℤ) ^ (w - 1) * 2 ^ (w - 1) < 2 ^ (2 * w - 1) := by
      rw [← pow_add]
      exact pow_lt_pow_right₀ (by norm_num) (by omega)
    have bound : |a * b| < 2 ^ (2 * w - 1) := by
      rw [abs_mul]
      have product := mul_le_mul (magnitude ha) (magnitude hb) (abs_nonneg b) (by positivity)
      exact product.trans_lt square
    exact ⟨(abs_lt.mp bound).1.le, (abs_lt.mp bound).2⟩

/-- The low half of a product. -/
theorem extractLsb'_ofInt (product : ℤ) :
    (BitVec.ofInt 64 product).extractLsb' 0 32 = BitVec.ofInt 32 product := by
  apply BitVec.eq_of_toNat_eq
  rw [BitVec.extractLsb'_toNat, Nat.shiftRight_zero, ← Int.natCast_inj, Alu.toNat_ofInt,
    Int.natCast_emod, Alu.toNat_ofInt]
  exact Int.emod_emod_of_dvd product (by norm_num)

/-- A value is not the number it was cut from just if that is out of the range. -/
theorem number_ofInt_ne_iff {w : ℕ} (hw : 1 ≤ w) (signed : Bool) (n : ℤ) :
    number signed (BitVec.ofInt w n) ≠ n ↔ ¬InRange signed w n :=
  not_congr ⟨fun same => same ▸ inRange_number signed _, number_ofInt hw⟩

/-- The sign codes of a long word. -/
theorem signCodes_long (value : BitVec 32) (sr : StatusRegister) :
    Alu.signCodes .long value sr = (sr.set .n value.msb).set .z (value == 0) := by
  show (sr.set .n (value.setWidth 32).msb).set .z (value.setWidth 32 == 0) = _
  rw [BitVec.setWidth_eq]

theorem multiplied_mul (signed : Bool) (r : RegisterNumber)
    (reads : operand src .word m = (.ok value, m₁)) :
    let product := number signed (value.setWidth 16) *
      number signed ((m₁.cpu.registers.data r).setWidth 16)
    InRange signed 32 product ∧
      Multiplied signed 32 product (fun value rs => rs.setData r value) m₁
        (mul signed src r m) := by
  intro product
  have fits : InRange signed 32 product :=
    inRange_mul (by decide) (inRange_number signed (value.setWidth 16)) (inRange_number signed _)
  refine ⟨fits, ?_⟩
  have applied : mul signed src r m = (.ok (), written m₁
      (if m₁.cpu.model.isEarly then Timing.multiplication (value.setWidth 16) signed else 0)
      (m₁.cpu.registers.setData r (BitVec.ofInt 32 product))
      (Alu.logicCodes .long (BitVec.ofInt 32 product) m₁.cpu.registers.sr)) := by
    have looks : data r m₁ = (.ok (m₁.cpu.registers.data r), m₁) := rfl
    unfold mul
    rw [bind_ok reads]
    refine (bind_ok looks _).trans ?_
    show (if m₁.cpu.model.isEarly then spend (Timing.multiplication (value.setWidth 16) signed)
      else pure () : MachineM β Unit) (written m₁ 0 _ _) = _
    split <;> rfl
  have hw : 1 ≤ 32 := by decide
  refine Multiplied.of_written hw signed product ?_ m₁ ?_ ?_ ?_ applied
  · exact fun _ _ => rfl
  · split
    · have := multiplication_cycles_le (value.setWidth 16) signed
      omega
    · exact Nat.zero_le _
  · rw [Alu.logicCodes, signCodes_long]
    repeat rw [Alu.set_system _ (by decide)]
  · rw [Alu.logicCodes, signCodes_long]
    constructor <;> simp [StatusRegister.has_set_of_ne, fits]

/-- The codes of a long product: all of those but overflow are clear, or describe it. -/
theorem mulLong_apply (fetches : fetch m = (.ok extension, m₀))
    (reads : operand src .long m₀ = (.ok value, m₁)) :
    let form := LongForm.ofExtension extension
    let low := m₁.cpu.registers.data form.low
    let product := number form.signed value * number form.signed low
    let result := BitVec.ofInt 64 product
    let codes := (m₁.cpu.registers.sr.set .v false).set .c false
    mulLong src m = (.ok (),
      if form.wide then
        written m₁ 0 ((m₁.cpu.registers.setData form.high (result.extractLsb' 32 32)).setData
          form.low (result.extractLsb' 0 32)) ((codes.set .n result.msb).set .z (result == 0))
      else written m₁ 0 (m₁.cpu.registers.setData form.low (result.extractLsb' 0 32))
        (Alu.signCodes .long (result.extractLsb' 0 32)
          (codes.set .v (number form.signed (result.extractLsb' 0 32) != product)))) := by
  intro form low product result codes
  unfold mulLong
  rw [bind_ok fetches]
  refine (bind_ok reads _).trans ?_
  show (if form.wide then _ else _ : MachineM β Unit) m₁ = _
  split <;> rfl

theorem multiplied_mulLong (fetches : fetch m = (.ok extension, m₀))
    (reads : operand src .long m₀ = (.ok value, m₁)) :
    let form := LongForm.ofExtension extension
    let product := number form.signed value * number form.signed (m₁.cpu.registers.data form.low)
    if form.wide then
      InRange form.signed 64 product ∧
        Multiplied form.signed 64 product (fun value rs =>
          (rs.setData form.high (value.extractLsb' 32 32)).setData form.low
            (value.extractLsb' 0 32)) m₁ (mulLong src m)
    else Multiplied form.signed 32 product (fun value rs => rs.setData form.low value) m₁
      (mulLong src m) := by
  have applied := mulLong_apply fetches reads
  intro form product
  have fits : InRange form.signed 64 product :=
    inRange_mul (by decide) (inRange_number form.signed value) (inRange_number form.signed _)
  dsimp only at applied
  split_ifs with wide
  · rw [if_pos wide] at applied
    refine ⟨fits, Multiplied.of_written (by decide) form.signed product ?_ m₁ (Nat.zero_le _) ?_ ?_
      applied⟩
    · exact fun _ _ => rfl
    · repeat rw [Alu.set_system _ (by decide)]
    · constructor <;> simp [StatusRegister.has_set_of_ne, fits, product, form]
  · rw [if_neg wide, extractLsb'_ofInt] at applied
    refine Multiplied.of_written (by decide) form.signed product ?_ m₁ (Nat.zero_le _) ?_ ?_ applied
    · exact fun _ _ => rfl
    · rw [signCodes_long]
      repeat rw [Alu.set_system _ (by decide)]
    · have overflow := number_ofInt_ne_iff (w := 32) (by decide) form.signed product
      rw [signCodes_long]
      constructor <;> simp [StatusRegister.has_set_of_ne, ← overflow, product, form]

/-- **Multiplication and division are exact, or leave the registers alone.**  Once the operand is
read, a word and a long form end in an exact result, in an overflow that changes nothing but
condition codes, or in the exception for a division by zero.  The extension word of a long form
names the low register in bits 14 to 12 and the high one in bits 2 to 0; bit 11 asks for signs, and
bit 10 for a product or a dividend of 64 bits.  If it names one register twice, that register is
left with the quotient, or with the low half of the product. -/
theorem multiplication_division_exact (src : AddressMode) (m : Machine β) :
    (∀ (signed : Bool) (r : RegisterNumber) (value : BitVec 32) (m₁ : Machine β),
      operand src .word m = (.ok value, m₁) →
      let held := m₁.cpu.registers.data r
      let source := number signed (value.setWidth 16)
      let product := source * number signed (held.setWidth 16)
      (InRange signed 32 product ∧
        Multiplied signed 32 product (fun value rs => rs.setData r value) m₁
          (mul signed src r m)) ∧
      Divided signed 16 (number signed held) source
        (fun quotient remainder rs => rs.setData r (remainder ++ quotient)) m₁
        (div signed src r m)) ∧
    ∀ (extension : BitVec 16) (m₀ : Machine β) (value : BitVec 32) (m₁ : Machine β)
        (l h : RegisterNumber),
      fetch m = (.ok extension, m₀) → operand src .long m₀ = (.ok value, m₁) →
      l.val = (extension.extractLsb' 12 3).toNat → h.val = (extension.extractLsb' 0 3).toNat →
      let signed := extension.getLsbD 11
      let low := m₁.cpu.registers.data l
      let high := m₁.cpu.registers.data h
      let source := number signed value
      let product := source * number signed low
      (extension.getLsbD 10 = true →
        (InRange signed 64 product ∧
          Multiplied signed 64 product (fun value rs =>
            (rs.setData h (value.extractLsb' 32 32)).setData l (value.extractLsb' 0 32)) m₁
            (mulLong src m)) ∧
        Divided signed 32 (number signed (high ++ low)) source
          (fun quotient remainder rs => (rs.setData h remainder).setData l quotient) m₁
          (divLong src m)) ∧
      (extension.getLsbD 10 = false →
        Multiplied signed 32 product (fun value rs => rs.setData l value) m₁ (mulLong src m) ∧
        Divided signed 32 (number signed low) source
          (fun quotient remainder rs => (rs.setData h remainder).setData l quotient) m₁
          (divLong src m)) := by
  refine ⟨fun signed r _ _ reads => ⟨multiplied_mul signed r reads, divided_div signed r reads⟩, ?_⟩
  intro extension m₀ value m₁ l h fetches reads named named' signed low high source product
  obtain rfl := RegisterNumber.ofField_eq named
  obtain rfl := RegisterNumber.ofField_eq named'
  have multiplied := multiplied_mulLong fetches reads
  have divided := divided_divLong fetches reads
  dsimp only [LongForm.ofExtension] at multiplied divided
  refine ⟨fun wide => ?_, fun narrow => ?_⟩
  · rw [if_pos wide] at multiplied divided
    exact ⟨multiplied, divided⟩
  · rw [narrow] at multiplied divided
    exact ⟨multiplied, divided⟩

/-- A 68020 with -7 in D0, 2 in D1, and the sign of the former in D2, before an extension word.
With the program counter at 1000 that names D0 and D2 for signed numbers of 64 bits, at 1002 D2 and
D3 for numbers of 32 bits without a sign. -/
def dividing (pc : BitVec 32) : Machine Bytes where
  cpu := { Cpu.new .m68020 with
    registers := { Registers.initial with
      d := #v[0xFFFFFFF9, 2, 0xFFFFFFFF, 0, 0, 0, 0, 0]
      pc } }
  bus address :=
    match address.toNat with
    | 0x1000 => 0x0C
    | 0x1001 => 0x02
    | 0x1002 => 0x20
    | 0x1003 => 0x03
    | _ => 0

/-- A signed division of -7 by 2 is -3 with the remainder -1 in either form, and the product of 64
bits is -14.  Without a sign the greatest long word by 2 is 7FFFFFFF with the remainder 1, and the
product of 32 bits overflows. -/
theorem multiplication_division_exact_dividing :
    (∃ m₁, operand (.dataReg 1) .word (dividing 0x1000) = (.ok 2, m₁) ∧
      Divided true 16 (number true 0xFFFFFFF9#32) (number true 2#16)
        (fun quotient remainder rs => rs.setData 0 (remainder ++ quotient)) m₁
        (div true (.dataReg 1) 0 (dividing 0x1000)) ∧
      (div true (.dataReg 1) 0 (dividing 0x1000)).2.cpu.registers.data 0 = 0xFFFFFFFD) ∧
    (∃ m₀ m₁, fetch (dividing 0x1000) = (.ok 0x0C02, m₀) ∧
      operand (.dataReg 1) .long m₀ = (.ok 2, m₁) ∧
      Divided true 32 (number true (0xFFFFFFFF#32 ++ 0xFFFFFFF9#32)) (number true 2#32)
        (fun quotient remainder rs => (rs.setData 2 remainder).setData 0 quotient) m₁
        (divLong (.dataReg 1) (dividing 0x1000)) ∧
      (divLong (.dataReg 1) (dividing 0x1000)).2.cpu.registers.d.toList.take 3 =
        [0xFFFFFFFD, 2, 0xFFFFFFFF] ∧
      (mulLong (.dataReg 1) (dividing 0x1000)).2.cpu.registers.d.toList.take 3 =
        [0xFFFFFFF2, 2, 0xFFFFFFFF]) ∧
    ∃ m₀ m₁, fetch (dividing 0x1002) = (.ok 0x2003, m₀) ∧
      operand (.dataReg 1) .long m₀ = (.ok 2, m₁) ∧
      Multiplied false 32 (number false 2#32 * number false 0xFFFFFFFF#32)
        (fun value rs => rs.setData 2 value) m₁ (mulLong (.dataReg 1) (dividing 0x1002)) ∧
      Divided false 32 (number false 0xFFFFFFFF#32) (number false 2#32)
        (fun quotient remainder rs => (rs.setData 3 remainder).setData 2 quotient) m₁
        (divLong (.dataReg 1) (dividing 0x1002)) ∧
      (divLong (.dataReg 1) (dividing 0x1002)).2.cpu.registers.d.toList.take 4 =
        [0xFFFFFFF9, 2, 0x7FFFFFFF, 1] ∧
      (mulLong (.dataReg 1) (dividing 0x1002)).2.cpu.registers.d.toList.take 4 =
        [0xFFFFFFF9, 2, 0xFFFFFFFE, 0] ∧
      (mulLong (.dataReg 1) (dividing 0x1002)).2.cpu.registers.sr.has .v = true := by
  have signed := multiplication_division_exact (.dataReg 1) (dividing 0x1000)
  have unsigned := multiplication_division_exact (.dataReg 1) (dividing 0x1002)
  refine ⟨⟨_, rfl, (signed.1 true 0 2 _ rfl).2, rfl⟩, ⟨_, _, rfl, rfl, ?_, rfl, rfl⟩,
    _, _, rfl, rfl, ?_, ?_, rfl, rfl, rfl⟩
  · exact ((signed.2 0x0C02 _ 2 _ 0 2 rfl rfl rfl rfl).1 rfl).2
  · exact ((unsigned.2 0x2003 _ 2 _ 2 3 rfl rfl rfl rfl).2 rfl).1
  · exact ((unsigned.2 0x2003 _ 2 _ 2 3 rfl rfl rfl rfl).2 rfl).2

end Execution

end M68k
