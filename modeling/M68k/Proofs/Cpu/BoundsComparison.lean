import M68k.Proofs.Cpu.ProductQuotient

/-!
# Bounds with or without a sign

A register is compared with two bounds in memory, and nothing says whether the bounds are signed
numbers.  One comparison of unsigned words serves both readings: where the bounds are in order it
looks for a value beyond either, and where they are not, the interval wraps around, which is the
order of signed numbers.

A data register is compared at the size of the operand, an address register as a whole with bounds
whose sign is extended.

* `outside_iff` — a value is outside in whichever reading puts the bounds in order;
* `register_compared_with_bounds` — the comparison with all its codes, and when it traps.
-/

namespace M68k

open Execution

/-- A value lies outside of bounds, all read as numbers in the same way. -/
def IsOutside (signed : Bool) {w : ℕ} (lower upper value : BitVec w) : Prop :=
  number signed value < number signed lower ∨ number signed upper < number signed value

/-- Whether condition codes tell where a value lies.  The bounds are numbers with or without a sign,
as long as they are in order. -/
structure StatusRegister.Locates {w : ℕ} (lower upper value : BitVec w)
    (before after : StatusRegister) : Prop where
  carry : ∀ signed, number signed lower ≤ number signed upper →
    (after.has .c = true ↔ IsOutside signed lower upper value)
  /-- The two readings never disagree where both apply. -/
  agree : number false lower ≤ number false upper → number true lower ≤ number true upper →
    (IsOutside false lower upper value ↔ IsOutside true lower upper value)
  zero : after.has .z = true ↔ value = lower ∨ value = upper
  extend : after.has .x = before.has .x
  negative : after.has .n = before.has .n
  overflow : after.has .v = before.has .v

/-- The register that an extension word names. -/
theorem Registers.general_ofExtension (rs : Registers) (extension : BitVec 16) :
    rs.general (.ofExtension extension) =
      if extension.getLsbD 15 then rs.address (.ofField extension 12)
      else rs.data (.ofField extension 12) := by
  have number : (GeneralRegister.ofExtension extension).number = .ofField extension 12 := by
    apply Fin.ext
    show (extension.toNat >>> 12) % 16 % 8 = (extension.toNat >>> 12) % 8
    omega
  have isData : (GeneralRegister.ofExtension extension).isData = !extension.getLsbD 15 := by
    have bit : extension.getLsbD 15 = (extension.toNat >>> 12).testBit 3 := by
      rw [Nat.testBit_shiftRight]
      rfl
    have small : extension.toNat >>> 12 < 16 := by
      rw [Nat.shiftRight_eq_div_pow]
      have := extension.isLt
      omega
    rw [bit]
    show decide ((extension.toNat >>> 12) % 16 < 8) = _
    generalize extension.toNat >>> 12 = n at small
    revert n
    decide
  rw [general, number, isData]
  cases extension.getLsbD 15 <;> rfl

namespace Execution

open MachineM

variable {β : Type}

/-- What has become of a comparison with bounds, from the machine that has read them on.  A trap
returns behind the instruction. -/
structure BoundsChecked [Bus β] (traps : Bool) {w : ℕ} (lower upper value : BitVec w)
    (m : Machine β) (result : Except Fault Unit × Machine β) : Prop where
  codes : m.cpu.registers.sr.Locates lower upper value result.2.cpu.registers.sr
  ends : result.1 = if traps && result.2.cpu.registers.sr.has .c then .error (.trap .bounds)
    else .ok ()
  handled : Handling.handle (.trap .bounds) result.2 =
    Handling.handleException 6 m.cpu.registers.pc result.2
  computes : m.Computes m.cpu.registers result.2

/-! ## The comparison -/

variable {w : ℕ}

/-- A value is outside of bounds in whichever reading puts the bounds in order. -/
theorem outside_iff (hw : 1 ≤ w) (hw' : w ≤ 32) (signed : Bool) {lower upper value : BitVec w}
    (ordered : number signed lower ≤ number signed upper) :
    outside (lower.setWidth 32) (upper.setWidth 32) (value.setWidth 32) = true ↔
      IsOutside signed lower upper value := by
  have same (word : BitVec w) : (word.setWidth 32).toNat = word.toNat :=
    BitVec.toNat_setWidth_of_le hw'
  obtain ⟨h, -, whole, -, -⟩ := Alu.exists_half hw
  have hl := Alu.toInt_cases whole lower
  have hu := Alu.toInt_cases whole upper
  have hv := Alu.toInt_cases whole value
  simp only [outside, BitVec.le_def, BitVec.lt_def, same]
  cases signed
  · simp only [IsOutside, number, Bool.false_eq_true, if_false, Nat.cast_le, Nat.cast_lt]
      at ordered ⊢
    rw [if_pos ordered]
    simp
  · simp only [IsOutside, number, if_true] at ordered ⊢
    -- bounds of different signs are in the other order without a sign
    split_ifs with plain
    · simp only [Bool.or_eq_true, decide_eq_true_eq]
      omega
    · simp only [Bool.and_eq_true, decide_eq_true_eq]
      omega

/-- The codes that a comparison with bounds leaves. -/
def boundsCodes (lower upper value : BitVec 32) (sr : StatusRegister) : StatusRegister :=
  (sr.set .z (value == lower || value == upper)).set .c (outside lower upper value)

theorem boundsCodes_system (lower upper value : BitVec 32) (sr : StatusRegister) :
    boundsCodes lower upper value sr &&& ~~~StatusRegister.codeMask =
      sr &&& ~~~StatusRegister.codeMask := by
  unfold boundsCodes
  repeat rw [Alu.set_system _ (by decide)]

theorem boundsCodes_locates (hw : 1 ≤ w) (hw' : w ≤ 32) (lower upper value : BitVec w)
    (sr : StatusRegister) :
    sr.Locates lower upper value
      (boundsCodes (lower.setWidth 32) (upper.setWidth 32) (value.setWidth 32) sr) := by
  have same (a b : BitVec w) : a.setWidth 32 = b.setWidth 32 ↔ a = b := by
    rw [← BitVec.toNat_inj, BitVec.toNat_setWidth_of_le hw', BitVec.toNat_setWidth_of_le hw',
      BitVec.toNat_inj]
  have carry (signed : Bool) (ordered : number signed lower ≤ number signed upper) :
      (boundsCodes (lower.setWidth 32) (upper.setWidth 32) (value.setWidth 32) sr).has .c = true ↔
        IsOutside signed lower upper value := by
    rw [boundsCodes, StatusRegister.has_set_self]
    exact outside_iff hw hw' signed ordered
  refine ⟨carry, fun plain signed => (carry false plain).symm.trans (carry true signed), ?_, ?_, ?_,
    ?_⟩
  · simp [boundsCodes, StatusRegister.has_set_of_ne, same]
  all_goals simp [boundsCodes, StatusRegister.has_set_of_ne]

/-! ## The instruction -/

variable [Bus β] {size : Size} {mode : AddressMode} {m m₀ m₁ m₂ m₃ : Machine β}
  {extension : BitVec 16} {place lower upper : BitVec 32}

/-- What is read has no bits beyond its size. -/
theorem truncate_of_read {value address : BitVec 32} {m' : Machine β}
    (reads : read size address m = (.ok value, m')) : size.truncate value = value := by
  rw [read_apply] at reads
  obtain ⟨rfl, -⟩ := readIn_ok reads
  exact size.truncate_truncate _

/-- A comparison once its bounds are read. -/
theorem chk2_apply (fetches : fetch m = (.ok extension, m₀))
    (finds : controlAddress mode m₀ = (.ok place, m₁))
    (readsLower : read size place m₁ = (.ok lower, m₂))
    (readsUpper : read size (place + BitVec.ofNat 32 size.bytes) m₂ = (.ok upper, m₃)) :
    let own := m₃.cpu.registers.general (.ofExtension extension)
    let whole := extension.getLsbD 15
    let lower := if whole then size.signExtend lower else lower
    let upper := if whole then size.signExtend upper else upper
    let value := if whole then own else size.truncate own
    chk2 size mode m =
      (if outside lower upper value && extension.getLsbD 11 then .error (.trap .bounds) else .ok (),
        written m₃ 0 m₃.cpu.registers (boundsCodes lower upper value m₃.cpu.registers.sr)) := by
  intro own whole lower upper value
  unfold chk2
  rw [bind_ok fetches, bind_ok finds, bind_ok readsLower, bind_ok readsUpper,
    bind_ok (registers_apply m₃)]
  refine (bind_ok (status_apply m₃) _).trans ((bind_ok (modifyRegisters_apply m₃ _) _).trans ?_)
  show (if outside lower upper value && extension.getLsbD 11 then _ else _ : MachineM β Unit) _ = _
  split <;> rfl

theorem BoundsChecked.of_written (hw : 1 ≤ w) (hw' : w ≤ 32) (traps : Bool)
    (lower upper value : BitVec w) (m : Machine β) {result : Except Fault Unit × Machine β}
    (writes : result =
      (if outside (lower.setWidth 32) (upper.setWidth 32) (value.setWidth 32) && traps then
          .error (.trap .bounds)
        else .ok (),
        written m 0 m.cpu.registers
          (boundsCodes (lower.setWidth 32) (upper.setWidth 32) (value.setWidth 32)
            m.cpu.registers.sr))) :
    BoundsChecked traps lower upper value m result := by
  obtain ⟨same, computes⟩ := computes_written m (Nat.zero_le 156) (Eq.refl m.cpu.registers.sr)
    (boundsCodes_system (lower.setWidth 32) (upper.setWidth 32) (value.setWidth 32)
      m.cpu.registers.sr)
  subst writes
  refine ⟨?_, ?_, Handling.handle_apply (.trap .bounds) _, computes⟩
  · rw [same]
    exact boundsCodes_locates hw hw' lower upper value _
  · rw [same, boundsCodes, StatusRegister.has_set_self, Bool.and_comm]

/-- **A comparison with bounds is right for numbers with and without a sign.**  Once the two bounds
are read, carry tells whether the register lies outside of them, in whichever reading the bounds are
in order, and zero whether it equals one of them.  A data register counts at the size of the
operand; an address register counts as a whole, and the bounds with their sign extended.  If the
instruction is one that traps, it does so just if carry is set. -/
theorem register_compared_with_bounds (fetches : fetch m = (.ok extension, m₀))
    (finds : controlAddress mode m₀ = (.ok place, m₁))
    (readsLower : read size place m₁ = (.ok lower, m₂))
    (readsUpper : read size (place + BitVec.ofNat 32 size.bytes) m₂ = (.ok upper, m₃)) :
    let r : RegisterNumber := .ofField extension 12
    (extension.getLsbD 15 = false →
      BoundsChecked (extension.getLsbD 11) (size.part lower) (size.part upper)
        (size.part (m₃.cpu.registers.data r)) m₃ (chk2 size mode m)) ∧
    (extension.getLsbD 15 = true →
      BoundsChecked (extension.getLsbD 11) (size.signExtend lower) (size.signExtend upper)
        (m₃.cpu.registers.address r) m₃ (chk2 size mode m)) := by
  have applied := chk2_apply fetches finds readsLower readsUpper
  dsimp only at applied
  rw [Registers.general_ofExtension] at applied
  refine ⟨fun part => ?_, fun whole => ?_⟩
  · rw [part] at applied
    have whole (word : BitVec 32) : (size.part word).setWidth 32 = size.truncate word := rfl
    refine .of_written (Alu.one_le_bits size) size.bits_le _ _ _ _ m₃ (applied.trans ?_)
    rw [whole, whole, whole, truncate_of_read readsLower, truncate_of_read readsUpper]
    rfl
  · rw [whole] at applied
    refine .of_written (by decide) le_rfl _ _ _ _ m₃ (applied.trans ?_)
    simp only [BitVec.setWidth_eq, if_true]

/-- A 68020 with -128 as a byte in D0 and an address in A1, before an extension word.  With the
program counter at 1000 it asks to trap on D0, at 1002 only to compare A1.  A0 points at the bytes
-2 and 2, and A2 at words of which only the second is negative. -/
def bounding (pc : BitVec 32) : Machine Bytes where
  cpu := { Cpu.new .m68020 with
    registers := { Registers.initial with
      d := #v[0x80, 0, 0, 0, 0, 0, 0, 0]
      a := #v[0x2000, 0xFFFF9000, 0x2002, 0, 0, 0, 0]
      pc } }
  bus address :=
    match address.toNat with
    | 0x1000 => 0x08
    | 0x1002 => 0x90
    | 0x2000 => 0xFE
    | 0x2001 => 0x02
    | 0x2002 => 0x70
    | 0x2004 => 0x90
    | _ => 0

/-- The byte is below its bounds, which are in order with a sign, and that traps.  The address
equals its upper bound, and the bounds are in order without a sign. -/
theorem register_compared_with_bounds_bounding :
    (∃ m₀ m₁ m₂ m₃, fetch (bounding 0x1000) = (.ok 0x0800, m₀) ∧
      controlAddress (.indirect 0) m₀ = (.ok 0x2000, m₁) ∧
      read .byte 0x2000 m₁ = (.ok 0xFE, m₂) ∧ read .byte 0x2001 m₂ = (.ok 0x02, m₃) ∧
      BoundsChecked true 0xFE#8 0x02#8 0x80#8 m₃ (chk2 .byte (.indirect 0) (bounding 0x1000)) ∧
      (chk2 .byte (.indirect 0) (bounding 0x1000)).1 = .error (.trap .bounds)) ∧
    ∃ m₀ m₁ m₂ m₃, fetch (bounding 0x1002) = (.ok 0x9000, m₀) ∧
      controlAddress (.indirect 2) m₀ = (.ok 0x2002, m₁) ∧
      read .word 0x2002 m₁ = (.ok 0x7000, m₂) ∧ read .word 0x2004 m₂ = (.ok 0x9000, m₃) ∧
      BoundsChecked false 0x7000#32 0xFFFF9000#32 0xFFFF9000#32 m₃
        (chk2 .word (.indirect 2) (bounding 0x1002)) ∧
      (chk2 .word (.indirect 2) (bounding 0x1002)).2.cpu.registers.sr = 0x2704 := by
  refine ⟨⟨_, _, _, _, rfl, rfl, rfl, rfl, ?_, rfl⟩, _, _, _, _, rfl, rfl, rfl, rfl, ?_, rfl⟩
  · exact (@register_compared_with_bounds Bytes _ .byte (.indirect 0) (bounding 0x1000)
      _ _ _ _ 0x0800 0x2000 0xFE 0x02 rfl rfl rfl rfl).1 rfl
  · exact (@register_compared_with_bounds Bytes _ .word (.indirect 2) (bounding 0x1002)
      _ _ _ _ 0x9000 0x2002 0x7000 0x9000 rfl rfl rfl rfl).2 rfl

end Execution

end M68k
