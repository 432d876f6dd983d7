import M68k.Proofs.Cpu.Inquiry
import M68k.Proofs.Cpu.InstructionStart

/-!
# Instructions that are abandoned

An instruction that ends in an exception has been abandoned.  If it had only asked for its words and
operands, the processor is at another place of the program, knows the opcode, and is else as it was;
the exception returns to the instruction.

* `AbandonedWith` — an instruction was abandoned when the machine had these registers;
* `AbandonedWith.handle` — its exception returns to it.
-/

namespace M68k

/-- Counting an address register leaves the program counters alone. -/
theorem AddressMode.stepped_counters (mode : AddressMode) (bytes : Nat) (rs : Registers)
    (pc ppc : BitVec 32) :
    mode.stepped bytes { rs with pc, ppc } = { mode.stepped bytes rs with pc, ppc } := by
  have set (r : RegisterNumber) (value : BitVec 32) :
      Registers.setAddress { rs with pc, ppc } r value =
        { rs.setAddress r value with pc, ppc } := by
    unfold Registers.setAddress
    split
    · rfl
    · show Registers.setStack _ (Registers.stackOf rs.sr) value = _
      unfold Registers.setSp
      cases Registers.stackOf rs.sr <;> rfl
  cases mode with
  | postIncrement r => exact set r _
  | preDecrement r => exact set r _
  | _ => rfl

namespace Machine

variable {β : Type} [Bus β]

/-- The instruction at the program counter was abandoned when the machine had these registers, apart
from the program counters, and the same floating-point unit as before.  The bus was used in these
ways only. -/
structure AbandonedWith (allowed : BusEvent → Prop) (registers : Registers) (m m' : Machine β) :
    Prop where
  registers : m'.cpu.registers =
    { registers with pc := m'.cpu.registers.pc, ppc := m.cpu.registers.pc }
  fpu : m'.cpu.fpu = m.cpu.fpu
  bus : m.Uses allowed m'

variable {allowed : BusEvent → Prop} {m m₀ m₁ m' : Machine β}

/-- What has counted a register only, some time after an instruction has begun. -/
theorem AbandonedWith.of_stepped (mode : AddressMode) (bytes : Nat)
    (begun : m.cpu.BegunTo m₀.cpu) (uses : m.Uses allowed m₀) (stays : m₀.Stays allowed m₁)
    (counted : m₁.StaysWith allowed (mode.stepped bytes m₁.cpu.registers) m') :
    m.AbandonedWith allowed (mode.stepped bytes m.cpu.registers) m' := by
  have counters : mode.stepped bytes m₁.cpu.registers =
      { mode.stepped bytes m.cpu.registers with
        pc := m₁.cpu.registers.pc, ppc := m.cpu.registers.pc } := by
    rw [stays.cpu, begun]
    exact mode.stepped_counters bytes m.cpu.registers _ _
  refine ⟨?_, ?_, uses.trans (stays.bus.trans counted.bus)⟩
  · rw [counted.cpu, counters]
  · rw [counted.cpu, stays.cpu, begun]

/-- What stays after an instruction has begun. -/
theorem AbandonedWith.of_stays (begun : m.cpu.BegunTo m₀.cpu) (uses : m.Uses allowed m₀)
    (stays : m₀.Stays allowed m') : m.AbandonedWith allowed m.cpu.registers m' :=
  of_stepped .immediate 0 begun uses stays (Stays.refl m')

/-- An exception returns to the instruction. -/
theorem AbandonedWith.handle {registers : Registers} (h : m.AbandonedWith allowed registers m')
    (vector : VectorNumber) :
    Handling.handle (.exception vector) m' =
      Handling.handleException vector m.cpu.registers.pc m' := by
  rw [Handling.handle_apply, h.registers]

end Machine

namespace MachineM

variable {β : Type} [Bus β]

/-- Before an instruction is performed the bus was asked for its opcode only. -/
theorem begin_uses (m : Machine β) : m.Uses BusEvent.IsFetch (begin m).2 := by
  have quiet : Quiet (β := β) BusEvent.IsFetch fetch := .fetch fun _ _ => trivial
  have fetched := (quiet m.started).bus
  rw [begin_apply]
  rcases fetches : fetch m.started with ⟨fault | opcode, m₁⟩
  · rwa [fetches] at fetched
  · rwa [fetches] at fetched

end MachineM

end M68k
