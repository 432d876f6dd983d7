import M68k.Proofs.Cpu.Abandonment
import M68k.Proofs.Cpu.InstructionRefusal
import M68k.Proofs.Cpu.Ram

/-!
# Refusals are precise

When an instruction is refused, for being illegal or privileged, the registers, the floating-point
unit and memory are as they were before it, so that a handler can do the instruction in another way.
The one exception is a move whose destination has an extension word that is not defined: the source
has counted its register by then.

* `step_refused` — where an instruction is refused.
-/

namespace M68k

namespace MachineM

variable {β : Type} [Bus β]

/-- Where a step is refused its instruction was refused, after its opcode had been fetched. -/
theorem step_refused_perform {host : Fpu.HostMath} {limit : Nat} {m m' : Machine β}
    {vector : VectorNumber} (refused : step host limit m = (.error (.exception vector), m'))
    (refusal : vector.IsRefusal) :
    ∃ m₀, m.cpu.BegunTo m₀.cpu ∧ m.Uses BusEvent.IsFetch m₀ ∧
      Execution.perform host limit (.ofOpcode m.cpu.capabilities m₀.cpu.opcode) m₀ =
        (.error (.exception vector), m') := by
  have begins : NeverRefuses (β := β) begin :=
    (Refuses.modifyCpu _).bind fun _ => Refuses.status.bind fun _ => Refuses.fetch.bind fun _ =>
      (Refuses.modifyCpu _).bind fun _ => Refuses.capabilities.bind fun _ =>
        Refuses.cpu.bind fun _ => (Refuses.spend _).bind fun _ => .pure _
  have settles (before : StatusRegister) : NeverRefuses (β := β) (settle before) :=
    (Refuses.modifyCpu _).bind fun _ => Refuses.cpu.bind fun _ => .ite (.trap _) (.pure _)
  rw [step_eq] at refused
  obtain ⟨activity, m₀, begun, performs⟩ := Refuses.refused_rest begins refused refusal
  have uses := begin_uses m
  rw [begun] at uses
  obtain ⟨rfl, opened⟩ := begin_perform begun
  exact ⟨m₀, opened, uses, Refuses.refused_first .any (fun _ _ => settles _) performs refusal⟩

/-- **Where an instruction is refused, it has changed nothing.**  The bus was asked only, and the
exception returns to the instruction.  There is one exception: a move whose source counts its
register has done so before the extension word of its destination is found not to be defined. -/
theorem step_refused (host : Fpu.HostMath) (limit : Nat) (m m' : Machine β) (vector : VectorNumber)
    (refused : step host limit m = (.error (.exception vector), m'))
    (refusal : vector.IsRefusal) :
    (m.AbandonedWith BusEvent.IsInquiry m.cpu.registers m' ∨
      ∃ size src dst,
        Instruction.ofOpcode m.cpu.capabilities m'.cpu.opcode = .move size src dst ∧
          src.steps = true ∧ dst.isIndexed = true ∧
            m.AbandonedWith BusEvent.IsInquiry (src.stepped size.bytes m.cpu.registers) m') ∧
      Handling.handle (.exception vector) m' =
        Handling.handleException vector m.cpu.registers.pc m' := by
  suffices abandoned : _ by
    refine ⟨abandoned, ?_⟩
    rcases abandoned with same | ⟨size, src, dst, -, -, -, counted⟩
    · exact same.handle vector
    · exact counted.handle vector
  obtain ⟨m₀, begun, fetched, performs⟩ := step_refused_perform refused refusal
  have uses := fetched.mono fun _ => BusEvent.IsFetch.isInquiry
  have writable := Instruction.ofOpcode_writesAlterable m.cpu.capabilities m₀.cpu.opcode
  generalize decoded : Instruction.ofOpcode m.cpu.capabilities m₀.cpu.opcode = instruction
    at performs writable
  by_cases moves : ∃ size src dst, instruction = .move size src dst
  · obtain ⟨size, src, dst, rfl⟩ := moves
    have place := AddressMode.ne_immediate_of_isAlterable (writable dst rfl)
    rcases move_refused place performs refusal with stays | ⟨steps, indexed, counted⟩
    · exact .inl (.of_stays begun uses stays)
    · refine .inr ⟨size, src, dst, ?_, steps, indexed, ?_⟩
      · rw [counted.cpu]
        exact decoded
      · exact .of_stepped src _ begun uses (.refl m₀) counted
  · have other (size : Size) (src dst : AddressMode) : instruction ≠ .move size src dst :=
      fun same => moves ⟨size, src, dst, same⟩
    have stays := Precise.perform host limit other writable performs refusal
    exact .inl (.of_stays begun uses stays)

/-- A 68020 that is to move a control register that it does not have. -/
def misnaming : Machine Bytes where
  cpu := { Cpu.new .m68020 with registers := { Registers.initial with pc := 0x1000 } }
  bus address :=
    match address.toNat with
    | 0x1000 => 0x4E
    | 0x1001 => 0x7A
    | 0x1002 => 0x0F
    | 0x1003 => 0xFF
    | _ => 0

/-- The move is refused, and the handler finds the processor as it was. -/
theorem step_refused_misnaming :
    ∃ m', step .native 1 misnaming = (.error (.exception .illegalInstruction), m') ∧
      VectorNumber.illegalInstruction.IsRefusal ∧
      misnaming.AbandonedWith BusEvent.IsInquiry misnaming.cpu.registers m' ∧
      Handling.handle (.exception .illegalInstruction) m' =
        Handling.handleException .illegalInstruction 0x1000 m' := by
  have outcome : (step .native 1 misnaming).1 = .error (.exception .illegalInstruction) := rfl
  have decoded : Instruction.ofOpcode misnaming.cpu.capabilities
      (step .native 1 misnaming).2.cpu.opcode = .movec false := by
    decide +kernel
  have refused : step .native 1 misnaming =
      (.error (.exception .illegalInstruction), (step .native 1 misnaming).2) :=
    Prod.ext outcome rfl
  obtain ⟨abandoned | ⟨size, src, dst, moves, -⟩, returns⟩ :=
    step_refused .native 1 misnaming _ _ refused (.inl rfl)
  · exact ⟨_, refused, .inl rfl, abandoned, returns⟩
  · cases decoded.symm.trans moves

/-- A 68020 that is to move a word from where A0 points, counting it up, to an operand whose
extension word has no size for the base displacement. -/
def miscounting : Machine Bytes where
  cpu := { Cpu.new .m68020 with registers := { Registers.initial with pc := 0x1000 } }
  bus address :=
    match address.toNat with
    | 0x1000 => 0x33
    | 0x1001 => 0x98
    | 0x1002 => 0x01
    | _ => 0

/-- The move is refused when A0 has been counted up. -/
theorem miscounting_not_precise :
    (step .native 1 miscounting).1 = .error (.exception .illegalInstruction) ∧
      (step .native 1 miscounting).2.cpu.registers.address 0 ≠
        miscounting.cpu.registers.address 0 :=
  ⟨rfl, by decide +kernel⟩

end MachineM

end M68k
