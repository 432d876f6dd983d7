import M68k.Proofs.Cpu.DoubleFault
import M68k.Proofs.Cpu.InstructionRole
import M68k.Proofs.Cpu.PlaceInProgram
import M68k.Proofs.Cpu.PreciseRefusal

/-!
# The decoder and the instructions agree on operands

The decoder knows which modes an instruction accepts, and the instruction relies on it.  So the
cases that an instruction has to treat but never meets are not met: it does not look for registers
and constants in memory, and does not write constants or operands relative to the program counter.
Nor does the handling of a fault meet a fault other than a failed access.

* `Agrees.isMemory`, `Agrees.not_constant` — an instruction that plays one role asks for the address
  of nothing but memory and does not write constants;
* `decoder_agrees` — decoded instructions play one role, and where one raises the exception of
  illegal instructions it is not known, or names a control register or has an extension word that
  the model does not have.
-/

namespace M68k

namespace Agrees

variable {instruction : Instruction}

/-- On a model without reserved extension words, an instruction that the model knows never raises
the exception of illegal instructions. -/
theorem not_illegal {α β : Type} [Bus β] {x : Action α} (agrees : Agrees instruction x)
    (known : instruction ≠ .illegal ∧ instruction ≠ .bkpt)
    (other : ∀ toControl, instruction ≠ .movec toControl) {m m' : Machine β}
    (early : m.cpu.capabilities.extendedAddressing = false) {fault : Fault}
    (ends : x β m = (.error fault, m')) : ¬fault.IsIllegal := by
  intro illegal
  obtain ⟨-, reason⟩ := agrees.accounted m
  rw [ends] at reason
  cases reason fault rfl illegal with
  | unknown is => exact absurd is (not_or.mpr known)
  | reserved _ _ reserved =>
    unfold reservedFormat at reserved
    rw [early, Bool.and_false, Bool.false_and] at reserved
    cases reserved
  | control is => exact absurd is (other _)

/-- So it does not ask for the address of a register or of a constant, which has no other
outcome. -/
theorem isMemory {mode : AddressMode} {bytes : Nat}
    (agrees : Agrees instruction fun _ _ => MachineM.memoryAddress mode bytes)
    (known : instruction ≠ .illegal ∧ instruction ≠ .bkpt)
    (other : ∀ toControl, instruction ≠ .movec toControl) : mode.isMemory = true := by
  let m : Machine Bytes := ⟨Cpu.new .m68000, fun _ => 0⟩
  cases isMemory : mode.isMemory with
  | true => rfl
  | false =>
    have raises : MachineM.memoryAddress mode bytes m =
        (.error (.exception .illegalInstruction), m) := by
      cases mode <;> first | rfl | cases isMemory
    exact absurd rfl (agrees.not_illegal known other rfl raises)

/-- Nor does it write a constant. -/
theorem not_constant {size : Size} {location : Location} {value : BitVec 32}
    (agrees : Agrees instruction fun _ _ => MachineM.store size location value)
    (known : instruction ≠ .illegal ∧ instruction ≠ .bkpt)
    (other : ∀ toControl, instruction ≠ .movec toControl) (constant : BitVec 32) :
    location ≠ .constant constant := by
  rintro rfl
  let m : Machine Bytes := ⟨Cpu.new .m68000, fun _ => 0⟩
  have raises : MachineM.store size (.constant constant) value m =
      (.error (.exception .illegalInstruction), m) := rfl
  exact absurd rfl (agrees.not_illegal known other rfl raises)

end Agrees

namespace MachineM

variable {β : Type} [Bus β]

/-- Before an instruction is performed only an access can fail. -/
theorem begin_fails : FailsByAccess (β := β) begin := by
  intro m fault m' fails
  rw [begin_apply] at fails
  rcases fetches : fetch m.started with ⟨fault' | opcode, m₁⟩
  · rw [fetches] at fails
    obtain rfl := Except.error.inj (congrArg Prod.fst fails)
    exact FailsByAccess.fetch fetches
  · rw [fetches] at fails
    cases fails

/-- What follows an instruction raises no such exception. -/
theorem settle_accounted (instruction : Instruction) (before : StatusRegister) (m : Machine β) :
    m.Accounts instruction (settle before m) := by
  rw [settle_apply]
  refine ⟨?_, fun fault fails illegal => ?_⟩
  · unfold Cpu.settled
    split <;> exact ⟨rfl, rfl, rfl, .of_bus_eq rfl⟩
  · dsimp only at fails
    split at fails
    · obtain rfl := Except.error.inj fails
      exact absurd illegal (by decide)
    · cases fails

/-- A decoded instruction plays one role. -/
theorem agrees_ofOpcode (host : Fpu.HostMath) (limit : Nat) (caps : Capabilities)
    (opcode : BitVec 16) :
    Agrees (.ofOpcode caps opcode) fun _ _ =>
      Execution.perform host limit (.ofOpcode caps opcode) :=
  .perform host limit _ (Instruction.ofOpcode_suited caps opcode)
    (Instruction.ofOpcode_writesAlterable caps opcode)

theorem carryOut_accounted (host : Fpu.HostMath) (limit : Nat) (before : StatusRegister)
    (caps : Capabilities) (opcode : BitVec 16) (m : Machine β) :
    m.Accounts (.ofOpcode caps opcode)
      (carryOut host limit (.perform before (.ofOpcode caps opcode)) m) := by
  have performs := (agrees_ofOpcode host limit caps opcode).accounted m
  exact .bind performs fun _ m₁ _ => settle_accounted _ before m₁

/-- A step that ends in the exception of illegal instructions has begun with an instruction that has
a reason for it. -/
theorem step_illegal {host : Fpu.HostMath} {limit : Nat} {m m' : Machine β} {fault : Fault}
    (ends : step host limit m = (.error fault, m')) (illegal : fault.IsIllegal) :
    ∃ m₀, m.cpu.BegunTo m₀.cpu ∧ m.Uses BusEvent.IsFetch m₀ ∧
      m₀.RaisesIllegal (.ofOpcode m.cpu.capabilities m'.cpu.opcode) m' := by
  rw [step_eq] at ends
  rcases begins : begin m with ⟨fault' | activity, m₀⟩
  · rw [bind_error begins] at ends
    obtain rfl := Except.error.inj (congrArg Prod.fst ends)
    exact absurd illegal (begin_fails begins).not_isIllegal
  · rw [bind_ok begins] at ends
    have uses := begin_uses m
    rw [begins] at uses
    obtain ⟨rfl, begun⟩ := begin_perform begins
    obtain ⟨course, reason⟩ := carryOut_accounted host limit m.cpu.registers.sr
      m.cpu.capabilities m₀.cpu.opcode m₀
    rw [ends] at course reason
    refine ⟨m₀, begun, uses, ?_⟩
    rw [course.opcode]
    exact reason fault rfl illegal

/-- **The decoder and the instructions agree on operands.**  A decoded instruction plays one role.
None but those that are to raise the exception of illegal instructions could do so and ask for the
address of a register or of a constant, or write a constant; and in the role in which memory is
written nothing is found relative to the program counter.  Entering an exception fails for an access
only, and a step that ends in the exception of illegal instructions has a reason for it. -/
theorem decoder_agrees (host : Fpu.HostMath) (limit : Nat) :
    (∀ (model : Model) (opcode : BitVec 16),
      let instruction := Instruction.ofOpcode model.capabilities opcode
      Agrees instruction (fun _ _ => Execution.perform host limit instruction) ∧
        (instruction ≠ .illegal ∧ instruction ≠ .bkpt →
          (∀ toControl, instruction ≠ .movec toControl) →
          (∀ mode bytes, Agrees instruction (fun _ _ => memoryAddress mode bytes) →
            mode.isMemory = true) ∧
          (∀ size constant value,
            ¬Agrees instruction fun _ _ => store size (.constant constant) value) ∧
          ∀ mode bytes,
            Conforms instruction (.working true) (fun _ _ => memoryAddress mode bytes) →
            mode.isPcRelative = false)) ∧
    ∀ (β : Type) [Bus β],
      (∀ vector returnAddress access,
        FailsByAccess (β := β) (enter vector returnAddress access)) ∧
      (∀ vector access, FailsByAccess (β := β) (enterAccess vector access)) ∧
      ∀ (m m' : Machine β) (fault : Fault), step host limit m = (.error fault, m') →
        fault.IsIllegal →
          ∃ m₀, m.cpu.BegunTo m₀.cpu ∧ m.Uses BusEvent.IsFetch m₀ ∧
            m₀.RaisesIllegal (.ofOpcode m.cpu.capabilities m'.cpu.opcode) m' := by
  refine ⟨fun model opcode => ?_, fun β _ => ⟨enter_fails, fun vector access => ?_,
    fun m m' fault => step_illegal⟩⟩
  · refine ⟨agrees_ofOpcode host limit model.capabilities opcode, fun known other => ⟨?_, ?_, ?_⟩⟩
    · intro mode bytes agrees
      exact agrees.isMemory known other
    · intro size constant value agrees
      exact agrees.not_constant known other constant rfl
    · intro mode bytes conforms
      exact conforms.not_isPcRelative other
  · exact (FailsByAccess.of_ok fun m => ⟨_, m, cpu_apply m⟩).bind fun c => enter_fails vector _ _

/-- The move whose destination has no size for the base displacement is refused for its extension
word. -/
theorem miscounting_reserved :
    ∃ m', step .native 1 miscounting = (.error (.exception .illegalInstruction), m') ∧
      (Fault.exception .illegalInstruction).IsIllegal ∧
      ∃ (m₁ m₂ : Machine Bytes) (extension : BitVec 16), fetch m₁ = (.ok extension, m₂) ∧
        reservedFormat miscounting.cpu.capabilities extension = true := by
  have outcome : (step .native 1 miscounting).1 = .error (.exception .illegalInstruction) := rfl
  have decoded : Instruction.ofOpcode miscounting.cpu.capabilities
      (step .native 1 miscounting).2.cpu.opcode = .move .word (.postIncrement 0) (.index 1) := by
    decide +kernel
  have ends : step .native 1 miscounting =
      (.error (.exception .illegalInstruction), (step .native 1 miscounting).2) :=
    Prod.ext outcome rfl
  have illegal : (Fault.exception .illegalInstruction).IsIllegal := rfl
  obtain ⟨-, -, raises⟩ := (decoder_agrees .native 1).2 Bytes
  obtain ⟨m₀, begun, -, reason⟩ := raises miscounting _ _ ends illegal
  rw [decoded] at reason
  refine ⟨_, ends, illegal, ?_⟩
  cases reason with
  | unknown is => exact absurd is (by decide)
  | reserved _ fetched reserved =>
    rw [begun.capabilities] at reserved
    exact ⟨_, _, _, fetched, reserved⟩
  | control is => cases is

end MachineM

end M68k
