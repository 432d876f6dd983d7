import M68k.Cpu.FunctionCode
import M68k.Cpu.Model
import M68k.Cpu.Registers
import M68k.Fpu.State
import M68k.Ticks

/-!
# The processor

The state of a processor is its registers, its floating-point unit if it has one, and what it has to
remember from one instruction to the next.  The instruction set runs on this state and a bus.

What the model decides, the processor keeps beside its model: the capabilities, the address lines
and the bits of the status register.  The instruction set looks at what is kept, and whoever changes
the model has to bring it up to date.

* `registers_reset` — after a reset, stack pointer and program counter are all that is not zero or
  masked;
* `model_setModel` — switching the model switches the model.
-/

namespace M68k

/-- Whether instructions are being executed. -/
inductive RunState where
  | running
  /-- Waiting for an interrupt. -/
  | stopped
  /-- A failed access while another was being handled; only a reset helps. -/
  | halted
  deriving DecidableEq, Repr

/-- The name under which a state is reported. -/
def RunState.name : RunState → String
  | running => "running"
  | stopped => "stopped"
  | halted => "halted"

/-- How far the handling of a failed access has come. -/
inductive FaultState where
  | normal
  /-- The frame is being written or the vector fetched. -/
  | buildingFrame
  /-- The handler has not completed an instruction yet. -/
  | recovering
  deriving DecidableEq, Repr

/-- A word of the instruction stream that was read ahead. -/
structure Prefetched where
  address : BitVec 32
  word : BitVec 16
  deriving DecidableEq, Repr

/-- The state of a processor. -/
structure Cpu where
  model : Model
  /-- What the model has. -/
  capabilities : Capabilities
  /-- The address lines of the model. -/
  addressMask : BitVec 32
  /-- The bits that the status register of the model has. -/
  statusMask : StatusRegister
  capabilities_eq : capabilities = model.capabilities
  addressMask_eq : addressMask = model.addressMask
  statusMask_eq : statusMask = model.statusMask
  registers : Registers
  fpu : Option Fpu
  /-- The opcode of the current instruction. -/
  opcode : BitVec 16
  runState : RunState
  faultState : FaultState
  /-- The interrupt level seen last, by which a rise to the highest level is noticed. -/
  lastLevel : BitVec 3
  /-- Whether the current instruction has left the sequence of instructions. -/
  flowChanged : Bool
  /-- Whether the word after the last fetched one is read ahead. -/
  prefetch : Bool
  prefetched : Option Prefetched
  /-- Cycles of the current step. -/
  cycles : Nat
  /-- Cycles of all steps. -/
  elapsed : Ticks
  deriving DecidableEq, Repr

namespace Cpu

/-- A processor before its first reset. -/
def new (model : Model) : Cpu where
  model
  capabilities := model.capabilities
  addressMask := model.addressMask
  statusMask := model.statusMask
  capabilities_eq := rfl
  addressMask_eq := rfl
  statusMask_eq := rfl
  registers := .initial
  fpu := model.capabilities.fpu.map Fpu.new
  opcode := 0
  runState := .running
  faultState := .normal
  lastLevel := 0
  flowChanged := false
  prefetch := false
  prefetched := none
  cycles := 0
  elapsed := .zero

/-- Resets the processor to a stack pointer and a program counter.  Time goes on. -/
def resetTo (c : Cpu) (stack pc : BitVec 32) : Cpu :=
  { c with
    registers := { Registers.initial with isp := stack, pc := pc, ppc := pc }
    fpu := c.fpu.map Fpu.reset
    opcode := 0
    runState := .running
    faultState := .normal
    lastLevel := 0
    flowChanged := false
    prefetched := none }

/-- Writes the status register; bits that the model lacks stay clear. -/
def setStatus (c : Cpu) (value : StatusRegister) : Cpu :=
  { c with registers := c.registers.setStatus value c.statusMask }

/-- Moves the program counter; a word read ahead is forgotten. -/
def setPc (c : Cpu) (pc : BitVec 32) : Cpu :=
  { c with registers := { c.registers with pc }, prefetched := none }

/-- Switches reading ahead on or off. -/
def setPrefetch (c : Cpu) (enabled : Bool) : Cpu :=
  { c with prefetch := enabled, prefetched := none }

/-- The floating-point unit after a change of the model: kept if its kind stays the same. -/
def unitFor (wanted : Option Fpu.Model) (fpu : Option Fpu) : Option Fpu :=
  wanted.map fun kind =>
    match fpu with
    | some unit => if unit.model = kind then unit else Fpu.new kind
    | none => Fpu.new kind

/-- Switches the model and keeps the registers.  Where the new model has no master state, the stack
in use becomes the interrupt stack. -/
def setModel (c : Cpu) (model : Model) : Cpu :=
  let caps := model.capabilities
  let r := c.registers
  let r := if !caps.masterState && r.isMaster then { r with isp := r.msp } else r
  let switched : Cpu :=
    { c with
      model
      capabilities := caps
      addressMask := model.addressMask
      statusMask := model.statusMask
      capabilities_eq := rfl
      addressMask_eq := rfl
      statusMask_eq := rfl
      fpu := unitFor caps.fpu c.fpu
      registers := r }
  { switched.setStatus r.sr with prefetched := none }

/-- The function code of accesses to data. -/
def dataCode (c : Cpu) : FunctionCode := .ofMode c.registers.isSupervisor false

/-- The function code of accesses to the program. -/
def programCode (c : Cpu) : FunctionCode := .ofMode c.registers.isSupervisor true

/-- After a reset, stack pointer and program counter hold what they were given. -/
theorem registers_reset (c : Cpu) (stack pc : BitVec 32) :
    (c.resetTo stack pc).registers = { Registers.initial with isp := stack, pc := pc, ppc := pc } :=
  rfl

/-- Processors of one model have the same capabilities. -/
theorem capabilities_congr {c c' : Cpu} (same : c'.model = c.model) :
    c'.capabilities = c.capabilities := by
  rw [c'.capabilities_eq, c.capabilities_eq, same]

/-- A write to the status register is cut to the bits of the model. -/
theorem registers_setStatus (c : Cpu) (value : StatusRegister) :
    (c.setStatus value).registers = c.registers.setStatus value c.model.statusMask := by
  rw [← c.statusMask_eq]
  rfl

@[simp] theorem model_setModel (c : Cpu) (model : Model) : (c.setModel model).model = model := rfl

end Cpu

end M68k
