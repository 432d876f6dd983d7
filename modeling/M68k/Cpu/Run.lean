import M68k.Cpu.Execution.Dispatch
import M68k.Cpu.Instruction.Decoder

/-!
# Running the processor

A call of `execute` takes an interrupt, executes one instruction, or lets a stopped processor wait.
An instruction that ends in a fault goes on with the exception that the fault calls for.

* `execute_halted` — a halted processor does nothing and does not touch the bus;
* `reset_running` — a reset lets it run again.
-/

namespace M68k

namespace MachineM

variable {β : Type} [Bus β]

/-- Whether an instruction is traced, by the status register before it: every one, or where the
model can, those that change the flow. -/
def isTraced (before : StatusRegister) (after : Cpu) : Bool :=
  before.has .t1 || (before.has .t0 && after.capabilities.traceFlow && after.flowChanged)

/-- Executes one instruction. -/
def step (host : Fpu.HostMath) (limit : Nat) : MachineM β Unit := do
  modifyCpu fun c =>
    { c with registers := { c.registers with ppc := c.registers.pc }, flowChanged := false }
  let before ← status
  let opcode ← fetch
  modifyCpu fun c => { c with opcode }
  let instruction := Instruction.ofOpcode (← capabilities) opcode
  spend (Timing.instruction (← cpu).model instruction)
  Execution.perform host limit instruction
  modifyCpu fun c =>
    if c.faultState = .recovering then { c with faultState := .normal } else c
  if isTraced before (← cpu) then throw (.trap .trace)

/-- What a call does when the interrupt lines show a level: an interrupt above the mask is taken,
and one of the highest level in any case when the level rises to it. -/
def next (host : Fpu.HostMath) (limit : Nat) (level : BitVec 3) : MachineM β Unit := do
  let c ← cpu
  let rises : Bool := level = 7 ∧ c.lastLevel ≠ 7
  modifyCpu fun c => { c with lastLevel := level }
  if c.registers.sr.interruptMask < level || rises then interrupt level
  else if c.runState = .stopped then spend Timing.stopped
  else step host limit

end MachineM

namespace Machine

variable {β : Type} [Bus β]

/-- Does what the next call has to do and handles its fault. -/
def advance (host : Fpu.HostMath) (limit : Nat) : Handling β Unit := do
  let work : MachineM β Unit := do
    MachineM.modifyCpu fun c => { c with cycles := 0 }
    let level ← MachineM.onBus Bus.interruptLevel
    MachineM.next host limit (level.setWidth 3)
  match ← Handling.attempt work with
  | .ok () => pure ()
  | .error fault => Handling.handle fault

/-- Takes an interrupt or executes one instruction: the cycles that took, or why the processor does
not go on.  Within one return from an exception at most `limit` frames are looked at. -/
def executeWithin (host : Fpu.HostMath) (limit : Nat) (m : Machine β) :
    Except ExecuteError Nat × Machine β :=
  if m.cpu.runState = .halted then (.error .halted, m)
  else
    let (outcome, m) := advance host limit m
    let cycles := m.cpu.cycles
    (outcome.map fun _ => cycles,
      { m with cpu := { m.cpu with elapsed := m.cpu.elapsed.advance cycles } })

/-- More frames than any chain of them can have in practice. -/
def frameLimit : Nat := Nat.pow 2 64

/-- Takes an interrupt or executes one instruction. -/
def execute (host : Fpu.HostMath) (m : Machine β) : Except ExecuteError Nat × Machine β :=
  m.executeWithin host frameLimit

/-- Resets the processor with the initial stack pointer and program counter at the beginning of
memory.  A failed access is not noticed. -/
def reset (m : Machine β) : Machine β :=
  let (stack, bus) := Bus.read .long 0 .supervisorProgram m.bus
  let (pc, bus) := Bus.read .long 4 .supervisorProgram bus
  ⟨m.cpu.resetTo stack.data pc.data, bus⟩

/-- A halted processor does nothing. -/
theorem execute_halted (host : Fpu.HostMath) (m : Machine β) (h : m.cpu.runState = .halted) :
    m.execute host = (.error .halted, m) := by
  simp [execute, executeWithin, h]

/-- A reset lets the processor run. -/
theorem reset_running (m : Machine β) : m.reset.cpu.runState = .running := rfl

end Machine

end M68k
