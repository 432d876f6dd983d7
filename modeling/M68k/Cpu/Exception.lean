import M68k.Cpu.Operand
import M68k.Text.Hex

/-!
# Exceptions

Entering an exception saves the status register, switches to supervisor mode without tracing, writes
a frame on the stack and continues at the address in the vector table.  A return undoes this.

Failed accesses have rules of their own: if another access fails while one is being handled, and
until the handler has completed an instruction, the processor halts.

* `supervisor_entryStatus` — a handler starts in supervisor mode, untraced.
-/

namespace M68k

/-- The status register with which a handler starts. -/
def StatusRegister.entryStatus (sr : StatusRegister) : StatusRegister :=
  ((sr.set .s true).set .t1 false).set .t0 false

/-- A handler starts in supervisor mode, untraced. -/
theorem StatusRegister.supervisor_entryStatus (sr : StatusRegister) :
    sr.entryStatus.has .s = true ∧ sr.entryStatus.has .t1 = false ∧
      sr.entryStatus.has .t0 = false := by
  simp [entryStatus, has_set_of_ne]

namespace MachineM

variable {β : Type} [Bus β]

/-- Switches to supervisor mode and returns the status register as it was. -/
def enterSupervisor : MachineM β StatusRegister := do
  let old ← status
  setStatus old.entryStatus
  return old

/-- Writes words one after the other to the data space of the supervisor. -/
def writeWords : BitVec 32 → List (BitVec 16) → MachineM β Unit
  | _, [] => pure ()
  | place, word :: rest => do
    writeIn .supervisorData .word place (word.setWidth 32)
    writeWords (place + 2) rest

/-- Writes a frame on the stack, from its lowest address upward. -/
def pushFrame (format : FrameFormat) (vector : VectorNumber) (sr : StatusRegister)
    (returnAddress : BitVec 32) (access : Option AccessFault) : MachineM β Unit := do
  let c ← cpu
  let context : FrameContext :=
    ⟨c.opcode, c.registers.ppc, vector, sr, returnAddress, access⟩
  let top := c.registers.sp - BitVec.ofNat 32 (2 * format.words)
  writeWords top (context.contents format)
  setSp top

/-- Reads an entry of the vector table. -/
def readVector (base : BitVec 32) (vector : VectorNumber) : MachineM β (BitVec 32) :=
  readIn .supervisorData .long (base + vector.setWidth 32 <<< 2)

/-- Continues at the handler of a vector.  An empty entry stands for that of uninitialized
interrupts. -/
def jumpToHandler (vector : VectorNumber) : MachineM β Unit := do
  let c ← cpu
  let base := if c.capabilities.vbr then c.registers.vbr else 0
  let handler ← readVector base vector
  if handler = 0 then jump (← readVector base .uninitialized)
  else jump handler

/-- Enters an exception. -/
def enter (vector : VectorNumber) (returnAddress : BitVec 32) (access : Option AccessFault) :
    MachineM β Unit := do
  let c ← cpu
  let old ← enterSupervisor
  modifyCpu fun c => { c with runState := .running }
  pushFrame (.ofVector c.capabilities.frames vector) vector old returnAddress access
  spend (Timing.exception c.model vector)
  jumpToHandler vector

/-- Enters the exception of a failed access.  The first model returns behind the first word of the
instruction, the others to it. -/
def enterAccess (vector : VectorNumber) (access : AccessFault) : MachineM β Unit := do
  let c ← cpu
  let ppc := c.registers.ppc
  enter vector (if c.capabilities.frames = .f68000 then ppc + 2 else ppc) (some access)

/-- The vector of an interrupt. -/
def interruptVector (level : BitVec 3) : Acknowledgement → VectorNumber
  | .vector number => number
  | .autovector => .autovector level
  | .spurious => .spurious

/-- Takes an interrupt.  In the master state the frame goes to the master stack, and a frame that
only tells so to the interrupt stack, where the handler runs. -/
def interrupt (level : BitVec 3) : MachineM β Unit := do
  let vector := interruptVector level (← onBus (Bus.acknowledge level))
  let old ← enterSupervisor
  modifyRegisters (·.setInterruptMask level)
  modifyCpu fun c => { c with runState := .running }
  let c ← cpu
  let returnAddress := c.registers.pc
  pushFrame (if c.capabilities.frames = .f68000 then .short else .format0) vector old returnAddress
    none
  if c.capabilities.masterState && c.registers.isMaster then
    setStatus ((← status).set .m false)
    pushFrame .format1 vector (old.set .s true) returnAddress none
  spend Timing.interrupt
  jumpToHandler vector

/-- Returns from an exception.  A frame of format 1 leads on to a frame on another stack; at most
`limit` frames are looked at.  A frame that is not known is left where it is. -/
def returnFromException : Nat → MachineM β Unit
  | 0 => throw .unfinished
  | limit + 1 => do
    let top ← sp
    let sr := (← read .word top).setWidth 16
    let target ← read .long (top + 2)
    if (← capabilities).frames = .f68000 then
      setSp (top + 6)
      setStatus sr
      jump target
    else
      let code := (← read .word (top + 6)).extractLsb' 12 4
      if code = 1 then
        setSp (top + 8)
        setStatus sr
        returnFromException limit
      else
        match FrameFormat.discardedWords? code with
        | none => throw (.exception .formatError)
        | some extra =>
          setSp (top + BitVec.ofNat 32 (8 + 2 * extra))
          setStatus sr
          jump target

end MachineM

/-- Why the processor does not go on. -/
inductive ExecuteError where
  /-- An access failed while another failed access was being handled: the processor halts. -/
  | doubleFault (address pc : BitVec 32)
  /-- Only a reset helps. -/
  | halted
  /-- A return from an exception met more frames than it was allowed to follow. -/
  | unfinished
  deriving DecidableEq, Repr

/-- The message for an error. -/
def ExecuteError.message : ExecuteError → String
  | doubleFault address pc =>
    "double bus fault at " ++ Text.prefixedHex 8 address.toNat ++ " (instruction at "
      ++ Text.prefixedHex 8 pc.toNat ++ ")"
  | halted => "CPU is halted"
  | unfinished => "unfinished return from exception"

/-- What follows a fault. -/
abbrev Handling (β : Type) := ExceptT ExecuteError (StateM (Machine β))

namespace Handling

variable {β α : Type}

/-- An action with its fault as a value. -/
def attempt (action : MachineM β α) : Handling β (Except Fault α) :=
  fun m => ((.ok (action m).1), (action m).2)

/-- Changes the processor. -/
def modifyCpu (change : Cpu → Cpu) : Handling β Unit :=
  modify fun m => { m with cpu := change m.cpu }

/-- Halts the processor. -/
def halt (address : BitVec 32) : Handling β α := do
  modifyCpu fun c => { c with runState := .halted }
  throw (.doubleFault address (← get).cpu.registers.ppc)

variable [Bus β]

/-- Handles a failed access. -/
def handleAccess (vector : VectorNumber) (access : AccessFault) : Handling β Unit := do
  if (← get).cpu.faultState ≠ .normal then halt access.address
  modifyCpu fun c => { c with faultState := .buildingFrame }
  match ← attempt (MachineM.enterAccess vector access) with
  | .ok () => modifyCpu fun c => { c with faultState := .recovering }
  | .error (.bus second) | .error (.address second) => halt second.address
  | .error _ => halt access.address

/-- Handles any other exception.  An access that fails on the way is handled in its place. -/
def handleException (vector : VectorNumber) (returnAddress : BitVec 32) : Handling β Unit := do
  match ← attempt (MachineM.enter vector returnAddress none) with
  | .ok () => pure ()
  | .error (.bus access) => handleAccess .busError access
  | .error (.address access) => handleAccess .addressError access
  | .error _ => halt (← get).cpu.registers.sp

/-- Handles a fault. -/
def handle : Fault → Handling β Unit
  | .bus access => handleAccess .busError access
  | .address access => handleAccess .addressError access
  | .exception vector => do handleException vector (← get).cpu.registers.ppc
  | .trap vector => do handleException vector (← get).cpu.registers.pc
  | .unfinished => throw .unfinished

end Handling

end M68k
