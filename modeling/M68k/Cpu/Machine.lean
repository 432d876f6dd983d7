import M68k.Cpu.Bus
import M68k.Cpu.Frame
import M68k.Cpu.State

/-!
# Actions of the processor

A machine is a processor on a bus.  Instructions are made of actions, which change the machine and
may end in a fault; the machine stays as it was at the moment of the fault.

Here are the actions that touch the bus: reading and writing memory, fetching the instruction
stream, the stack, and changes of flow.

* `prefetchedAt?_self` — a word that was read ahead is used at its address.
-/

namespace M68k

/-- A processor and what it is connected to. -/
structure Machine (β : Type) where
  cpu : Cpu
  bus : β

/-- Why an instruction is abandoned. -/
inductive Fault where
  /-- Nothing acknowledged an access. -/
  | bus (access : AccessFault)
  /-- An access to an odd address that must be even. -/
  | address (access : AccessFault)
  /-- An exception that returns to the instruction. -/
  | exception (vector : VectorNumber)
  /-- An exception that returns behind the instruction. -/
  | trap (vector : VectorNumber)
  /-- A return from an exception met more frames than it was allowed to follow. -/
  | unfinished
  deriving DecidableEq, Repr

/-- Something the processor does. -/
abbrev MachineM (β : Type) := ExceptT Fault (StateM (Machine β))

namespace MachineM

variable {β α : Type}

/-- The processor. -/
def cpu : MachineM β Cpu := return (← get).cpu

/-- Changes the processor. -/
def modifyCpu (change : Cpu → Cpu) : MachineM β Unit :=
  modify fun m => { m with cpu := change m.cpu }

/-- The registers. -/
def registers : MachineM β Registers := return (← get).cpu.registers

/-- Changes the registers. -/
def modifyRegisters (change : Registers → Registers) : MachineM β Unit :=
  modifyCpu fun c => { c with registers := change c.registers }

/-- What the model has. -/
def capabilities : MachineM β Capabilities := return (← cpu).capabilities

/-- Lets cycles pass. -/
def spend (cycles : Nat) : MachineM β Unit :=
  modifyCpu fun c => { c with cycles := c.cycles + cycles }

/-- An exchange with the bus. -/
def onBus (exchange : β → α × β) : MachineM β α :=
  modifyGet fun m => ((exchange m.bus).1, { m with bus := (exchange m.bus).2 })

/-- The status register. -/
def status : MachineM β StatusRegister := return (← registers).sr

/-- Writes the status register; bits that the model lacks stay clear. -/
def setStatus (value : StatusRegister) : MachineM β Unit := modifyCpu (·.setStatus value)

/-- Replaces the condition codes. -/
def setCodes (codes : StatusRegister) : MachineM β Unit := modifyRegisters (·.setCodes codes)

/-- A data register. -/
def data (r : RegisterNumber) : MachineM β (BitVec 32) := return (← registers).data r

/-- Writes a data register. -/
def setData (r : RegisterNumber) (value : BitVec 32) : MachineM β Unit :=
  modifyRegisters (·.setData r value)

/-- An address register. -/
def address (r : RegisterNumber) : MachineM β (BitVec 32) := return (← registers).address r

/-- Writes an address register. -/
def setAddress (r : RegisterNumber) (value : BitVec 32) : MachineM β Unit :=
  modifyRegisters (·.setAddress r value)

/-- The stack pointer in use. -/
def sp : MachineM β (BitVec 32) := return (← registers).sp

/-- Writes the stack pointer in use. -/
def setSp (value : BitVec 32) : MachineM β Unit := modifyRegisters (·.setSp value)

/-- The program counter. -/
def pc : MachineM β (BitVec 32) := return (← registers).pc

/-- Goes on only in supervisor mode. -/
def requireSupervisor : MachineM β Unit := do
  unless (← registers).isSupervisor do throw (.exception .privilegeViolation)

/-- Whether an access of a size may not be at an address. -/
def misaligned (caps : Capabilities) (size : Size) (address : BitVec 32) : Bool :=
  size != .byte && address.getLsbD 0 && !caps.misalignedData

variable [Bus β]

/-- Reads an operand of a size in an address space. -/
def readIn (space : FunctionCode) (size : Size) (address : BitVec 32) : MachineM β (BitVec 32) := do
  let c ← cpu
  let address := address &&& c.addressMask
  let access : AccessFault := ⟨address, space, true, size, 0⟩
  if misaligned c.capabilities size address then throw (.address access)
  let reply ← onBus (Bus.read size address space)
  spend reply.wait.toNat
  if reply.error then throw (.bus access)
  return size.truncate reply.data

/-- Writes an operand of a size in an address space. -/
def writeIn (space : FunctionCode) (size : Size) (address value : BitVec 32) : MachineM β Unit := do
  let c ← cpu
  let address := address &&& c.addressMask
  let value := size.truncate value
  let access : AccessFault := ⟨address, space, false, size, value⟩
  if misaligned c.capabilities size address then throw (.address access)
  let reply ← onBus (Bus.write size address value space)
  spend reply.wait.toNat
  if reply.error then throw (.bus access)

/-- Reads data. -/
def read (size : Size) (address : BitVec 32) : MachineM β (BitVec 32) := do
  readIn (← cpu).dataCode size address

/-- Writes data. -/
def write (size : Size) (address value : BitVec 32) : MachineM β Unit := do
  writeIn (← cpu).dataCode size address value

/-- The word at an address of the instruction stream, if it was read ahead. -/
def prefetchedAt? (c : Cpu) (address : BitVec 32) : Option (BitVec 16) :=
  c.prefetched.bind fun p => if p.address = address then some p.word else none

/-- Fetches a word of the instruction stream from the bus. -/
def fetchFromBus (access : AccessFault) : MachineM β (BitVec 16) := do
  let reply ← onBus (Bus.fetch access.address access.functionCode)
  spend reply.wait.toNat
  if reply.error then throw (.bus access)
  return reply.data.setWidth 16

/-- Reads the word at an address ahead.  This costs nothing, and a failure is no fault yet. -/
def readAhead (address : BitVec 32) (space : FunctionCode) : MachineM β Unit := do
  let reply ← onBus (Bus.fetch address space)
  unless reply.error do
    modifyCpu fun c => { c with prefetched := some ⟨address, reply.data.setWidth 16⟩ }

/-- The next word of the instruction stream.  The word that was read ahead serves once. -/
def fetch : MachineM β (BitVec 16) := do
  let c ← cpu
  let space := c.programCode
  let address := c.registers.pc &&& c.addressMask
  let access : AccessFault := ⟨address, space, true, .word, 0⟩
  if address.getLsbD 0 then throw (.address access)
  modifyCpu fun c => c.setPc (c.registers.pc + 2)
  let word ← match prefetchedAt? c address with
    | some word => pure word
    | none => fetchFromBus access
  if c.prefetch then readAhead ((address + 2) &&& c.addressMask) space
  return word

/-- The next word as a signed number. -/
def fetchSigned : MachineM β (BitVec 32) := return (← fetch).signExtend 32

/-- The next two words as one. -/
def fetchLong : MachineM β (BitVec 32) := do
  let high ← fetch
  let low ← fetch
  return high ++ low

/-- Pushes a value on the stack. -/
def push (size : Size) (value : BitVec 32) : MachineM β Unit := do
  let top := (← sp) - BitVec.ofNat 32 size.bytes
  write size top value
  setSp top

/-- Pops a value from the stack. -/
def pop (size : Size) : MachineM β (BitVec 32) := do
  let top ← sp
  let value ← read size top
  setSp (top + BitVec.ofNat 32 size.bytes)
  return value

/-- Continues at another address, which must be even. -/
def jump (target : BitVec 32) : MachineM β Unit := do
  if target.getLsbD 0 then
    throw (.address ⟨target, (← cpu).programCode, true, .word, 0⟩)
  modifyCpu fun c => { c.setPc target with flowChanged := true }
  onBus fun b => ((), Bus.pcChanged target b)

/-- A word that was read ahead is used at its address. -/
theorem prefetchedAt?_self (c : Cpu) (address : BitVec 32) (word : BitVec 16) :
    prefetchedAt? { c with prefetched := some ⟨address, word⟩ } address = some word := by
  simp [prefetchedAt?]

end MachineM

end M68k
