import M68k.Cpu.Operand

/-!
# Changes of flow

Branches, jumps, subroutines and traps.  Displacements count from the word after the opcode, and the
counter of a loop is the low word of its register.
-/

namespace M68k

namespace Execution

open MachineM

variable {β : Type}

/-- Whether a condition holds. -/
def holds (condition : BitVec 4) : MachineM β Bool := return (← status).condition condition

/-- What is stored for the outcome of a condition. -/
def truthByte (truth : Bool) : BitVec 32 := if truth then 0xFF else 0

/-- Traps on overflow. -/
def trapv : MachineM β Unit := do
  if (← status).has .v then throw (.trap .conditional)

/-- A register with its low word one less. -/
def decremented (value : BitVec 32) : BitVec 32 := Size.word.insert value (value - 1)

/-- Counts a loop down; the answer is whether it goes on. -/
def countDown (r : RegisterNumber) : MachineM β Bool := do
  let value := decremented (← data r)
  setData r value
  return value.setWidth 16 != 0xFFFF#16

variable [Bus β]

/-- Branches by a displacement of eight bits, which two values extend to a word or a long word. -/
def bcc (condition : BitVec 4) (displacement : BitVec 8) : MachineM β Unit := do
  let base ← pc
  let longForms := (← capabilities).longMuldiv
  let offset ←
    if displacement = 0 then fetchSigned
    else if displacement = 0xFF ∧ longForms then fetchLong
    else pure (displacement.signExtend 32)
  let target := base + offset
  if condition = 0 then jump target
  else if condition = 1 then
    push .long (← pc)
    jump target
  else if ← holds condition then
    spend 2
    jump target

/-- Unless a condition holds, counts a loop down and branches while it goes on. -/
def dbcc (condition : BitVec 4) (r : RegisterNumber) : MachineM β Unit := do
  let base ← pc
  let offset ← fetchSigned
  if ← holds condition then spend 4
  else if ← countDown r then jump (base + offset)
  else spend 6

/-- Stores the outcome of a condition. -/
def scc (condition : BitVec 4) (mode : AddressMode) : MachineM β Unit := do
  let location ← locate mode .byte
  let truth ← holds condition
  if truth && mode.isDataRegister then spend 2
  store .byte location (truthByte truth)

/-- An operand that is fetched and ignored. -/
def skipOperand : Option Size → MachineM β Unit
  | some .long => discard fetchLong
  | some _ => discard fetch
  | none => pure ()

/-- Traps on a condition. -/
def trapcc (condition : BitVec 4) (extra : Option Size) : MachineM β Unit := do
  skipOperand extra
  if ← holds condition then throw (.trap .conditional)

/-- Jumps to an operand. -/
def jmp (mode : AddressMode) : MachineM β Unit := do
  jump (← controlAddress mode)

/-- Calls an operand. -/
def jsr (mode : AddressMode) : MachineM β Unit := do
  let target ← controlAddress mode
  push .long (← pc)
  jump target

/-- Returns from a subroutine. -/
def rts : MachineM β Unit := do
  jump (← pop .long)

/-- Returns from a subroutine and restores the condition codes. -/
def rtr : MachineM β Unit := do
  let codes ← pop .word
  let target ← pop .long
  setCodes (codes.setWidth 16)
  jump target

/-- Returns from a subroutine and removes its parameters. -/
def rtd : MachineM β Unit := do
  let displacement ← fetchSigned
  let target ← pop .long
  setSp ((← sp) + displacement)
  jump target

end Execution

end M68k
