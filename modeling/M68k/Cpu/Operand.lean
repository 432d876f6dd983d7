import M68k.Cpu.AddressMode
import M68k.Cpu.Machine
import M68k.Cpu.Timing

/-!
# Operands

An addressing mode together with extension words leads to the location of an operand.  Finding the
location counts address registers up or down and consumes extension words, so it is done once; after
that the location can be read and written any number of times.

* `stride_stack` — bytes on the stack take two addresses, so that the stack pointer stays even.
-/

namespace M68k

/-- Where an operand is. -/
inductive Location where
  | dataReg (register : RegisterNumber)
  | addrReg (register : RegisterNumber)
  /-- Operands relative to the program counter are read as parts of the program. -/
  | memory (address : BitVec 32) (program : Bool)
  /-- Not a place but a value. -/
  | constant (value : BitVec 32)
  deriving DecidableEq, Repr

namespace MachineM

/-- By how much an address register is counted for an operand of so many bytes. -/
def stride (register : RegisterNumber) (bytes : Nat) : BitVec 32 :=
  BitVec.ofNat 32 (if register.val = 7 ∧ bytes = 1 then 2 else bytes)

/-- The index register of an extension word, sized and scaled. -/
def indexValue (caps : Capabilities) (r : Registers) (extension : BitVec 16) : BitVec 32 :=
  let raw := r.general (.ofExtension extension)
  let value := if extension.getLsbD 11 then raw else Size.word.signExtend raw
  if caps.extendedAddressing then value <<< (extension.extractLsb' 9 2).toNat else value

variable {β : Type} [Bus β]

/-- Takes an address register up by an operand of so many bytes, found at the old address. -/
def postIncrement (r : RegisterNumber) (bytes : Nat) : MachineM β (BitVec 32) := do
  let start ← address r
  setAddress r (start + stride r bytes)
  return start

/-- Takes an address register down by an operand of so many bytes, found at the new address. -/
def preDecrement (r : RegisterNumber) (bytes : Nat) : MachineM β (BitVec 32) := do
  let start := (← address r) - stride r bytes
  setAddress r start
  return start

/-- A displacement of the full format by its two-bit code: none, a word, or a long word. -/
def fetchDisplacement (code : Nat) : MachineM β (BitVec 32) :=
  match code % 4 with
  | 2 => fetchSigned
  | 3 => fetchLong
  | _ => pure 0

/-- The address of the full format.  A base displacement always has a code; with a selector, the
address is read from memory, and the index is added before or after that. -/
def fullIndex (base : BitVec 32) (extension : BitVec 16) : MachineM β (BitVec 32) := do
  let suppressed := extension.getLsbD 6
  let base := if extension.getLsbD 7 then 0 else base
  let value := indexValue (← capabilities) (← registers) extension
  let index := if suppressed then 0 else value
  let baseCode := (extension.extractLsb' 4 2).toNat
  if baseCode = 0 then throw (.exception .illegalInstruction)
  let base := base + (← fetchDisplacement baseCode)
  let selector := (extension.extractLsb' 0 3).toNat
  if selector = 0 then return base + index
  let indexAfter : Bool := 4 < selector
  if selector = 4 ∨ (suppressed ∧ indexAfter) then throw (.exception .illegalInstruction)
  let outer ← fetchDisplacement selector
  spend 6
  if indexAfter then return (← read .long base) + outer + index
  else return (← read .long (base + index)) + outer

/-- The address of an indexed mode.  The short format has a displacement of eight bits. -/
def indexed (base : BitVec 32) : MachineM β (BitVec 32) := do
  let extension ← fetch
  let caps ← capabilities
  if extension.getLsbD 8 && caps.extendedAddressing then fullIndex base extension
  else
    return base + (extension.setWidth 8).signExtend 32
      + indexValue caps (← registers) extension

/-- The address of an operand in memory, of so many bytes. -/
def memoryAddress (mode : AddressMode) (bytes : Nat) : MachineM β (BitVec 32) :=
  match mode with
  | .indirect r => address r
  | .postIncrement r => postIncrement r bytes
  | .preDecrement r => preDecrement r bytes
  | .displacement r => do return (← fetchSigned) + (← address r)
  | .index r => do indexed (← address r)
  | .absShort => fetchSigned
  | .absLong => fetchLong
  | .pcDisplacement => do
    let base ← pc
    return base + (← fetchSigned)
  | .pcIndex => do indexed (← pc)
  | .dataReg _ | .addrReg _ | .immediate => throw (.exception .illegalInstruction)

/-- The address of an operand that is not itself accessed, or not as a single value. -/
def controlAddress (mode : AddressMode) : MachineM β (BitVec 32) :=
  memoryAddress mode Size.long.bytes

/-- A constant in the instruction stream; a byte takes a whole word. -/
def fetchConstant : Size → MachineM β (BitVec 32)
  | .byte => do return ((← fetch).setWidth 8).setWidth 32
  | .word => do return (← fetch).setWidth 32
  | .long => fetchLong

/-- Finds an operand. -/
def locate (mode : AddressMode) (size : Size) : MachineM β Location := do
  spend (Timing.operand (← cpu).model mode size)
  match mode with
  | .dataReg r => return .dataReg r
  | .addrReg r => return .addrReg r
  | .immediate => return .constant (← fetchConstant size)
  | mode => return .memory (← memoryAddress mode size.bytes) mode.isPcRelative

/-- Reads an operand. -/
def load (size : Size) : Location → MachineM β (BitVec 32)
  | .dataReg r => do return size.truncate (← data r)
  | .addrReg r => do return size.truncate (← address r)
  | .constant value => return size.truncate value
  | .memory address false => read size address
  | .memory address true => do readIn (← cpu).programCode size address

/-- Writes an operand.  A data register keeps its other bits, an address register takes the whole
value. -/
def store (size : Size) (location : Location) (value : BitVec 32) : MachineM β Unit :=
  match location with
  | .dataReg r => modifyRegisters fun rs => rs.setData r (size.insert (rs.data r) value)
  | .addrReg r => setAddress r value
  | .memory address _ => write size address value
  | .constant _ => throw (.exception .illegalInstruction)

/-- Finds and reads an operand. -/
def operand (mode : AddressMode) (size : Size) : MachineM β (BitVec 32) := do
  load size (← locate mode size)

/-- Bytes on the stack take two addresses. -/
theorem stride_stack : stride (.ofNat 7) Size.byte.bytes = 2 := rfl

end MachineM

end M68k
