import M68k.Cpu.Execution.Flow
import M68k.Fpu.Frame

/-!
# Instructions of the floating-point unit

The processor decodes the instructions of line F that belong to the unit, finds their operands and
moves them; the unit computes.  Encodings that are not defined take the exception of line F.

* `mem_selectedData_iff` — a register is in a list if its bit is, counted from either end.
-/

namespace M68k

namespace Execution

open MachineM

variable {β α : Type}

/-- The exception of line F. -/
def undefined : MachineM β α := throw (.exception .lineF)

/-- The floating-point unit. -/
def unit : MachineM β Fpu := do
  match (← cpu).fpu with
  | some fpu => return fpu
  | none => undefined

/-- Replaces the state of the floating-point unit. -/
def setUnit (fpu : Fpu) : MachineM β Unit := modifyCpu fun c => { c with fpu := some fpu }

/-- The addressing mode in the opcode. -/
def opcodeMode : MachineM β AddressMode := do
  match AddressMode.ofOpcode? (← cpu).opcode with
  | some mode => return mode
  | none => undefined

/-- The arithmetic command in a command word. -/
def arithmetic (command : BitVec 16) : MachineM β Fpu.Command := do
  let forms := (← unit).model = .mc68040
  match Fpu.Command.ofOpmode? command.toNat forms with
  | some c => return c
  | none => undefined

/-- Starts an instruction that reports exceptions. -/
def beginUnit : MachineM β Fpu := do
  return (← unit).beginInstruction (← registers).ppc

/-- Computes with a register as source. -/
def computeRegister (host : Fpu.HostMath) (command : BitVec 16) : MachineM β Unit := do
  let operation ← arithmetic command
  let fpu ← beginUnit
  setUnit (fpu.execute host operation (fpu.get (.ofField command 10))
    (.ofField command 7))

/-- Loads a constant of the chip. -/
def loadConstant (command : BitVec 16) : MachineM β Unit := do
  let fpu ← beginUnit
  setUnit (fpu.moveConstant (command.toNat % 128) (.ofField command 7))

/-- The integer size of so many bytes. -/
def sizeOfBytes : Nat → Size
  | 1 => .byte
  | 2 => .word
  | _ => .long

/-- The signed number of seven bits by which decimal operands are scaled. -/
def decimalFactor (format : Fpu.DataFormat) (command : BitVec 16) (rs : Registers) : Int :=
  match format with
  | .packed => (command.setWidth 7).toInt
  | .packedDynamic => ((rs.data (.ofField command 4)).setWidth 7).toInt
  | _ => 0

/-- The control registers of the unit. -/
inductive UnitControl where
  | control
  | status
  | instructionAddress
  deriving DecidableEq, Repr

namespace UnitControl

/-- The bit of a control register in a list. -/
def position : UnitControl → Nat
  | control => 12
  | status => 11
  | instructionAddress => 10

/-- The control registers in the list of a command word, in the order in memory. -/
def selected (command : BitVec 16) : List UnitControl :=
  [control, status, instructionAddress].filter fun r => command.getLsbD r.position

/-- The contents of a control register. -/
def read (fpu : Fpu) : UnitControl → BitVec 32
  | control => fpu.control
  | status => fpu.status
  | instructionAddress => fpu.instructionAddress

/-- Writes a control register. -/
def write (fpu : Fpu) (value : BitVec 32) : UnitControl → Fpu
  | control => fpu.setControl value
  | status => fpu.setStatus value
  | instructionAddress => { fpu with instructionAddress := value }

end UnitControl

/-- Writes a control register of the unit. -/
def setUnitControl (r : UnitControl) (value : BitVec 32) : MachineM β Unit := do
  setUnit (r.write (← unit) value)

/-- The data registers in a list, in which bit 0 stands for the first register if `ascending` is set
and for the last one otherwise. -/
def selectedData (list : BitVec 8) (ascending : Bool) : List RegisterNumber :=
  (List.finRange 8).filter fun r => list.getLsbD (if ascending then r.val else 7 - r.val)

theorem mem_selectedData_iff (list : BitVec 8) (ascending : Bool) (r : RegisterNumber) :
    r ∈ selectedData list ascending ↔
      list.getLsbD (if ascending then r.val else 7 - r.val) := by
  simp [selectedData]

/-- Bytes of a data register in memory. -/
def dataBytes : Nat := 12

/-- The list of data registers of a command word, by itself or in a data register. -/
def dataList (command : BitVec 16) (rs : Registers) : BitVec 8 :=
  if command.getLsbD 11 then (rs.data (.ofField command 4)).setWidth 8
  else command.setWidth 8

/-- Whether a predicate of the unit holds; testing it may raise an exception in the unit. -/
def unitHolds (predicate : BitVec 16) : MachineM β Bool := do
  match (← unit).testCondition (predicate.toNat % 64) with
  | some (truth, fpu) => do
    setUnit fpu
    return truth
  | none => undefined

variable [Bus β]

/-- Reads long words one after the other. -/
def readLongs (program : Bool) : Nat → BitVec 32 → MachineM β (List (BitVec 32))
  | 0, _ => return []
  | count + 1, place => do
    let word ← load .long (.memory place program)
    return word :: (← readLongs program count (place + 4))

/-- Writes long words one after the other. -/
def writeLongs : BitVec 32 → List (BitVec 32) → MachineM β Unit
  | _, [] => pure ()
  | place, word :: rest => do
    write .long place word
    writeLongs (place + 4) rest

/-- Fetches long words from the instruction stream. -/
def fetchLongs : Nat → MachineM β (List (BitVec 32))
  | 0 => return []
  | count + 1 => do
    let word ← fetchLong
    return word :: (← fetchLongs count)

/-- The image of an operand in memory.  Bytes and words are at its right. -/
def readImage (place : BitVec 32) (program : Bool) (bytes : Nat) : MachineM β Image := do
  if bytes < 4 then return ⟨← load (sizeOfBytes bytes) (.memory place program), 0, 0⟩
  else return .ofWords (← readLongs program (bytes / 4) place)

/-- Writes the image of an operand to memory. -/
def writeImage (place : BitVec 32) (image : Image) (bytes : Nat) : MachineM β Unit :=
  if bytes < 4 then write (sizeOfBytes bytes) place image.first
  else writeLongs place (image.words.take (bytes / 4))

/-- The image of a constant in the instruction stream. -/
def fetchImage (bytes : Nat) : MachineM β Image := do
  if bytes < 4 then return ⟨← fetchConstant (sizeOfBytes bytes), 0, 0⟩
  else return .ofWords (← fetchLongs (bytes / 4))

/-- The image of a source operand. -/
def sourceImage (mode : AddressMode) (format : Fpu.DataFormat) : MachineM β Image :=
  match mode with
  | .dataReg r =>
    if format.fitsDataRegister then do
      return ⟨(sizeOfBytes format.size).truncate (← data r), 0, 0⟩
    else undefined
  | .addrReg _ => undefined
  | .immediate => fetchImage format.size
  | mode => do readImage (← memoryAddress mode format.size) mode.isPcRelative format.size

/-- Computes with a source operand that is not in a register of the unit. -/
def computeOperand (host : Fpu.HostMath) (command : BitVec 16) : MachineM β Unit := do
  let operation ← arithmetic command
  let format := Fpu.DataFormat.ofCode (command.toNat / 0x400)
  let image ← sourceImage (← opcodeMode) format
  let (value, fpu) := (← beginUnit).loadOperand format image
  setUnit (fpu.execute host operation value (.ofField command 7))

/-- Converts a register of the unit for storing. -/
def convertOut (format : Fpu.DataFormat) (command : BitVec 16) : MachineM β Image := do
  let factor := decimalFactor format command (← registers)
  let (image, fpu) := (← beginUnit).storeOperand format (.ofField command 7) factor
  setUnit fpu
  return image

/-- Stores a register of the unit. -/
def moveOut (command : BitVec 16) : MachineM β Unit := do
  let format := Fpu.DataFormat.ofCode (command.toNat / 0x400)
  let mode ← opcodeMode
  if !mode.isDataAlterable then undefined
  match mode with
  | .dataReg r =>
    if !format.fitsDataRegister then undefined
    let image ← convertOut format command
    store (sizeOfBytes format.size) (.dataReg r) image.first
  | mode =>
    let place ← memoryAddress mode format.size
    let image ← convertOut format command
    writeImage place image format.size

/-- Loads control registers of the unit from long words one after the other. -/
def loadControls (source : BitVec 32 → MachineM β (BitVec 32)) :
    BitVec 32 → List UnitControl → MachineM β Unit
  | _, [] => pure ()
  | place, r :: rest => do
    setUnitControl r (← source place)
    loadControls source (place + 4) rest

/-- Moves control registers of the unit to memory. -/
def storeControls (mode : AddressMode) (selected : List UnitControl) : MachineM β Unit := do
  if mode == .immediate || !mode.isAlterable then undefined
  let place ← memoryAddress mode (4 * selected.length)
  let fpu ← unit
  writeLongs place (selected.map (·.read fpu))

/-- Moves control registers of the unit.  A data register can hold one of them, and an address
register the instruction address. -/
def moveControls (command : BitVec 16) (toMemory : Bool) : MachineM β Unit := do
  let selected := UnitControl.selected command
  if selected.isEmpty then undefined
  let mode ← opcodeMode
  match mode, selected with
  | .dataReg r, [only] =>
    if toMemory then setData r (only.read (← unit)) else setUnitControl only (← data r)
  | .addrReg r, [.instructionAddress] =>
    if toMemory then setAddress r (UnitControl.instructionAddress.read (← unit))
    else setUnitControl .instructionAddress (← address r)
  | .dataReg _, _ | .addrReg _, _ => undefined
  | mode, selected =>
    if toMemory then storeControls mode selected
    else if mode = .immediate then loadControls (fun _ => fetchLong) 0 selected
    else
      let place ← memoryAddress mode (4 * selected.length)
      loadControls (fun place => load .long (.memory place mode.isPcRelative)) place selected

/-- Stores data registers of the unit one after the other. -/
def storeDataRegisters : BitVec 32 → List RegisterNumber → MachineM β Unit
  | _, [] => pure ()
  | place, r :: rest => do
    let fpu ← unit
    writeImage place (Fpu.pack (fpu.get r)) dataBytes
    storeDataRegisters (place + BitVec.ofNat 32 dataBytes) rest

/-- Loads data registers of the unit one after the other, bit for bit. -/
def loadDataRegisters (program : Bool) : BitVec 32 → List RegisterNumber → MachineM β Unit
  | _, [] => pure ()
  | place, r :: rest => do
    let image ← readImage place program dataBytes
    setUnit ((← unit).setData r (Fpu.unpack image))
    loadDataRegisters program (place + BitVec.ofNat 32 dataBytes) rest

/-- Where a list of data registers starts in memory.  Lists in ascending order belong to the mode
that counts down, and the others to all other modes. -/
def dataListAddress (mode : AddressMode) (toMemory ascending : Bool) (count : Nat) :
    MachineM β (BitVec 32) :=
  match mode with
  | .preDecrement r =>
    if toMemory && ascending then preDecrement r (dataBytes * count) else undefined
  | .postIncrement r =>
    if !toMemory && !ascending then postIncrement r (dataBytes * count) else undefined
  | mode =>
    if mode.isControl && !ascending && (!toMemory || mode.isAlterable) then controlAddress mode
    else undefined

/-- Moves data registers of the unit.  In memory the register with the lowest number comes first. -/
def moveDataRegisters (command : BitVec 16) (toMemory : Bool) : MachineM β Unit := do
  let ascending := !command.getLsbD 12
  let selected := selectedData (dataList command (← registers)) ascending
  let mode ← opcodeMode
  let place ← dataListAddress mode toMemory ascending selected.length
  if toMemory then storeDataRegisters place selected
  else loadDataRegisters mode.isPcRelative place selected

/-- Instructions with a command word, whose three high bits select a class. -/
def general (host : Fpu.HostMath) : MachineM β Unit := do
  let command ← fetch
  match (command.extractLsb' 13 3).toNat with
  | 0 => computeRegister host command
  | 2 =>
    if (command.extractLsb' 10 3).toNat = 7 then loadConstant command
    else computeOperand host command
  | 3 => moveOut command
  | 4 => moveControls command false
  | 5 => moveControls command true
  | 6 => moveDataRegisters command false
  | _ => moveDataRegisters command true

/-- Counts a loop down and branches unless a predicate holds. -/
def loopOnUnit (r : RegisterNumber) (predicate : BitVec 16) : MachineM β Unit := do
  let base ← pc
  let offset ← fetchSigned
  unless ← unitHolds predicate do
    if ← countDown r then jump (base + offset)

/-- Instructions with a predicate that store its outcome, loop or trap. -/
def conditional : MachineM β Unit := do
  let opcode := (← cpu).opcode
  let predicate ← fetch
  let trapWith (extra : Option Size) : MachineM β Unit := do
    skipOperand extra
    if ← unitHolds predicate then throw (.trap .conditional)
  match AddressMode.ofOpcode? opcode with
  | some (.addrReg r) => loopOnUnit r predicate
  | some .pcDisplacement => trapWith (some .word)
  | some .pcIndex => trapWith (some .long)
  | some .immediate => trapWith none
  | some mode =>
    if !mode.isDataAlterable then undefined
    let location ← locate mode .byte
    let truth ← unitHolds predicate
    store .byte location (truthByte truth)
  | none => undefined

/-- Branches on the predicate in the opcode. -/
def branchOnUnit (long : Bool) : MachineM β Unit := do
  let base ← pc
  let offset ← if long then fetchLong else fetchSigned
  if ← unitHolds (← cpu).opcode then jump (base + offset)

/-- Saves the state of the unit in a frame. -/
def saveUnit : MachineM β Unit := do
  requireSupervisor
  let frame := (← unit).save
  let mode ← opcodeMode
  let place ←
    match mode with
    | .preDecrement r => preDecrement r (4 * frame.length)
    | mode => if mode.isControlAlterable then controlAddress mode else undefined
  writeLongs place frame

/-- Restores the state of the unit from a frame. -/
def restoreUnit : MachineM β Unit := do
  requireSupervisor
  let mode ← opcodeMode
  let place ←
    match mode with
    | .postIncrement r => address r
    | mode => if mode.isControl then controlAddress mode else undefined
  let header ← read .long place
  match (← unit).restore header with
  | .error _ => throw (.exception .formatError)
  | .ok (size, fpu) =>
    setUnit fpu
    if let .postIncrement r := mode then setAddress r (place + BitVec.ofNat 32 (4 + size))

/-- Instructions of line F.  Coprocessor 1 is the floating-point unit; there are no others. -/
def lineF (host : Fpu.HostMath) : MachineM β Unit := do
  let c ← cpu
  if c.fpu.isNone || (c.opcode.extractLsb' 9 3).toNat != 1 then undefined
  match (c.opcode.extractLsb' 6 3).toNat with
  | 0 => general host
  | 1 => conditional
  | 2 => branchOnUnit false
  | 3 => branchOnUnit true
  | 4 => saveUnit
  | 5 => restoreUnit
  | _ => undefined

end Execution

end M68k
