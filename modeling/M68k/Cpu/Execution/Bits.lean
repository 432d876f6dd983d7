import M68k.Cpu.BitField
import M68k.Cpu.Instruction
import M68k.Cpu.Operand
import M68k.Cpu.Shift

/-!
# Shifts, bits and bit fields

A single bit is one of the thirty-two of a data register, or one of the eight of a byte in memory.
A bit field in memory may start far away from the operand's address, and is reached through the five
bytes that can hold it.

* `BitFieldOp.replacement_isSome` — just the modifying operations yield a new field.
-/

namespace M68k

/-- The new value of a field for the operations that modify it; an insertion takes the low bits of a
register. -/
def BitFieldOp.replacement (op : BitFieldOp) (width : Nat) (field inserted : BitVec 32) :
    Option (BitVec 32) :=
  match op with
  | chg => some (~~~field &&& BitField.mask width)
  | clr => some 0
  | set => some (BitField.mask width)
  | ins => some (inserted &&& BitField.mask width)
  | tst | extu | exts | ffo => none

/-- The register value for the operations that yield one. -/
def BitFieldOp.extraction (op : BitFieldOp) (offset : BitVec 32) (width : Nat)
    (field : BitVec 32) : Option (BitVec 32) :=
  match op with
  | extu => some field
  | exts => some (BitField.signExtend field width)
  | ffo => some (offset + BitVec.ofNat 32 (BitField.leadingZeros field width))
  | tst | chg | clr | set | ins => none

/-- Just the modifying operations yield a new field. -/
theorem BitFieldOp.replacement_isSome (op : BitFieldOp) (width : Nat) (field inserted : BitVec 32) :
    (op.replacement width field inserted).isSome = op.modifies := by
  cases op <;> rfl

namespace Execution

open MachineM

variable {β : Type}

/-- The count of a shift. -/
def countOf : ShiftCount → MachineM β Nat
  | .immediate count => pure count
  | .register r => do return (← data r).toNat % 64

/-- Shifts a data register. -/
def shiftRegister (kind : ShiftKind) (left : Bool) (size : Size) (count : ShiftCount)
    (r : RegisterNumber) : MachineM β Unit := do
  let count ← countOf count
  let value ← data r
  let (result, codes) := shift kind left size value count (← status)
  setData r (size.insert value result)
  setCodes codes
  if (← cpu).model.isEarly then spend (2 * count)

/-- The location of a bit field: its offset from the operand and its width. -/
structure FieldPlace where
  offset : BitVec 32
  width : Nat

/-- The offset and width that an extension word gives, by itself or by data registers. -/
def FieldPlace.ofExtension (rs : Registers) (extension : BitVec 16) : FieldPlace :=
  let register (low : Nat) : BitVec 32 := rs.data (.ofField extension low)
  let width := (if extension.getLsbD 5 then (register 0).toNat else extension.toNat) % 32
  { offset :=
      if extension.getLsbD 11 then register 6 else (extension.extractLsb' 6 5).setWidth 32
    width := if width = 0 then 32 else width }

/-- Does what an operation does apart from writing the field: sets the condition codes, writes the
extracted value to a register, and returns the new field if there is one. -/
def useField (op : BitFieldOp) (r : RegisterNumber) (place : FieldPlace) (field : BitVec 32) :
    MachineM β (Option (BitVec 32)) := do
  let replacement := op.replacement place.width field (← data r)
  let described := if op = .ins then replacement.getD field else field
  setCodes (BitField.codes described place.width (← status))
  if let some value := op.extraction place.offset place.width field then setData r value
  return replacement

/-- A bit-field operation on a data register, around which the field wraps. -/
def registerField (op : BitFieldOp) (r : RegisterNumber) (place : FieldPlace)
    (holder : RegisterNumber) : MachineM β Unit := do
  let start := place.offset.toNat % 32
  let field := BitField.readRegister (← data holder) start place.width
  if let some new ← useField op r place field then
    modifyRegisters fun rs =>
      rs.setData holder (BitField.writeRegister (rs.data holder) start place.width new)

variable [Bus β]

/-- Shifts a word in memory by one bit. -/
def shiftMemory (kind : ShiftKind) (left : Bool) (mode : AddressMode) : MachineM β Unit := do
  let location ← locate mode .word
  let value ← load .word location
  let (result, codes) := shift kind left .word value 1 (← status)
  store .word location result
  setCodes codes

/-- The number of a bit. -/
def bitNumber : BitSource → MachineM β Nat
  | .immediate => do return (← fetch).toNat
  | .register r => do return (← data r).toNat

/-- The value of a byte or register after an operation on one bit, except for a mere test. -/
def changedBit (op : BitOp) (value mask : BitVec 32) : Option (BitVec 32) :=
  match op with
  | .test => none
  | .change => some (value ^^^ mask)
  | .clear => some (value &&& ~~~mask)
  | .set => some (value ||| mask)

/-- Tests a bit and changes it. -/
def bit (op : BitOp) (src : BitSource) (mode : AddressMode) : MachineM β Unit := do
  let number ← bitNumber src
  let size : Size := if mode.isDataRegister then .long else .byte
  let number := number % size.bits
  let location ← locate mode size
  let value ← load size location
  let mask := 1#32 <<< number
  setCodes ((← status).set .z (value &&& mask == 0))
  if let some result := changedBit op value mask then
    if size = .long then spend (if 16 ≤ number then 4 else 2)
    store size location result

/-- A bit-field operation on memory.  The fifth byte is touched if the field reaches into it. -/
def memoryField (op : BitFieldOp) (r : RegisterNumber) (place : FieldPlace) (base : BitVec 32) :
    MachineM β Unit := do
  let address := base + BitVec.ofInt 32 (place.offset.toInt / 8)
  let start := (place.offset.toInt % 8).toNat
  let hasFifth : Bool := 32 < start + place.width
  let first ← read .long address
  let fifth ← if hasFifth then read .byte (address + 4) else pure 0
  let window : BitVec 64 := first ++ (fifth.setWidth 8 ++ 0#24)
  let field := BitField.readWindow window start place.width
  if let some new ← useField op r place field then
    let window := BitField.writeWindow window start place.width new
    write .long address (window.extractLsb' 32 32)
    if hasFifth then write .byte (address + 4) ((window.extractLsb' 24 8).setWidth 32)

/-- A bit-field operation. -/
def bitField (op : BitFieldOp) (mode : AddressMode) : MachineM β Unit := do
  let extension ← fetch
  let place := FieldPlace.ofExtension (← registers) extension
  let r := RegisterNumber.ofField extension 12
  match mode with
  | .dataReg holder => registerField op r place holder
  | mode => memoryField op r place (← controlAddress mode)

end Execution

end M68k
