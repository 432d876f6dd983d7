import M68k.Cpu.Alu
import M68k.Cpu.Operand

/-!
# Arithmetic and logic

Instructions that combine operands by the integer unit, and the comparisons that trap or store.

* `compute_cmp` — a comparison yields no result.
-/

namespace M68k

/-- The result of an operation, unless it is a comparison, and the condition codes. -/
def AluOp.compute (op : AluOp) (size : Size) (src dst : BitVec 32) (sr : StatusRegister) :
    Option (BitVec 32) × StatusRegister :=
  let plain (sum : BitVec 32 × StatusRegister) := (some sum.1, sum.2)
  let logical (result : BitVec 32) :=
    (some (size.truncate result), Alu.logicCodes size result sr)
  match op with
  | add => plain (Alu.add size src dst sr)
  | sub => plain (Alu.sub size src dst sr)
  | and => logical (src &&& dst)
  | or => logical (src ||| dst)
  | eor => logical (src ^^^ dst)
  | cmp => (none, Alu.cmp size src dst sr)

/-- The result of an operation on a single operand, and the condition codes. -/
def UnaryOp.compute (op : UnaryOp) (size : Size) (dst : BitVec 32) (sr : StatusRegister) :
    BitVec 32 × StatusRegister :=
  match op with
  | neg => Alu.neg size dst sr
  | negx => Alu.negx size dst sr
  | clr => (0, Alu.logicCodes size 0 sr)
  | not => (size.truncate (~~~dst), Alu.logicCodes size (~~~dst) sr)

theorem AluOp.compute_cmp (size : Size) (src dst : BitVec 32) (sr : StatusRegister) :
    (AluOp.cmp.compute size src dst sr).1 = none := rfl

namespace Execution

open MachineM

variable {β : Type} [Bus β]

/-- Combines an operand into a location and sets the condition codes once the result is stored. -/
def combine (op : AluOp) (size : Size) (src dst : BitVec 32) (target : Location) :
    MachineM β Unit := do
  let (result, codes) := op.compute size src dst (← status)
  if let some result := result then store size target result
  setCodes codes

/-- An operation between a data register and an operand. -/
def alu (op : AluOp) (size : Size) (mode : AddressMode) (r : RegisterNumber) (toOperand : Bool) :
    MachineM β Unit := do
  let location ← locate mode size
  let value ← load size location
  let own ← data r
  if toOperand then combine op size own value location
  else combine op size value own (.dataReg r)

/-- An operation on a whole address register, with the sign of the operand extended.  Only a
comparison sets condition codes. -/
def aluAddress (op : AluOp) (size : Size) (src : AddressMode) (r : RegisterNumber) :
    MachineM β Unit := do
  let value := size.signExtend (← operand src size)
  let own ← address r
  match op with
  | .add => setAddress r (own + value)
  | .sub => setAddress r (own - value)
  | _ => setCodes (Alu.cmp .long value own (← status))

/-- An operation with a constant, which precedes the extension words of the operand. -/
def aluImmediate (op : AluOp) (size : Size) (mode : AddressMode) : MachineM β Unit := do
  let constant ← operand .immediate size
  let location ← locate mode size
  combine op size constant (← load size location) location

/-- A small sum or difference.  An address register changes as a whole and sets no codes. -/
def aluQuick (add : Bool) (size : Size) (constant : Nat) (mode : AddressMode) :
    MachineM β Unit := do
  let constant := BitVec.ofNat 32 constant
  match mode with
  | .addrReg r =>
    let own ← address r
    setAddress r (if add then own + constant else own - constant)
  | mode =>
    let location ← locate mode size
    combine (if add then .add else .sub) size constant (← load size location) location

/-- The operands of an instruction on two registers or on two places in memory that are counted down
to: the source and the location of the destination. -/
def pairOperands (size : Size) (rx ry : RegisterNumber) (memory : Bool) :
    MachineM β (BitVec 32 × Location) := do
  if memory then
    let src ← read size (← preDecrement ry size.bytes)
    let target ← preDecrement rx size.bytes
    return (src, .memory target false)
  else return (← data ry, .dataReg rx)

/-- A sum or difference with the extend flag as carry. -/
def aluExtend (add : Bool) (size : Size) (rx ry : RegisterNumber) (memory : Bool) :
    MachineM β Unit := do
  let (src, target) ← pairOperands size rx ry memory
  let dst ← load size target
  let sr ← status
  let (result, codes) := if add then Alu.addx size src dst sr else Alu.subx size src dst sr
  store size target result
  setCodes codes

/-- Compares two places in memory that are counted up. -/
def cmpm (size : Size) (rx ry : RegisterNumber) : MachineM β Unit := do
  let src ← operand (.postIncrement ry) size
  let dst ← operand (.postIncrement rx) size
  setCodes (Alu.cmp size src dst (← status))

/-- An operation on a single operand. -/
def unary (op : UnaryOp) (size : Size) (mode : AddressMode) : MachineM β Unit := do
  let location ← locate mode size
  let (result, codes) := op.compute size (← load size location) (← status)
  store size location result
  setCodes codes

/-- Tests an operand. -/
def tst (size : Size) (mode : AddressMode) : MachineM β Unit := do
  setCodes (Alu.logicCodes size (← operand mode size) (← status))

/-- Tests a byte and sets its top bit. -/
def tas (mode : AddressMode) : MachineM β Unit := do
  let location ← locate mode .byte
  let value ← load .byte location
  setCodes (Alu.logicCodes .byte value (← status))
  store .byte location (value ||| 0x80)

/-! ## Decimal digits -/

/-- Stores a decimal result and sets its codes. -/
def finishDecimal (target : Location) (sum : Alu.DecimalSum) : MachineM β Unit := do
  store .byte target (sum.value.setWidth 32)
  setCodes (Alu.bcdCodes sum (← status))

/-- Decimal addition or subtraction. -/
def bcd (add : Bool) (rx ry : RegisterNumber) (memory : Bool) : MachineM β Unit := do
  let (src, target) ← pairOperands .byte rx ry memory
  let src := src.setWidth 8
  let dst := (← load .byte target).setWidth 8
  let extend := (← status).has .x
  finishDecimal target (if add then Alu.bcdAdd src dst extend else Alu.bcdSub src dst extend)

/-- Decimal negation. -/
def nbcd (mode : AddressMode) : MachineM β Unit := do
  let location ← locate mode .byte
  let value := (← load .byte location).setWidth 8
  finishDecimal location (Alu.bcdSub value 0 ((← status).has .x))

/-- The two digits of a byte as the low digits of two bytes. -/
def unpacked (byte : BitVec 16) : BitVec 16 := (byte &&& 0xF0) <<< 4 ||| (byte &&& 0x0F)

/-- The low digits of two bytes as one byte. -/
def packed (word : BitVec 16) : BitVec 16 := (word >>> 4 &&& 0xF0) ||| (word &&& 0x0F)

/-- Spreads two digits over two bytes and adds a constant. -/
def unpk (rx ry : RegisterNumber) (memory : Bool) (constant : BitVec 16) : MachineM β Unit := do
  let src ← if memory then operand (.preDecrement ry) .byte else data ry
  let result := (unpacked (src.setWidth 16) + constant).setWidth 32
  if memory then
    store .byte (← locate (.preDecrement rx) .byte) result
    store .byte (← locate (.preDecrement rx) .byte) (result >>> 8)
  else store .word (.dataReg rx) result

/-- Adds a constant to two bytes and joins their low digits. -/
def pack (rx ry : RegisterNumber) (memory : Bool) (constant : BitVec 16) : MachineM β Unit := do
  let src ←
    if memory then do
      let low ← operand (.preDecrement ry) .byte
      let high ← operand (.preDecrement ry) .byte
      pure (high <<< 8 ||| low)
    else data ry
  let result := (packed (src.setWidth 16 + constant)).setWidth 32
  let target ← if memory then locate (.preDecrement rx) .byte else pure (.dataReg rx)
  store .byte target result

/-- Packs or unpacks digits; the constant is an extension word. -/
def packOrUnpack (unpack : Bool) (rx ry : RegisterNumber) (memory : Bool) : MachineM β Unit := do
  let constant ← fetch
  if unpack then unpk rx ry memory constant else pack rx ry memory constant

/-! ## Bounds -/

/-- Traps unless a data register lies between zero and a bound. -/
def chk (size : Size) (src : AddressMode) (r : RegisterNumber) : MachineM β Unit := do
  let bound := size.signExtend (← operand src size)
  let value := size.signExtend (← data r)
  let codes := (((← status).set .z (value == 0)).set .v false).set .c false
  if value.toInt < 0 then
    setCodes (codes.set .n true)
    throw (.trap .bounds)
  if bound.toInt < value.toInt then
    setCodes (codes.set .n false)
    throw (.trap .bounds)
  setCodes codes

/-- Whether a value lies outside of bounds.  If the lower bound is the greater one, the bounds count
as signed numbers. -/
def outside (lower upper value : BitVec 32) : Bool :=
  if lower ≤ upper then value < lower || upper < value else upper < value && value < lower

/-- Compares a register with two bounds in memory, and traps if asked to. -/
def chk2 (size : Size) (mode : AddressMode) : MachineM β Unit := do
  let extension ← fetch
  let place ← controlAddress mode
  let lower ← read size place
  let upper ← read size (place + BitVec.ofNat 32 size.bytes)
  let own := (← registers).general (.ofExtension extension)
  let whole := extension.getLsbD 15
  let value := if whole then own else size.truncate own
  let lower := if whole then size.signExtend lower else lower
  let upper := if whole then size.signExtend upper else upper
  let isOutside := outside lower upper value
  setCodes (((← status).set .z (value == lower || value == upper)).set .c isOutside)
  if isOutside && extension.getLsbD 11 then throw (.trap .bounds)

/-! ## Compare and swap -/

/-- The registers of an extension word: the one compared and the one stored. -/
def swapRegisters (extension : BitVec 16) : RegisterNumber × RegisterNumber :=
  (.ofField extension 0, .ofField extension 6)

/-- Stores a register if the operand equals another register, which else takes the operand. -/
def cas (size : Size) (mode : AddressMode) : MachineM β Unit := do
  let (compared, stored) := swapRegisters (← fetch)
  let location ← locate mode size
  let value ← load size location
  let codes := Alu.cmp size (← data compared) value (← status)
  setCodes codes
  if codes.has .z then store size location (← data stored)
  else store size (.dataReg compared) value

/-- The same for two operands, of which both must be equal. -/
def cas2 (size : Size) : MachineM β Unit := do
  let extension1 ← fetch
  let extension2 ← fetch
  let place1 := (← registers).general (.ofExtension extension1)
  let place2 := (← registers).general (.ofExtension extension2)
  let (compared1, stored1) := swapRegisters extension1
  let (compared2, stored2) := swapRegisters extension2
  let value1 ← read size place1
  let value2 ← read size place2
  let own2 ← data compared2
  let first := Alu.cmp size (← data compared1) value1 (← status)
  let codes := if first.has .z then Alu.cmp size own2 value2 first else first
  setCodes codes
  if codes.has .z then
    write size place1 (← data stored1)
    write size place2 (← data stored2)
  else
    store size (.dataReg compared1) value1
    store size (.dataReg compared2) value2

end Execution

end M68k
