import M68k.Cpu.Instruction
import M68k.Cpu.Model

/-!
# Opcodes

An opcode selects an instruction, its addressing modes and its registers.  Combinations of an
instruction with a mode that it does not accept, and instructions that a model lacks, are illegal.

The four top bits split the opcodes into lines, and each line has a function of its own whose answer
is `none` for illegal opcodes.

* `ofOpcode_lineA` — line A is the same on every model.
-/

namespace M68k

namespace Instruction

/-- A field of an opcode, given by its lowest bit and its width. -/
def field (opcode : BitVec 16) (low width : Nat) : Nat := (opcode.extractLsb' low width).toNat

/-- The register in the low bits. -/
def lowRegister (opcode : BitVec 16) : RegisterNumber := .ofField opcode 0

/-- The register in bits 9 to 11. -/
def highRegister (opcode : BitVec 16) : RegisterNumber := .ofField opcode 9

/-- The condition in bits 8 to 11. -/
def conditionOf (opcode : BitVec 16) : BitVec 4 := opcode.extractLsb' 8 4

/-- A field in which zero stands for eight. -/
def countOf (opcode : BitVec 16) : Nat :=
  match field opcode 9 3 with
  | 0 => 8
  | n => n

/-- The operand in the low six bits, if its mode is accepted. -/
def operand? (opcode : BitVec 16) (accepts : AddressMode → Bool) : Option AddressMode :=
  (AddressMode.ofOpcode? opcode).filter accepts

/-- Bytes of address registers do not exist. -/
def fits (size : Size) (mode : AddressMode) : Bool :=
  !(size == .byte && mode.isAddressRegister)

/-- A word or a long word, as bit 6 says. -/
def wordOrLong (long : Bool) : Size := if long then .long else .word

/-- Operations with a constant operand. -/
def immediateOp? : Nat → Option AluOp
  | 0 => some .or
  | 1 => some .and
  | 2 => some .sub
  | 3 => some .add
  | 5 => some .eor
  | 6 => some .cmp
  | _ => none

/-- Single-bit operations and moves of alternate bytes with a register in the opcode. -/
def dynamicBit? (opcode : BitVec 16) : Option Instruction :=
  if field opcode 3 3 = 1 then
    some (movep (wordOrLong (opcode.getLsbD 6)) (opcode.getLsbD 7) (highRegister opcode)
      (lowRegister opcode))
  else do
    let op := BitOp.ofCode (field opcode 6 2)
    let mode ← operand? opcode
      (if op = .test then AddressMode.isData else AddressMode.isDataAlterable)
    return bit op (.register (highRegister opcode)) mode

/-- Single-bit operations with a constant bit number. -/
def staticBit? (opcode : BitVec 16) : Option Instruction := do
  let op := BitOp.ofCode (field opcode 6 2)
  let mode ← operand? opcode fun mode =>
    if op = .test then mode.isData && mode != .immediate else mode.isDataAlterable
  return bit op .immediate mode

/-- Arithmetic with a constant.  Comparisons accept operands relative to the program counter on
models with extended addressing. -/
def immediate? (caps : Capabilities) (opcode : BitVec 16) : Option Instruction := do
  let op ← immediateOp? (field opcode 9 3)
  let size ← Size.ofCode? (field opcode 6 2)
  let mode ← operand? opcode fun mode =>
    mode.isDataAlterable || (op == .cmp && caps.extendedAddressing && mode.isPcRelative)
  return aluImmediate op size mode

/-- Line 0 without the opcodes that name no operand. -/
def line0Operand? (caps : Capabilities) (opcode : BitVec 16) : Option Instruction :=
  let group := field opcode 9 3
  let sizeCode := field opcode 6 2
  if opcode.getLsbD 8 then dynamicBit? opcode
  else if group = 4 then staticBit? opcode
  else if sizeCode = 3 then
    if group < 3 then do
      guard caps.chk2
      return chk2 (← Size.ofCode? group) (← operand? opcode AddressMode.isControl)
    else if 4 < group then do
      guard caps.cas
      return cas (← Size.ofCasCode? group) (← operand? opcode AddressMode.isMemoryAlterable)
    else none
  else if group = 7 then do
    guard caps.movec
    return moves (← Size.ofCode? sizeCode) (← operand? opcode AddressMode.isMemoryAlterable)
  else immediate? caps opcode

/-- Line 0: constants, single bits, moves between address spaces, compare and swap. -/
def line0? (caps : Capabilities) (opcode : BitVec 16) : Option Instruction :=
  match opcode.toNat with
  | 0x003C => some (toCcr .or)
  | 0x007C => some (toSr .or)
  | 0x023C => some (toCcr .and)
  | 0x027C => some (toSr .and)
  | 0x0A3C => some (toCcr .eor)
  | 0x0A7C => some (toSr .eor)
  | 0x0CFC => if caps.cas then some (cas2 .word) else line0Operand? caps opcode
  | 0x0EFC => if caps.cas then some (cas2 .long) else line0Operand? caps opcode
  | _ => line0Operand? caps opcode

/-- Lines 1 to 3: moves, with the destination's mode and register fields exchanged. -/
def lineMove? (opcode : BitVec 16) : Option Instruction := do
  let size ← Size.ofMoveCode? (field opcode 12 2)
  let src ← operand? opcode (fits size)
  match ← AddressMode.ofFields? (field opcode 6 3) (field opcode 9 3) with
  | .addrReg r => if size = .byte then none else some (movea size src r)
  | dst => if dst.isDataAlterable then some (move size src dst) else none

/-- Bounds checks and address computations. -/
def line4Odd? (caps : Capabilities) (opcode : BitVec 16) : Option Instruction :=
  match field opcode 6 2 with
  | 3 => do return lea (← operand? opcode AddressMode.isControl) (highRegister opcode)
  | 2 => do return chk .word (← operand? opcode AddressMode.isData) (highRegister opcode)
  | 0 => do
    guard caps.chk2
    return chk .long (← operand? opcode AddressMode.isData) (highRegister opcode)
  | _ => none

/-- Operations that replace their operand. -/
def unary? (opcode : BitVec 16) (op : UnaryOp) : Option Instruction := do
  return unary op (← Size.ofCode? (field opcode 6 2))
    (← operand? opcode AddressMode.isDataAlterable)

/-- Decimal negation, exchange of halves, sign extension, storing of several registers. -/
def line48? (caps : Capabilities) (opcode : BitVec 16) : Option Instruction :=
  let modeCode := field opcode 3 3
  match field opcode 6 2 with
  | 0 =>
    if modeCode = 1 then do
      guard caps.longMuldiv
      return link (lowRegister opcode) true
    else do return nbcd (← operand? opcode AddressMode.isDataAlterable)
  | 1 =>
    if modeCode = 0 then some (swap (lowRegister opcode))
    else if modeCode = 1 then do
      guard caps.movec
      return bkpt
    else do return pea (← operand? opcode AddressMode.isControl)
  | sizeCode =>
    let long : Bool := sizeCode = 3
    if modeCode = 0 then
      some (ext (lowRegister opcode) (if long then .word else .byte) (wordOrLong long))
    else do
      let mode ← operand? opcode fun mode => mode.isControlAlterable || mode.isPreDecrement
      return movem (wordOrLong long) true mode

/-- Tests of an operand.  Models with extended addressing accept every mode. -/
def tst? (caps : Capabilities) (opcode : BitVec 16) : Option Instruction := do
  let size ← Size.ofCode? (field opcode 6 2)
  let mode ← operand? opcode fun mode =>
    if caps.extendedAddressing then fits size mode else mode.isDataAlterable
  return tst size mode

/-- Long multiplication and division, loading of several registers. -/
def line4C? (caps : Capabilities) (opcode : BitVec 16) : Option Instruction :=
  match field opcode 6 2 with
  | 0 => do
    guard caps.longMuldiv
    return mulLong (← operand? opcode AddressMode.isData)
  | 1 => do
    guard caps.longMuldiv
    return divLong (← operand? opcode AddressMode.isData)
  | sizeCode => do
    let mode ← operand? opcode fun mode => mode.isControl || mode.isPostIncrement
    return movem (wordOrLong (sizeCode = 3)) false mode

/-- Traps, stack frames, subroutine calls and jumps. -/
def line4E? (opcode : BitVec 16) : Option Instruction :=
  match field opcode 6 2 with
  | 1 =>
    let r := lowRegister opcode
    match field opcode 3 3 with
    | 0 | 1 => some (trap (field opcode 0 4))
    | 2 => some (link r false)
    | 3 => some (unlk r)
    | 4 => some (moveUsp r true)
    | 5 => some (moveUsp r false)
    | _ => none
  | 2 => do return jsr (← operand? opcode AddressMode.isControl)
  | 3 => do return jmp (← operand? opcode AddressMode.isControl)
  | _ => none

/-- Line 4 without the opcodes that name no operand. -/
def line4Operand? (caps : Capabilities) (opcode : BitVec 16) : Option Instruction :=
  let last : Bool := field opcode 6 2 = 3
  if opcode.getLsbD 8 then line4Odd? caps opcode
  else
    match field opcode 8 4 with
    | 0x0 =>
      if last then do return moveFromSr (← operand? opcode AddressMode.isDataAlterable)
      else unary? opcode .negx
    | 0x2 =>
      if last then do
        guard caps.movec
        return moveFromCcr (← operand? opcode AddressMode.isDataAlterable)
      else unary? opcode .clr
    | 0x4 =>
      if last then do return moveToCcr (← operand? opcode AddressMode.isData)
      else unary? opcode .neg
    | 0x6 =>
      if last then do return moveToSr (← operand? opcode AddressMode.isData)
      else unary? opcode .not
    | 0x8 => line48? caps opcode
    | 0xA =>
      if last then do return tas (← operand? opcode AddressMode.isDataAlterable)
      else tst? caps opcode
    | 0xC => line4C? caps opcode
    | _ => line4E? opcode

/-- Line 4: the rest of the moves, control of the processor and single-operand instructions. -/
def line4? (caps : Capabilities) (opcode : BitVec 16) : Option Instruction :=
  match opcode.toNat with
  | 0x4AFC => none
  | 0x4E70 => some reset
  | 0x4E71 => some nop
  | 0x4E72 => some stop
  | 0x4E73 => some rte
  | 0x4E74 => if caps.movec then some rtd else none
  | 0x4E75 => some rts
  | 0x4E76 => some trapv
  | 0x4E77 => some rtr
  | 0x4E7A => if caps.movec then some (movec false) else none
  | 0x4E7B => if caps.movec then some (movec true) else none
  | _ =>
    if field opcode 3 13 = 0x49C0 / 8 then do
      guard caps.longMuldiv
      return ext (lowRegister opcode) .byte .long
    else line4Operand? caps opcode

/-- Line 5: small constants and instructions with a condition. -/
def line5? (caps : Capabilities) (opcode : BitVec 16) : Option Instruction :=
  match Size.ofCode? (field opcode 6 2) with
  | some size => do
    let mode ← operand? opcode fun mode => mode.isAlterable && fits size mode
    return aluQuick (!opcode.getLsbD 8) size (countOf opcode) mode
  | none =>
    let condition := conditionOf opcode
    match field opcode 0 6 with
    | 0x3A => do
      guard caps.longMuldiv
      return trapcc condition (some .word)
    | 0x3B => do
      guard caps.longMuldiv
      return trapcc condition (some .long)
    | 0x3C => do
      guard caps.longMuldiv
      return trapcc condition none
    | _ =>
      if field opcode 3 3 = 1 then some (dbcc condition (lowRegister opcode))
      else do return scc condition (← operand? opcode AddressMode.isDataAlterable)

/-- Operations between a data register and an operand, in either direction. -/
def alu? (opcode : BitVec 16) (op : AluOp) : Option Instruction := do
  let size ← Size.ofCode? (field opcode 6 2)
  let toOperand := opcode.getLsbD 8
  let mode ← operand? opcode fun mode =>
    if toOperand then mode.isMemoryAlterable
    else if op = .and ∨ op = .or then mode.isData
    else fits size mode
  return alu op size mode (highRegister opcode) toOperand

/-- Line 8: disjunction, division, decimal subtraction, packed digits. -/
def line8? (caps : Capabilities) (opcode : BitVec 16) : Option Instruction :=
  let rx := highRegister opcode
  let ry := lowRegister opcode
  let memory := opcode.getLsbD 3
  if field opcode 6 2 = 3 then do
    return div (opcode.getLsbD 8) (← operand? opcode AddressMode.isData) rx
  else
    match field opcode 4 5 with
    | 0x10 => some (bcd false rx ry memory)
    | 0x14 => do
      guard caps.pack
      return pack false rx ry memory
    | 0x18 => do
      guard caps.pack
      return pack true rx ry memory
    | _ => alu? opcode .or

/-- An operation on an address register. -/
def aluAddress? (opcode : BitVec 16) (op : AluOp) : Option Instruction := do
  return aluAddress op (wordOrLong (opcode.getLsbD 8)) (← AddressMode.ofOpcode? opcode)
    (highRegister opcode)

/-- Lines 9 and D: differences and sums. -/
def lineSum? (opcode : BitVec 16) (op : AluOp) : Option Instruction :=
  if field opcode 6 2 = 3 then aluAddress? opcode op
  else if opcode.getLsbD 8 && field opcode 4 2 == 0 then do
    return aluExtend (op = .add) (← Size.ofCode? (field opcode 6 2)) (highRegister opcode)
      (lowRegister opcode) (opcode.getLsbD 3)
  else alu? opcode op

/-- Line B: comparison and exclusive disjunction. -/
def lineB? (opcode : BitVec 16) : Option Instruction :=
  if field opcode 6 2 = 3 then aluAddress? opcode .cmp
  else if opcode.getLsbD 8 then do
    let size ← Size.ofCode? (field opcode 6 2)
    if field opcode 3 3 = 1 then return cmpm size (highRegister opcode) (lowRegister opcode)
    else
      return alu .eor size (← operand? opcode AddressMode.isDataAlterable) (highRegister opcode)
        true
  else alu? opcode .cmp

/-- Line C: conjunction, multiplication, decimal addition, exchange of registers. -/
def lineC? (opcode : BitVec 16) : Option Instruction :=
  let rx := highRegister opcode
  let ry := lowRegister opcode
  if field opcode 6 2 = 3 then do
    return mul (opcode.getLsbD 8) (← operand? opcode AddressMode.isData) rx
  else
    match field opcode 3 6 with
    | 0x20 => some (bcd true rx ry false)
    | 0x21 => some (bcd true rx ry true)
    | 0x28 => some (exg (.data rx) (.data ry))
    | 0x29 => some (exg (.address rx) (.address ry))
    | 0x31 => some (exg (.data rx) (.address ry))
    | _ => alu? opcode .and

/-- Bit fields, which data registers and control modes can hold. -/
def bitField? (caps : Capabilities) (opcode : BitVec 16) : Option Instruction := do
  guard caps.bitfield
  let op := BitFieldOp.ofCode (field opcode 8 3)
  let mode ← operand? opcode fun mode =>
    mode.isDataRegister || if op.modifies then mode.isControlAlterable else mode.isControl
  return bitField op mode

/-- Line E: shifts and bit fields. -/
def lineE? (caps : Capabilities) (opcode : BitVec 16) : Option Instruction :=
  let left := opcode.getLsbD 8
  match Size.ofCode? (field opcode 6 2) with
  | some size =>
    let count :=
      if opcode.getLsbD 5 then .register (highRegister opcode) else .immediate (countOf opcode)
    some (shiftRegister (.ofCode (field opcode 3 2)) left size count (lowRegister opcode))
  | none =>
    if opcode.getLsbD 11 then bitField? caps opcode
    else do
      let mode ← operand? opcode AddressMode.isMemoryAlterable
      return shiftMemory (.ofCode (field opcode 9 2)) left mode

/-- Line F: coprocessors, and line moves and cache control where they exist. -/
def lineFOf (caps : Capabilities) (opcode : BitVec 16) : Instruction :=
  if caps.move16 then
    if field opcode 3 13 = 0xF620 / 8 ∨ field opcode 5 11 = 0xF600 / 32 then move16 opcode
    else
      match field opcode 8 8 with
      | 0xF4 => cacheOp
      | 0xF5 => mmuOp
      | _ => lineF
  else lineF

/-- The instruction of an opcode, if it is legal on a model. -/
def ofOpcode? (caps : Capabilities) (opcode : BitVec 16) : Option Instruction :=
  match field opcode 12 4 with
  | 0x0 => line0? caps opcode
  | 0x1 | 0x2 | 0x3 => lineMove? opcode
  | 0x4 => line4? caps opcode
  | 0x5 => line5? caps opcode
  | 0x6 => some (bcc (conditionOf opcode) (opcode.setWidth 8))
  | 0x7 =>
    if opcode.getLsbD 8 then none else some (moveq (highRegister opcode) (opcode.setWidth 8))
  | 0x8 => line8? caps opcode
  | 0x9 => lineSum? opcode .sub
  | 0xA => some lineA
  | 0xB => lineB? opcode
  | 0xC => lineC? opcode
  | 0xD => lineSum? opcode .add
  | 0xE => lineE? caps opcode
  | _ => some (lineFOf caps opcode)

/-- The instruction of an opcode. -/
def ofOpcode (caps : Capabilities) (opcode : BitVec 16) : Instruction :=
  (ofOpcode? caps opcode).getD illegal

/-- Line A is the same on every model. -/
theorem ofOpcode_lineA (caps : Capabilities) {opcode : BitVec 16} (h : field opcode 12 4 = 0xA) :
    ofOpcode caps opcode = lineA := by
  simp [ofOpcode, ofOpcode?, h]

end Instruction

end M68k
