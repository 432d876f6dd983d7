import M68k.Cpu.Alu
import M68k.Cpu.Operand

/-!
# Moves

Moves of single operands, of several registers at once, of addresses and of lines of memory, and the
instructions that build and remove stack frames of subroutines.

* `mem_downward_iff`, `mem_upward_iff` — a register is in a list if its bit is, counted from either
  end.
-/

namespace M68k

namespace Execution

open MachineM

variable {β : Type}

/-- Moves a constant of eight bits to a data register. -/
def moveq (r : RegisterNumber) (constant : BitVec 8) : MachineM β Unit := do
  let value := constant.signExtend 32
  setData r value
  setCodes (Alu.logicCodes .long value (← status))

/-- Exchanges two registers. -/
def exg (rx ry : GeneralRegister) : MachineM β Unit :=
  modifyRegisters fun rs => (rs.setGeneral rx (rs.general ry)).setGeneral ry (rs.general rx)

/-- Exchanges the halves of a data register. -/
def swap (r : RegisterNumber) : MachineM β Unit := do
  let value := (← data r).rotateLeft 16
  setData r value
  setCodes (Alu.logicCodes .long value (← status))

/-- Extends the sign of a data register from one size to another. -/
def ext (r : RegisterNumber) (source size : Size) : MachineM β Unit := do
  let old ← data r
  let extended := size.truncate (source.signExtend old)
  setData r (size.insert old extended)
  setCodes (Alu.logicCodes size extended (← status))

/-- The registers of a list in which bit 0 stands for D0, in ascending order. -/
def upward (list : BitVec 16) : List GeneralRegister :=
  (List.finRange 16).filter fun n => list.getLsbD n.val

/-- The registers of a list in which bit 0 stands for A7, in descending order. -/
def downward (list : BitVec 16) : List GeneralRegister :=
  (List.finRange 16).reverse.filter fun n => list.getLsbD (15 - n.val)

theorem mem_upward_iff (list : BitVec 16) (n : GeneralRegister) :
    n ∈ upward list ↔ list.getLsbD n.val := by
  simp [upward]

theorem mem_downward_iff (list : BitVec 16) (n : GeneralRegister) :
    n ∈ downward list ↔ list.getLsbD (15 - n.val) := by
  simp [downward]

/-- Cycles for each register of a list. -/
def registerCycles (size : Size) : Nat := if size = .long then 8 else 4

variable [Bus β]

/-- Moves an operand. -/
def move (size : Size) (src dst : AddressMode) : MachineM β Unit := do
  let value ← operand src size
  let target ← locate dst size
  setCodes (Alu.logicCodes size value (← status))
  store size target value

/-- Moves an operand to an address register, extending its sign. -/
def movea (size : Size) (src : AddressMode) (r : RegisterNumber) : MachineM β Unit := do
  setAddress r (size.signExtend (← operand src size))

/-- Writes a value below a place and returns where it is. -/
def storeBelow (size : Size) (place value : BitVec 32) : MachineM β (BitVec 32) := do
  let place := place - BitVec.ofNat 32 size.bytes
  write size place value
  spend (registerCycles size)
  return place

/-- Stores the registers of a list downward in memory.  If the address register that counts down is
in the list, early models store its value before the instruction and later ones that value less one
step. -/
def storeDownward (size : Size) (r : RegisterNumber) (list : BitVec 16) : MachineM β Unit := do
  let start ← address r
  let own := if (← cpu).model.isEarly then start else start - BitVec.ofNat 32 size.bytes
  let last ← (downward list).foldlM (fun place n => do
    let rs ← registers
    storeBelow size place (if n = .address r then own else rs.general n)) start
  setAddress r last

/-- Writes a register to a place and returns the next place. -/
def storeRegister (size : Size) (place : BitVec 32) (n : GeneralRegister) :
    MachineM β (BitVec 32) := do
  write size place ((← registers).general n)
  spend (registerCycles size)
  return place + BitVec.ofNat 32 size.bytes

/-- Reads a register from a place, extending the sign of a word, and returns the next place. -/
def loadRegister (size : Size) (place : BitVec 32) (n : GeneralRegister) :
    MachineM β (BitVec 32) := do
  let value ← read size place
  modifyRegisters (·.setGeneral n (size.signExtend value))
  spend (registerCycles size)
  return place + BitVec.ofNat 32 size.bytes

/-- Moves the registers of a list, which precedes the extension words of the operand. -/
def movem (size : Size) (toMemory : Bool) (mode : AddressMode) : MachineM β Unit := do
  let list ← fetch
  let transfer (start : BitVec 32) : MachineM β (BitVec 32) :=
    (upward list).foldlM (if toMemory then storeRegister size else loadRegister size) start
  match mode with
  | .preDecrement r => storeDownward size r list
  | .postIncrement r => setAddress r (← transfer (← address r))
  | mode => discard (transfer (← controlAddress mode))

/-- Moves the bytes of a data register to or from every other byte of memory, high byte first. -/
def movep (size : Size) (toMemory : Bool) (dataRegister addressRegister : RegisterNumber) :
    MachineM β Unit := do
  let displacement ← fetchSigned
  let base := (← address addressRegister) + displacement
  let place (i : Nat) : BitVec 32 := base + BitVec.ofNat 32 (2 * i)
  if toMemory then
    let value ← data dataRegister
    (List.range size.bytes).forM fun i =>
      write .byte (place i) (value >>> (8 * (size.bytes - 1 - i)))
  else
    let value ← (List.range size.bytes).foldlM (fun (value : BitVec 32) i => do
      return value <<< 8 ||| (← read .byte (place i))) 0#32
    store size (.dataReg dataRegister) value

/-- Loads an address. -/
def lea (src : AddressMode) (r : RegisterNumber) : MachineM β Unit := do
  setAddress r (← controlAddress src)

/-- Pushes an address. -/
def pea (src : AddressMode) : MachineM β Unit := do
  push .long (← controlAddress src)

/-- Pushes an address register, lets it point there, and makes room on the stack.  The stack pointer
itself is pushed with its new value. -/
def link (r : RegisterNumber) (long : Bool) : MachineM β Unit := do
  let displacement ← if long then fetchLong else fetchSigned
  let top := (← sp) - 4
  let own ← address r
  let value := if r.val = 7 then top else own
  write .long top value
  setSp top
  setAddress r top
  setSp (top + displacement)

/-- Removes what `link` has made. -/
def unlk (r : RegisterNumber) : MachineM β Unit := do
  let top ← address r
  let value ← read .long top
  setSp (top + 4)
  setAddress r value

/-- Copies a line of sixteen bytes between addresses that are rounded down to lines. -/
def copyLine (src dst : BitVec 32) : MachineM β Unit :=
  (List.range 4).forM fun i => do
    let offset := BitVec.ofNat 32 (4 * i)
    let value ← read .long ((src &&& ~~~0xF#32) + offset)
    write .long ((dst &&& ~~~0xF#32) + offset) value

/-- Moves a line between the lines of two address registers, which are both counted up, or between
that of an address register and a constant address. -/
def move16 (opcode : BitVec 16) : MachineM β Unit := do
  let rx := RegisterNumber.ofField opcode 0
  if opcode.getLsbD 5 then
    let extension ← fetch
    let ry := RegisterNumber.ofField extension 12
    let src ← address rx
    let dst ← address ry
    setAddress rx (src + 16)
    unless ry = rx do setAddress ry (dst + 16)
    copyLine src dst
  else
    let constant ← fetchLong
    let place ← address rx
    unless opcode.getLsbD 4 do setAddress rx (place + 16)
    if opcode.getLsbD 3 then copyLine constant place else copyLine place constant

end Execution

end M68k
