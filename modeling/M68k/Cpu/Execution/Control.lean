import M68k.Cpu.Operand

/-!
# Control of the processor

Moves to and from the status register, control registers and other address spaces, and the
instructions that stop the processor or reset the devices around it.

* `ControlRegister.read_write` — a control register holds what the model lets it hold.
-/

namespace M68k

/-- The registers that only moves to and from control registers reach. -/
inductive ControlRegister where
  | sfc
  | dfc
  | cacr
  | usp
  | vbr
  | caar
  | msp
  | isp
  /-- Registers of the memory management unit, which read as zero. -/
  | memoryUnit
  deriving DecidableEq, Repr

namespace ControlRegister

/-- The control register of a code, if the model has it. -/
def ofCode? (caps : Capabilities) (model : Model) (code : Nat) : Option ControlRegister :=
  let only (present : Bool) (register : ControlRegister) :=
    if present then some register else none
  match code with
  | 0x000 => only caps.movec sfc
  | 0x001 => only caps.movec dfc
  | 0x002 => only caps.cacr cacr
  | 0x800 => only caps.movec usp
  | 0x801 => only caps.movec vbr
  | 0x802 => only caps.caar caar
  | 0x803 => only caps.masterState msp
  | 0x804 => only caps.masterState isp
  | 0x003 | 0x004 | 0x005 | 0x006 | 0x007 | 0x805 | 0x806 | 0x807 =>
    only (model = .m68040) memoryUnit
  | _ => none

/-- The contents of a control register. -/
def read (rs : Registers) : ControlRegister → BitVec 32
  | sfc => rs.sfc.setWidth 32
  | dfc => rs.dfc.setWidth 32
  | cacr => rs.cacr
  | usp => rs.usp
  | vbr => rs.vbr
  | caar => rs.caar
  | msp => rs.msp
  | isp => rs.isp
  | memoryUnit => 0

/-- The bits that a control register has on a model. -/
def mask (model : Model) : ControlRegister → BitVec 32
  | sfc | dfc => (BitVec.allOnes 3).setWidth 32
  | cacr => model.cacheControlMask
  | memoryUnit => 0
  | _ => BitVec.allOnes 32

/-- Writes a control register; bits that it lacks stay clear. -/
def write (model : Model) (value : BitVec 32) (rs : Registers) : ControlRegister → Registers
  | sfc => { rs with sfc := value.setWidth 3 }
  | dfc => { rs with dfc := value.setWidth 3 }
  | cacr => { rs with cacr := value &&& model.cacheControlMask }
  | usp => { rs with usp := value }
  | vbr => { rs with vbr := value }
  | caar => { rs with caar := value }
  | msp => { rs with msp := value }
  | isp => { rs with isp := value }
  | memoryUnit => rs

/-- A control register holds those bits of what was written that it has. -/
theorem read_write (model : Model) (value : BitVec 32) (rs : Registers) (r : ControlRegister) :
    r.read (r.write model value rs) = value &&& r.mask model := by
  have low : (value.setWidth 3).setWidth 32 = value &&& (BitVec.allOnes 3).setWidth 32 := by
    apply BitVec.eq_of_getLsbD_eq
    intro i hi
    simp only [BitVec.getLsbD_setWidth, BitVec.getLsbD_and, BitVec.getLsbD_allOnes, hi,
      decide_true, Bool.true_and]
    cases decide (i < 3) <;> simp
  cases r with
  | memoryUnit => simp [read, mask]
  | _ => simp only [read, write, mask, low, BitVec.and_allOnes]

end ControlRegister

namespace Execution

open MachineM

variable {β : Type}

/-- Combines a constant with a status value. -/
def withConstant (op : AluOp) (value constant : BitVec 16) : BitVec 16 :=
  match op with
  | .and => value &&& constant
  | .or => value ||| constant
  | _ => value ^^^ constant

/-- Moves the user stack pointer. -/
def moveUsp (r : RegisterNumber) (toUsp : Bool) : MachineM β Unit := do
  requireSupervisor
  modifyRegisters fun rs =>
    if toUsp then { rs with usp := rs.address r } else rs.setAddress r rs.usp

variable [Bus β]

/-- Changes the condition codes by a constant. -/
def toCcr (op : AluOp) : MachineM β Unit := do
  let constant := (← fetch) &&& 0xFF
  setCodes (withConstant op ((← status) &&& StatusRegister.codeMask) constant)

/-- Changes the status register by a constant. -/
def toSr (op : AluOp) : MachineM β Unit := do
  requireSupervisor
  let constant ← fetch
  setStatus (withConstant op (← status) constant)

/-- Stores the status register; on all but the first model this is privileged. -/
def moveFromSr (dst : AddressMode) : MachineM β Unit := do
  if (← capabilities).vbr then requireSupervisor
  let location ← locate dst .word
  store .word location ((← status).setWidth 32)

/-- Stores the condition codes. -/
def moveFromCcr (dst : AddressMode) : MachineM β Unit := do
  let location ← locate dst .word
  store .word location ((← status).codes.setWidth 32)

/-- Loads the condition codes. -/
def moveToCcr (src : AddressMode) : MachineM β Unit := do
  setCodes ((← operand src .word).setWidth 16)

/-- Loads the status register. -/
def moveToSr (src : AddressMode) : MachineM β Unit := do
  requireSupervisor
  setStatus ((← operand src .word).setWidth 16)

/-- Moves a control register. -/
def movec (toControl : Bool) : MachineM β Unit := do
  requireSupervisor
  let extension ← fetch
  let c ← cpu
  match ControlRegister.ofCode? c.capabilities c.model (extension.toNat % 0x1000) with
  | none => throw (.exception .illegalInstruction)
  | some control =>
    let n := GeneralRegister.ofExtension extension
    modifyRegisters fun rs =>
      if toControl then control.write c.model (rs.general n) rs
      else rs.setGeneral n (control.read rs)

/-- Moves an operand to or from another address space.  Address registers take it with its sign
extended. -/
def moves (size : Size) (mode : AddressMode) : MachineM β Unit := do
  requireSupervisor
  let extension ← fetch
  let n := GeneralRegister.ofExtension extension
  let place ← memoryAddress mode size.bytes
  let rs ← registers
  if extension.getLsbD 11 then writeIn (.ofCode rs.dfc) size place (rs.general n)
  else
    let value ← readIn (.ofCode rs.sfc) size place
    if n.isData then store size (.dataReg n.number) value
    else setAddress n.number (size.signExtend value)

/-- Asserts the reset line. -/
def resetDevices : MachineM β Unit := do
  requireSupervisor
  onBus fun b => ((), Bus.reset b)

/-- Loads the status register and waits for an interrupt. -/
def stop : MachineM β Unit := do
  requireSupervisor
  let value ← fetch
  setStatus value
  modifyCpu fun c => { c with runState := .stopped }

/-- An illegal opcode is an exception, unless the machine around the processor knows it. -/
def illegal : MachineM β Unit := do
  let known ← onBus (Bus.illegal (← cpu).opcode)
  unless known do throw (.exception .illegalInstruction)

end Execution

end M68k
