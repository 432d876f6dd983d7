import M68k.Cpu.StatusRegister
import M68k.RegisterNumber

/-!
# Registers

Three stack pointers are stored apart, and A7 is the one that the mode bits of the status register
select, so it can never disagree with them.

* `address_setAddress_self`, `address_setAddress_of_ne` — writing an address register changes what
  is read from it and from no other;
* `sr_setAddress` — it leaves the status register alone.
-/

namespace M68k

/-- The stack pointers among which the mode bits choose. -/
inductive StackPointer where
  | user
  | interrupt
  | master
  deriving DecidableEq, Repr

/-- The registers of the processor. -/
structure Registers where
  /-- Data registers. -/
  d : Vector (BitVec 32) 8
  /-- Address registers A0 to A6. -/
  a : Vector (BitVec 32) 7
  /-- User stack pointer. -/
  usp : BitVec 32
  /-- Interrupt stack pointer, the only one of supervisor mode on early models. -/
  isp : BitVec 32
  /-- Master stack pointer. -/
  msp : BitVec 32
  /-- Program counter. -/
  pc : BitVec 32
  /-- Address of the instruction under execution. -/
  ppc : BitVec 32
  sr : StatusRegister
  /-- Vector base register. -/
  vbr : BitVec 32
  /-- Function code of the source of a move between address spaces. -/
  sfc : BitVec 3
  /-- Function code of its destination. -/
  dfc : BitVec 3
  /-- Cache control register. -/
  cacr : BitVec 32
  /-- Cache address register. -/
  caar : BitVec 32
  deriving DecidableEq, Repr

namespace Registers

/-- The registers after a reset. -/
def initial : Registers where
  d := Vector.replicate 8 0
  a := Vector.replicate 7 0
  usp := 0
  isp := 0
  msp := 0
  pc := 0
  ppc := 0
  sr := .initial
  vbr := 0
  sfc := 0
  dfc := 0
  cacr := 0
  caar := 0

/-- Whether supervisor mode is on. -/
def isSupervisor (r : Registers) : Bool := r.sr.has .s

/-- Whether the master state is on. -/
def isMaster (r : Registers) : Bool := r.sr.has .m

/-- The stack pointer that a status register selects. -/
def stackOf (sr : StatusRegister) : StackPointer :=
  if sr.has .s then if sr.has .m then .master else .interrupt else .user

/-- The contents of a stack pointer. -/
def stack (r : Registers) : StackPointer → BitVec 32
  | .user => r.usp
  | .interrupt => r.isp
  | .master => r.msp

/-- Writes a stack pointer. -/
def setStack (r : Registers) (which : StackPointer) (value : BitVec 32) : Registers :=
  match which with
  | .user => { r with usp := value }
  | .interrupt => { r with isp := value }
  | .master => { r with msp := value }

/-- The stack pointer in use. -/
def sp (r : Registers) : BitVec 32 := r.stack (stackOf r.sr)

/-- Writes the stack pointer in use. -/
def setSp (r : Registers) (value : BitVec 32) : Registers := r.setStack (stackOf r.sr) value

/-- The contents of an address register. -/
def address (r : Registers) (n : RegisterNumber) : BitVec 32 :=
  if h : n.val < 7 then getElem r.a n.val h else r.sp

/-- Writes an address register. -/
def setAddress (r : Registers) (n : RegisterNumber) (value : BitVec 32) : Registers :=
  if h : n.val < 7 then { r with a := r.a.set n.val value h } else r.setSp value

/-- The contents of a data register. -/
def data (r : Registers) (n : RegisterNumber) : BitVec 32 := getElem r.d n.val n.lt_eight

/-- Writes a data register. -/
def setData (r : Registers) (n : RegisterNumber) (value : BitVec 32) : Registers :=
  { r with d := r.d.set n.val value n.lt_eight }

/-- The contents of a general register. -/
def general (r : Registers) (n : GeneralRegister) : BitVec 32 :=
  if n.isData then r.data n.number else r.address n.number

/-- Writes a general register. -/
def setGeneral (r : Registers) (n : GeneralRegister) (value : BitVec 32) : Registers :=
  if n.isData then r.setData n.number value else r.setAddress n.number value

/-- Writes the status register; bits outside `mask` stay clear. -/
def setStatus (r : Registers) (value mask : StatusRegister) : Registers :=
  { r with sr := value &&& mask }

/-- Replaces the condition codes. -/
def setCodes (r : Registers) (codes : StatusRegister) : Registers :=
  { r with sr := r.sr.setCodes codes }

/-- Replaces the interrupt mask. -/
def setInterruptMask (r : Registers) (level : BitVec 3) : Registers :=
  { r with sr := r.sr.setInterruptMask level }

@[simp] theorem sr_setStack (r : Registers) (which : StackPointer) (value : BitVec 32) :
    (r.setStack which value).sr = r.sr := by
  cases which <;> rfl

@[simp] theorem stack_setStack_self (r : Registers) (which : StackPointer) (value : BitVec 32) :
    (r.setStack which value).stack which = value := by
  cases which <;> rfl

@[simp] theorem sp_setSp (r : Registers) (value : BitVec 32) : (r.setSp value).sp = value := by
  simp [sp, setSp]

@[simp] theorem a_setStack (r : Registers) (which : StackPointer) (value : BitVec 32) :
    (r.setStack which value).a = r.a := by
  cases which <;> rfl

/-- Writing an address register leaves the status register alone. -/
@[simp] theorem sr_setAddress (r : Registers) (n : RegisterNumber) (value : BitVec 32) :
    (r.setAddress n value).sr = r.sr := by
  unfold setAddress
  split
  · rfl
  · simp [setSp]

/-- An address register holds what was written to it. -/
@[simp] theorem address_setAddress_self (r : Registers) (n : RegisterNumber) (value : BitVec 32) :
    (r.setAddress n value).address n = value := by
  by_cases h : n.val < 7 <;> simp [address, setAddress, h]

/-- Writing an address register leaves the others alone. -/
theorem address_setAddress_of_ne (r : Registers) {m n : RegisterNumber} (h : m ≠ n)
    (value : BitVec 32) : (r.setAddress n value).address m = r.address m := by
  have hv : m.val ≠ n.val := fun e => h (Fin.ext e)
  by_cases hm : m.val < 7 <;> by_cases hn : n.val < 7
  · simp [address, setAddress, hm, hn, Ne.symm hv]
  · simp [address, setAddress, hm, hn, setSp]
  · have : ({ r with a := r.a.set n.val value } : Registers).sp = r.sp := rfl
    simp [address, setAddress, hm, hn, this]
  · omega

end Registers

end M68k
