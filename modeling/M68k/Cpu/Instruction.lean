import M68k.Cpu.AddressMode
import M68k.Cpu.BitField
import M68k.Cpu.Registers
import M68k.Cpu.Shift
import M68k.Cpu.Size

/-!
# Instructions

What the first word of an instruction says.  Extension words are read while the instruction is
executed, so they leave no trace here.
-/

namespace M68k

/-- Operations with two operands. -/
inductive AluOp where
  | add
  | sub
  | and
  | or
  | eor
  /-- A difference that is not stored. -/
  | cmp
  deriving DecidableEq, Repr

/-- Operations that replace their only operand. -/
inductive UnaryOp where
  /-- Negation with borrow. -/
  | negx
  | clr
  | neg
  | not
  deriving DecidableEq, Repr

/-- Where the count of a shift comes from. -/
inductive ShiftCount where
  /-- A count from one to eight. -/
  | immediate (count : Nat)
  /-- A data register, of which six bits count. -/
  | register (register : RegisterNumber)
  deriving DecidableEq, Repr

/-- Operations on single bits. -/
inductive BitOp where
  | test
  | change
  | clear
  | set
  deriving DecidableEq, Repr

/-- Where the number of a bit comes from. -/
inductive BitSource where
  /-- An extension word. -/
  | immediate
  | register (register : RegisterNumber)
  deriving DecidableEq, Repr

/-- The operation of a two-bit code. -/
def BitOp.ofCode (code : Nat) : BitOp :=
  match code % 4 with
  | 0 => test
  | 1 => change
  | 2 => clear
  | _ => set

/-- Instructions.  Of two registers, `rx` is the destination and `ry` the source. -/
inductive Instruction where
  -- Moves
  | move (size : Size) (src dst : AddressMode)
  | movea (size : Size) (src : AddressMode) (register : RegisterNumber)
  | moveq (register : RegisterNumber) (data : BitVec 8)
  /-- Several registers; the list is an extension word. -/
  | movem (size : Size) (toMemory : Bool) (mode : AddressMode)
  /-- Every other byte of memory. -/
  | movep (size : Size) (toMemory : Bool) (data address : RegisterNumber)
  | lea (src : AddressMode) (register : RegisterNumber)
  | pea (src : AddressMode)
  | exg (rx ry : GeneralRegister)
  | swap (register : RegisterNumber)
  /-- Sign extension from one size to another. -/
  | ext (register : RegisterNumber) (source size : Size)
  | link (register : RegisterNumber) (long : Bool)
  | unlk (register : RegisterNumber)
  | moveFromSr (dst : AddressMode)
  | moveFromCcr (dst : AddressMode)
  | moveToCcr (src : AddressMode)
  | moveToSr (src : AddressMode)
  | moveUsp (register : RegisterNumber) (toUsp : Bool)
  | movec (toControl : Bool)
  /-- To or from another address space. -/
  | moves (size : Size) (mode : AddressMode)
  /-- A line of sixteen bytes. -/
  | move16 (opcode : BitVec 16)
  -- Arithmetic and logic
  /-- The result goes to the operand if `toOperand` is set, else to the register. -/
  | alu (op : AluOp) (size : Size) (mode : AddressMode) (register : RegisterNumber)
      (toOperand : Bool)
  | aluAddress (op : AluOp) (size : Size) (src : AddressMode) (register : RegisterNumber)
  | aluImmediate (op : AluOp) (size : Size) (mode : AddressMode)
  /-- A constant from one to eight. -/
  | aluQuick (add : Bool) (size : Size) (data : Nat) (mode : AddressMode)
  /-- With the extend flag as carry. -/
  | aluExtend (add : Bool) (size : Size) (rx ry : RegisterNumber) (memory : Bool)
  | cmpm (size : Size) (rx ry : RegisterNumber)
  | toCcr (op : AluOp)
  | toSr (op : AluOp)
  | unary (op : UnaryOp) (size : Size) (mode : AddressMode)
  | tst (size : Size) (mode : AddressMode)
  | tas (mode : AddressMode)
  | mul (signed : Bool) (src : AddressMode) (register : RegisterNumber)
  | div (signed : Bool) (src : AddressMode) (register : RegisterNumber)
  | mulLong (src : AddressMode)
  | divLong (src : AddressMode)
  /-- Decimal addition or subtraction. -/
  | bcd (add : Bool) (rx ry : RegisterNumber) (memory : Bool)
  | nbcd (mode : AddressMode)
  | pack (unpack : Bool) (rx ry : RegisterNumber) (memory : Bool)
  | chk (size : Size) (src : AddressMode) (register : RegisterNumber)
  /-- Comparison with two bounds. -/
  | chk2 (size : Size) (mode : AddressMode)
  | cas (size : Size) (mode : AddressMode)
  | cas2 (size : Size)
  -- Shifts and bits
  | shiftRegister (kind : ShiftKind) (left : Bool) (size : Size) (count : ShiftCount)
      (register : RegisterNumber)
  /-- A word in memory by one bit. -/
  | shiftMemory (kind : ShiftKind) (left : Bool) (mode : AddressMode)
  | bit (op : BitOp) (src : BitSource) (mode : AddressMode)
  | bitField (op : BitFieldOp) (mode : AddressMode)
  -- Control
  /-- Condition 0 branches always, condition 1 to a subroutine. -/
  | bcc (condition : BitVec 4) (displacement : BitVec 8)
  | dbcc (condition : BitVec 4) (register : RegisterNumber)
  | scc (condition : BitVec 4) (mode : AddressMode)
  | trapcc (condition : BitVec 4) (operand : Option Size)
  | jmp (mode : AddressMode)
  | jsr (mode : AddressMode)
  | rts
  | rtr
  | rte
  | rtd
  | trap (number : Nat)
  | trapv
  | nop
  | reset
  | stop
  | bkpt
  | illegal
  | lineA
  /-- Instructions of coprocessors. -/
  | lineF
  | cacheOp
  | mmuOp
  deriving DecidableEq, Repr

end M68k
