import M68k.RegisterNumber

/-!
# Addressing modes

A mode field and a register field name twelve addressing modes.  Instructions accept classes of
them: data modes, alterable modes, control modes and their intersections.

* `isMemory_of_isControl` — control modes refer to memory.
-/

namespace M68k

/-- The addressing mode of an operand. -/
inductive AddressMode where
  | dataReg (register : RegisterNumber)
  | addrReg (register : RegisterNumber)
  | indirect (register : RegisterNumber)
  | postIncrement (register : RegisterNumber)
  | preDecrement (register : RegisterNumber)
  | displacement (register : RegisterNumber)
  /-- An index register is added; later models have a full format with more parts. -/
  | index (register : RegisterNumber)
  | absShort
  | absLong
  | pcDisplacement
  | pcIndex
  | immediate
  deriving DecidableEq, Repr

namespace AddressMode

/-- The mode of a mode field and a register field, of which three bits count each. -/
def ofFields? (mode register : Nat) : Option AddressMode :=
  let r := RegisterNumber.ofNat register
  match mode % 8 with
  | 0 => some (dataReg r)
  | 1 => some (addrReg r)
  | 2 => some (indirect r)
  | 3 => some (postIncrement r)
  | 4 => some (preDecrement r)
  | 5 => some (displacement r)
  | 6 => some (index r)
  | _ =>
    match r.val with
    | 0 => some absShort
    | 1 => some absLong
    | 2 => some pcDisplacement
    | 3 => some pcIndex
    | 4 => some immediate
    | _ => none

/-- The mode in the low six bits of an opcode. -/
def ofOpcode? (opcode : BitVec 16) : Option AddressMode :=
  ofFields? (opcode.toNat / 8) opcode.toNat

/-- The text under which a mode is reported. -/
def text : AddressMode → String
  | dataReg r => withRegister "DataReg" r
  | addrReg r => withRegister "AddrReg" r
  | indirect r => withRegister "AddrInd" r
  | postIncrement r => withRegister "AddrIndPostInc" r
  | preDecrement r => withRegister "AddrIndPreDec" r
  | displacement r => withRegister "AddrIndDisp" r
  | index r => withRegister "AddrIndIndex" r
  | absShort => "AbsShort"
  | absLong => "AbsLong"
  | pcDisplacement => "PcDisp"
  | pcIndex => "PcIndex"
  | immediate => "Immediate"
where
  /-- A name with a register number in parentheses. -/
  withRegister (name : String) (r : RegisterNumber) : String := name ++ "(" ++ toString r.val ++ ")"

/-- Whether the mode is an address register itself. -/
def isAddressRegister : AddressMode → Bool
  | addrReg _ => true
  | _ => false

/-- Whether the mode is a data register itself. -/
def isDataRegister : AddressMode → Bool
  | dataReg _ => true
  | _ => false

/-- Whether the mode counts its address register up. -/
def isPostIncrement : AddressMode → Bool
  | postIncrement _ => true
  | _ => false

/-- Whether the mode counts its address register down. -/
def isPreDecrement : AddressMode → Bool
  | preDecrement _ => true
  | _ => false

/-- Whether the mode is relative to the program counter. -/
def isPcRelative : AddressMode → Bool
  | pcDisplacement | pcIndex => true
  | _ => false

/-- Modes that refer to memory. -/
def isMemory : AddressMode → Bool
  | dataReg _ | addrReg _ | immediate => false
  | _ => true

/-- Modes that can hold data: all but address registers. -/
def isData (mode : AddressMode) : Bool := !mode.isAddressRegister

/-- Modes that can be written: all but constants and what is relative to the program counter. -/
def isAlterable : AddressMode → Bool
  | pcDisplacement | pcIndex | immediate => false
  | _ => true

/-- Data modes that can be written. -/
def isDataAlterable (mode : AddressMode) : Bool := mode.isData && mode.isAlterable

/-- Memory modes that can be written. -/
def isMemoryAlterable (mode : AddressMode) : Bool := mode.isMemory && mode.isAlterable

/-- Memory modes that change no register. -/
def isControl : AddressMode → Bool
  | postIncrement _ | preDecrement _ => false
  | mode => mode.isMemory

/-- Control modes that can be written. -/
def isControlAlterable (mode : AddressMode) : Bool := mode.isControl && mode.isAlterable

/-- Control modes refer to memory. -/
theorem isMemory_of_isControl {mode : AddressMode} (h : mode.isControl) : mode.isMemory := by
  cases mode <;> simp_all [isControl, isMemory]

end AddressMode

end M68k
