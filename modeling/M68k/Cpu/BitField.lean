import M68k.Cpu.StatusRegister

/-!
# Bit fields

A bit field has one to thirty-two bits and may start at any bit, counted from the most significant
one.  In a register it wraps around; in memory it lies in a window of five bytes.

Both cases look at the field through a window: the register rotated until the field is on top, or
the five bytes as the top of a 64-bit word shifted to the field's first bit.
-/

namespace M68k

/-- The operations on bit fields. -/
inductive BitFieldOp where
  | tst
  | extu
  | chg
  | exts
  | clr
  | ffo
  | set
  | ins
  deriving DecidableEq, Repr

namespace BitFieldOp

/-- The operation of a three-bit code. -/
def ofCode (code : Nat) : BitFieldOp :=
  match code % 8 with
  | 0 => tst
  | 1 => extu
  | 2 => chg
  | 3 => exts
  | 4 => clr
  | 5 => ffo
  | 6 => set
  | _ => ins

/-- Whether the operation writes the field. -/
def modifies : BitFieldOp → Bool
  | chg | clr | set | ins => true
  | _ => false

/-- The name under which an operation is reported. -/
def name : BitFieldOp → String
  | tst => "Tst"
  | extu => "Extu"
  | chg => "Chg"
  | exts => "Exts"
  | clr => "Clr"
  | ffo => "Ffo"
  | set => "Set"
  | ins => "Ins"

end BitFieldOp

namespace BitField

/-- The low `width` bits set. -/
def mask (width : Nat) : BitVec 32 := BitVec.ofNat 32 (Nat.pow 2 width - 1)

/-- Reads the field that starts `start` bits below the top of a register. -/
def readRegister (value : BitVec 32) (start width : Nat) : BitVec 32 :=
  value.rotateLeft start >>> (32 - width)

/-- Writes that field. -/
def writeRegister (value : BitVec 32) (start width : Nat) (field : BitVec 32) : BitVec 32 :=
  let place := mask width <<< (32 - width)
  let rotated := value.rotateLeft start
  ((rotated &&& ~~~place) ||| (field <<< (32 - width) &&& place)).rotateRight start

/-- Reads the field that starts `start` bits below the top of a window. -/
def readWindow (window : BitVec 64) (start width : Nat) : BitVec 32 :=
  (window <<< start >>> (64 - width)).setWidth 32

/-- Writes that field. -/
def writeWindow (window : BitVec 64) (start width : Nat) (field : BitVec 32) : BitVec 64 :=
  let shift := 64 - width - start
  (window &&& ~~~((mask width).setWidth 64 <<< shift)) ||| field.setWidth 64 <<< shift

/-- The field as a signed number. -/
def signExtend (field : BitVec 32) (width : Nat) : BitVec 32 :=
  if field.getLsbD (width - 1) then field ||| ~~~mask width else field

/-- The number of zeros before the first one of the field, `width` if there is none. -/
def leadingZeros (field : BitVec 32) (width : Nat) : Nat :=
  if field = 0 then width else width - 1 - field.toNat.log2

/-- The codes that describe a field: its first bit, whether it is zero, no carry, no overflow. -/
def codes (field : BitVec 32) (width : Nat) (sr : StatusRegister) : StatusRegister :=
  (((sr.set .n (field.getLsbD (width - 1))).set .z (field &&& mask width == 0)).set .v false).set .c
    false

end BitField

end M68k
