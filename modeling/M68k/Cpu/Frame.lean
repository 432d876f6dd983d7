import M68k.Cpu.FunctionCode
import M68k.Cpu.Model
import M68k.Cpu.Size

/-!
# Exception stack frames

An exception leaves a frame on the stack.  Its layout follows from the family of the model and the
vector.  A frame is a list of words, first the one at the lowest address.

* `length_contents` — a frame has the number of words of its layout;
* `discardedWords?_code` — a return discards what an entry has stacked.
-/

namespace M68k

/-- The number of an exception vector. -/
abbrev VectorNumber := BitVec 8

namespace VectorNumber

/-! The vectors that the processor uses by itself. -/

def busError : VectorNumber := 2
def addressError : VectorNumber := 3
def illegalInstruction : VectorNumber := 4
def zeroDivide : VectorNumber := 5
def bounds : VectorNumber := 6
def conditional : VectorNumber := 7
def privilegeViolation : VectorNumber := 8
def trace : VectorNumber := 9
def lineA : VectorNumber := 10
def lineF : VectorNumber := 11
def formatError : VectorNumber := 14
def uninitialized : VectorNumber := 15
def spurious : VectorNumber := 24

/-- The vector of an interrupt level. -/
def autovector (level : BitVec 3) : VectorNumber := 24 + level.setWidth 8

/-- The vector of a trap instruction. -/
def trap (number : Nat) : VectorNumber := 32 + BitVec.ofNat 8 number

end VectorNumber

/-- An access that failed. -/
structure AccessFault where
  address : BitVec 32
  functionCode : FunctionCode
  read : Bool
  size : Size
  /-- What was to be written, zero for reads. -/
  value : BitVec 32
  deriving DecidableEq, Repr

namespace AccessFault

/-- Whether the access was to a program. -/
def isInstruction (a : AccessFault) : Bool := a.functionCode.isProgram

end AccessFault

/-- The layouts of frames. -/
inductive FrameFormat where
  /-- Status register and program counter. -/
  | short
  /-- With the access that failed, on the first model. -/
  | group0
  /-- With a format word. -/
  | format0
  /-- A frame that only tells where the others are. -/
  | format1
  /-- With the address of the instruction. -/
  | format2
  /-- Access errors of the 68040. -/
  | format7
  /-- Bus and address errors of the 68010. -/
  | format8
  /-- Bus and address errors of the 68020 and 68030. -/
  | formatB
  deriving DecidableEq, Repr

namespace FrameFormat

/-- The name under which a layout is reported. -/
def name : FrameFormat → String
  | short => "Short"
  | group0 => "Group0"
  | format0 => "Format0"
  | format1 => "Format1"
  | format2 => "Format2"
  | format7 => "Format7"
  | format8 => "Format8"
  | formatB => "FormatB"

/-- Whether a vector belongs to failed accesses. -/
def isAccessVector (vector : VectorNumber) : Bool := vector == 2 || vector == 3

/-- Whether later models stack the address of the instruction for a vector. -/
def hasInstructionAddress (vector : VectorNumber) : Bool :=
  vector == 5 || vector == 6 || vector == 7 || vector == 9

/-- The layout that a family uses for a vector. -/
def ofVector (family : FrameFamily) (vector : VectorNumber) : FrameFormat :=
  if isAccessVector vector then
    match family with
    | .f68000 => group0
    | .f68010 => format8
    | .f68020 => formatB
    | .f68040 => format7
  else
    match family with
    | .f68000 => short
    | .f68010 => format0
    | .f68020 | .f68040 => if hasInstructionAddress vector then format2 else format0

/-- The number of words of a frame. -/
def words : FrameFormat → Nat
  | short => 3
  | group0 => 7
  | format0 | format1 => 4
  | format2 => 6
  | format7 => 30
  | format8 => 29
  | formatB => 46

/-- The code of a layout in the format word. -/
def code : FrameFormat → BitVec 4
  | short | group0 | format0 => 0x0
  | format1 => 0x1
  | format2 => 0x2
  | format7 => 0x7
  | format8 => 0x8
  | formatB => 0xB

/-- The words after the format word that a return from an exception discards, for the layouts that
it knows. -/
def discardedWords? (code : BitVec 4) : Option Nat :=
  match code.toNat with
  | 0x0 => some 0
  | 0x2 => some 2
  | 0x7 => some 26
  | 0x8 => some 25
  | 0xA => some 12
  | 0xB => some 42
  | _ => none

end FrameFormat

/-- What is known when a frame is built. -/
structure FrameContext where
  /-- The opcode of the instruction. -/
  opcode : BitVec 16
  /-- The address of the instruction. -/
  instructionAddress : BitVec 32
  vector : VectorNumber
  /-- The status register before the exception. -/
  sr : StatusRegister
  /-- Where to return to. -/
  returnAddress : BitVec 32
  /-- The access that failed, if that is the reason. -/
  access : Option AccessFault

namespace FrameContext

/-- A long word as two words. -/
def pair (value : BitVec 32) : List (BitVec 16) :=
  [value.extractLsb' 16 16, value.extractLsb' 0 16]

/-- Words without a meaning here. -/
def blank (count : Nat) : List (BitVec 16) := List.replicate count 0

/-- A word with one bit set if `b` holds. -/
def flag (b : Bool) (position : Nat) : BitVec 16 := if b then 1#16 <<< position else 0

/-- The code of a size in status words: long words have 0, bytes 1, words 2. -/
def sizeCode : Size → BitVec 16
  | .long => 0
  | .byte => 1
  | .word => 2

/-- The status word and address of an access on the first model.  The high bits of the status word
are those of the opcode. -/
def accessWords (ctx : FrameContext) (a : AccessFault) : List (BitVec 16) :=
  ((ctx.opcode &&& 0xFFE0) ||| flag a.read 4 ||| flag (!a.isInstruction) 3
    ||| a.functionCode.code.setWidth 16) :: pair a.address

/-- The status word of an access on the 68010. -/
def status8 (a : AccessFault) : BitVec 16 :=
  a.functionCode.code.setWidth 16 ||| flag a.isInstruction 13 ||| flag (!a.isInstruction) 12
    ||| flag a.read 8 ||| flag (a.size == .byte) 9

/-- The status word of an access on the 68020 and 68030. -/
def statusB (a : AccessFault) : BitVec 16 :=
  a.functionCode.code.setWidth 16 ||| sizeCode a.size <<< 4 ||| flag a.read 6
    ||| flag (!a.isInstruction) 8

/-- The status word of an access on the 68040. -/
def status7 (a : AccessFault) : BitVec 16 :=
  a.functionCode.code.setWidth 16 ||| sizeCode a.size <<< 5 ||| flag a.read 8

/-- Status register and return address, with which most layouts start. -/
def start (ctx : FrameContext) : List (BitVec 16) := ctx.sr :: pair ctx.returnAddress

/-- The word that tells layout and vector. -/
def formatWord (ctx : FrameContext) (format : FrameFormat) : BitVec 16 :=
  format.code ++ (0#2 ++ ctx.vector ++ 0#2)

/-- The words of a frame after its format word. -/
def rest (ctx : FrameContext) : FrameFormat → List (BitVec 16)
  | .format2 => pair ctx.instructionAddress
  | .format7 =>
    match ctx.access with
    | some a => pair a.address ++ [status7 a] ++ blank 3 ++ pair a.address ++ blank 18
    | none => blank 26
  | .format8 =>
    match ctx.access with
    | some a =>
      [status8 a] ++ pair a.address ++ blank 1 ++ [a.value.extractLsb' 0 16] ++ blank 20
    | none => blank 25
  | .formatB =>
    match ctx.access with
    | some a =>
      blank 1 ++ [statusB a] ++ blank 2 ++ pair a.address ++ blank 2 ++ pair a.value ++ blank 4
        ++ pair (ctx.instructionAddress + 4) ++ blank 26
    | none => blank 42
  | _ => []

/-- The words of a frame. -/
def contents (ctx : FrameContext) : FrameFormat → List (BitVec 16)
  | .short => ctx.start
  | .group0 =>
    (match ctx.access with
      | some a => ctx.accessWords a
      | none => blank 3) ++ ctx.opcode :: ctx.start
  | format => ctx.start ++ ctx.formatWord format :: ctx.rest format

/-- A frame has the number of words of its layout. -/
theorem length_contents (ctx : FrameContext) (format : FrameFormat) :
    (ctx.contents format).length = format.words := by
  obtain ⟨_, _, _, _, _, access⟩ := ctx
  cases format <;> cases access <;> rfl

end FrameContext

/-- A return discards the words that an entry has stacked after the format word. -/
theorem FrameFormat.discardedWords?_code : ∀ format ∈ [format0, format2, format7, format8, formatB],
    discardedWords? format.code = some (format.words - 4) := by
  decide

end M68k
