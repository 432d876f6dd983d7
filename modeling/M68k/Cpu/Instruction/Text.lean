import M68k.Cpu.Instruction
import M68k.Text.Record

/-!
# The text of instructions

An instruction is reported by its name, followed by its parts with their names in braces.
-/

namespace M68k

/-- The name under which an operation is reported. -/
def AluOp.name : AluOp → String
  | add => "Add"
  | sub => "Sub"
  | and => "And"
  | or => "Or"
  | eor => "Eor"
  | cmp => "Cmp"

/-- The name under which an operation is reported. -/
def UnaryOp.name : UnaryOp → String
  | negx => "NegX"
  | clr => "Clr"
  | neg => "Neg"
  | not => "Not"

/-- The name under which an operation is reported. -/
def BitOp.name : BitOp → String
  | test => "Test"
  | change => "Change"
  | clear => "Clear"
  | set => "Set"

/-- The text of a count. -/
def ShiftCount.text : ShiftCount → String
  | immediate count => "Immediate(" ++ toString count ++ ")"
  | register r => "Register(" ++ toString r.val ++ ")"

/-- The text of a source. -/
def BitSource.text : BitSource → String
  | immediate => "Immediate"
  | register r => "Register(" ++ toString r.val ++ ")"

namespace Instruction

open Text (record optional)

/-- The text of an instruction. -/
def text : Instruction → String
  | move size src dst =>
    record "Move" [("size", size.name), ("src", src.text), ("dst", dst.text)]
  | movea size src r => record "MoveA" [("size", size.name), ("src", src.text), ("reg", reg r)]
  | moveq r data => record "MoveQ" [("reg", reg r), ("data", toString data.toInt)]
  | movem size toMemory mode =>
    record "MoveM" [("size", size.name), ("to_memory", toString toMemory), ("mode", mode.text)]
  | movep size toMemory data address =>
    record "MoveP" [("size", size.name), ("to_memory", toString toMemory), ("dreg", reg data),
      ("areg", reg address)]
  | lea src r => record "Lea" [("src", src.text), ("reg", reg r)]
  | pea src => record "Pea" [("src", src.text)]
  | exg rx ry => record "Exg" [("rx", reg rx), ("ry", reg ry)]
  | swap r => record "Swap" [("reg", reg r)]
  | ext r source size =>
    record "Ext" [("reg", reg r), ("from", source.name), ("size", size.name)]
  | link r long => record "Link" [("reg", reg r), ("long", toString long)]
  | unlk r => record "Unlk" [("reg", reg r)]
  | moveFromSr dst => record "MoveFromSr" [("dst", dst.text)]
  | moveFromCcr dst => record "MoveFromCcr" [("dst", dst.text)]
  | moveToCcr src => record "MoveToCcr" [("src", src.text)]
  | moveToSr src => record "MoveToSr" [("src", src.text)]
  | moveUsp r toUsp => record "MoveUsp" [("reg", reg r), ("to_usp", toString toUsp)]
  | movec toControl => record "MoveC" [("to_control", toString toControl)]
  | moves size mode => record "MoveS" [("size", size.name), ("mode", mode.text)]
  | move16 opcode => record "Move16" [("opcode", toString opcode.toNat)]
  | alu op size mode r toOperand =>
    record "Alu" [("op", op.name), ("size", size.name), ("mode", mode.text), ("reg", reg r),
      ("to_ea", toString toOperand)]
  | aluAddress op size src r =>
    record "AluA" [("op", op.name), ("size", size.name), ("src", src.text), ("reg", reg r)]
  | aluImmediate op size mode =>
    record "AluI" [("op", op.name), ("size", size.name), ("mode", mode.text)]
  | aluQuick add size data mode =>
    record "AluQ" [("add", toString add), ("size", size.name), ("data", toString data),
      ("mode", mode.text)]
  | aluExtend add size rx ry memory =>
    record "AluX" [("add", toString add), ("size", size.name), ("rx", reg rx), ("ry", reg ry),
      ("memory", toString memory)]
  | cmpm size rx ry => record "CmpM" [("size", size.name), ("rx", reg rx), ("ry", reg ry)]
  | toCcr op => record "ToCcr" [("op", op.name)]
  | toSr op => record "ToSr" [("op", op.name)]
  | unary op size mode =>
    record "Unary" [("op", op.name), ("size", size.name), ("mode", mode.text)]
  | tst size mode => record "Tst" [("size", size.name), ("mode", mode.text)]
  | tas mode => record "Tas" [("mode", mode.text)]
  | mul signed src r =>
    record "Mul" [("signed", toString signed), ("src", src.text), ("reg", reg r)]
  | div signed src r =>
    record "Div" [("signed", toString signed), ("src", src.text), ("reg", reg r)]
  | mulLong src => record "MulL" [("src", src.text)]
  | divLong src => record "DivL" [("src", src.text)]
  | bcd add rx ry memory =>
    record "Bcd" [("add", toString add), ("rx", reg rx), ("ry", reg ry),
      ("memory", toString memory)]
  | nbcd mode => record "Nbcd" [("mode", mode.text)]
  | pack unpack rx ry memory =>
    record "Pack" [("unpack", toString unpack), ("rx", reg rx), ("ry", reg ry),
      ("memory", toString memory)]
  | chk size src r => record "Chk" [("size", size.name), ("src", src.text), ("reg", reg r)]
  | chk2 size mode => record "Chk2" [("size", size.name), ("mode", mode.text)]
  | cas size mode => record "Cas" [("size", size.name), ("mode", mode.text)]
  | cas2 size => record "Cas2" [("size", size.name)]
  | shiftRegister kind left size count r =>
    record "ShiftReg" [("kind", kind.name), ("left", toString left), ("size", size.name),
      ("count", count.text), ("reg", reg r)]
  | shiftMemory kind left mode =>
    record "ShiftMem" [("kind", kind.name), ("left", toString left), ("mode", mode.text)]
  | bit op src mode => record "Bit" [("op", op.name), ("src", src.text), ("mode", mode.text)]
  | bitField op mode => record "BitField" [("op", op.name), ("mode", mode.text)]
  | bcc condition displacement =>
    record "Bcc" [("cond", toString condition.toNat), ("disp", toString displacement.toInt)]
  | dbcc condition r => record "DBcc" [("cond", toString condition.toNat), ("reg", reg r)]
  | scc condition mode => record "Scc" [("cond", toString condition.toNat), ("mode", mode.text)]
  | trapcc condition operand =>
    record "TrapCc" [("cond", toString condition.toNat), ("operand", optional Size.name operand)]
  | jmp mode => record "Jmp" [("mode", mode.text)]
  | jsr mode => record "Jsr" [("mode", mode.text)]
  | rts => "Rts"
  | rtr => "Rtr"
  | rte => "Rte"
  | rtd => "Rtd"
  | trap number => record "Trap" [("vector", toString number)]
  | trapv => "TrapV"
  | nop => "Nop"
  | reset => "Reset"
  | stop => "Stop"
  | bkpt => "Bkpt"
  | illegal => "Illegal"
  | lineA => "LineA"
  | lineF => "LineF"
  | cacheOp => "CacheOp"
  | mmuOp => "MmuOp"
where
  /-- The number of a register. -/
  reg {n : Nat} (r : Fin n) : String := toString r.val

end Instruction

end M68k
