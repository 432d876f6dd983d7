import M68k.Cpu.FunctionCode
import M68k.Cpu.Size

/-!
# The bus

What the processor sees of the rest of the machine: memory accesses, interrupt lines, and a few
signals that leave the processor.  A bus is any type with these operations, each of which may change
the bus; proofs choose a bus that records what it is asked.
-/

namespace M68k

/-- The answer to an access. -/
structure BusReply where
  /-- What was read; nothing for a write. -/
  data : BitVec 32
  /-- Cycles the access took beyond the usual. -/
  wait : BitVec 8
  /-- Whether nothing acknowledged the access. -/
  error : Bool
  deriving DecidableEq, Repr, Inhabited

/-- What answers an interrupt acknowledge cycle. -/
inductive Acknowledgement where
  /-- A device supplies the number of its vector. -/
  | vector (number : BitVec 8)
  /-- The vector of the level is used. -/
  | autovector
  /-- Nothing answers. -/
  | spurious
  deriving DecidableEq, Repr, Inhabited

/-- The operations of a bus.  Addresses are cut to the width of the model's bus, and values of more
than one byte have their most significant byte first. -/
class Bus (β : Type) where
  /-- Reads an operand. -/
  read : Size → BitVec 32 → FunctionCode → β → BusReply × β
  /-- Writes an operand. -/
  write : Size → BitVec 32 → BitVec 32 → FunctionCode → β → BusReply × β
  /-- Reads a word of the instruction stream. -/
  fetch : BitVec 32 → FunctionCode → β → BusReply × β := read .word
  /-- The level on the interrupt lines, of which three bits count. -/
  interruptLevel : β → BitVec 8 × β
  /-- Acknowledges an interrupt of a level. -/
  acknowledge : BitVec 3 → β → Acknowledgement × β
  /-- The reset line is asserted by an instruction. -/
  reset : β → β
  /-- An opcode is illegal; the answer is whether to pass over it. -/
  illegal : BitVec 16 → β → Bool × β
  /-- Execution goes on elsewhere. -/
  pcChanged : BitVec 32 → β → β

end M68k
