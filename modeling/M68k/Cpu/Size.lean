/-!
# Operand sizes

Integer operands are bytes, words or long words.  Operands travel as 32-bit words of which the size
says how many low bits count.

* `truncate_eq_and_mask` — cutting to a size clears the other bits;
* `truncate_truncate` — cutting to a size twice is cutting once;
* `getLsbD_insert` — replacing the operand's share leaves the other bits alone.
-/

namespace M68k

/-- The size of an integer operand. -/
inductive Size where
  | byte
  | word
  | long
  deriving DecidableEq, Repr, Inhabited

namespace Size

/-- The name under which a size is reported. -/
def name : Size → String
  | byte => "Byte"
  | word => "Word"
  | long => "Long"

/-- The size of the usual two-bit code: byte, word, long. -/
def ofCode? (code : Nat) : Option Size :=
  match code % 4 with
  | 0 => some byte
  | 1 => some word
  | 2 => some long
  | _ => none

/-- The size of the code in MOVE opcodes: 1 is a byte, 3 a word, 2 a long word. -/
def ofMoveCode? (code : Nat) : Option Size :=
  match code % 4 with
  | 1 => some byte
  | 3 => some word
  | 2 => some long
  | _ => none

/-- The size of the code in compare-and-swap opcodes: 1 is a byte, 2 a word, 3 a long word. -/
def ofCasCode? (code : Nat) : Option Size :=
  match code % 4 with
  | 1 => some byte
  | 2 => some word
  | 3 => some long
  | _ => none

/-- Bytes of an operand. -/
def bytes : Size → Nat
  | byte => 1
  | word => 2
  | long => 4

/-- Bits of an operand. -/
def bits (size : Size) : Nat := size.bytes * 8

/-- The operand's share of a 32-bit word. -/
def part (size : Size) (value : BitVec 32) : BitVec size.bits := value.setWidth size.bits

/-- The bits of a 32-bit word that count. -/
def mask (size : Size) : BitVec 32 := (BitVec.allOnes size.bits).setWidth 32

/-- The highest bit that counts. -/
def topBit (size : Size) : BitVec 32 := 1#32 <<< (size.bits - 1)

/-- The operand with the other bits clear. -/
def truncate (size : Size) (value : BitVec 32) : BitVec 32 := (size.part value).setWidth 32

/-- The operand with the other bits copied from its sign. -/
def signExtend (size : Size) (value : BitVec 32) : BitVec 32 := (size.part value).signExtend 32

/-- Replaces the operand's share of a 32-bit word. -/
def insert (size : Size) (old new : BitVec 32) : BitVec 32 :=
  (old &&& ~~~size.mask) ||| (new &&& size.mask)

theorem bits_le (size : Size) : size.bits ≤ 32 := by
  cases size <;> decide

/-- Cutting to a size clears the bits outside its mask. -/
theorem truncate_eq_and_mask (size : Size) (value : BitVec 32) :
    size.truncate value = value &&& size.mask := by
  apply BitVec.eq_of_getLsbD_eq
  intro i hi
  have := size.bits_le
  simp only [truncate, part, mask, BitVec.getLsbD_and, BitVec.getLsbD_setWidth,
    BitVec.getLsbD_allOnes, hi, decide_true, Bool.true_and]
  cases decide (i < size.bits) <;> simp

/-- Replacing the operand's share takes its bits from the new word, the others from the old. -/
theorem getLsbD_insert (size : Size) (old new : BitVec 32) {i : Nat} (hi : i < 32) :
    (size.insert old new).getLsbD i = if i < size.bits then new.getLsbD i else old.getLsbD i := by
  simp only [insert, mask, BitVec.getLsbD_or, BitVec.getLsbD_and, BitVec.getLsbD_not,
    BitVec.getLsbD_setWidth, BitVec.getLsbD_allOnes, hi, decide_true, Bool.true_and]
  split <;> simp [*]

/-- Cutting to a size twice is cutting once. -/
@[simp] theorem truncate_truncate (size : Size) (value : BitVec 32) :
    size.truncate (size.truncate value) = size.truncate value := by
  simp only [truncate_eq_and_mask, BitVec.and_assoc, BitVec.and_self]

end Size

end M68k
