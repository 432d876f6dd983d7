/-!
# The status register

Sixteen bits: five condition codes, the interrupt mask, and the bits that select the mode.  Which of
the sixteen conditions hold is decided by the condition codes alone.

* `has_set_self`, `has_set_of_ne` — setting a flag sets that flag and no other;
* `condition_not` — conditions come in complementary pairs.
-/

namespace M68k

/-- A flag of the status register, at its bit position. -/
inductive Flag where
  /-- Carry or borrow. -/
  | c
  /-- Signed overflow. -/
  | v
  /-- Zero. -/
  | z
  /-- Negative. -/
  | n
  /-- Carry kept for operations on long numbers. -/
  | x
  /-- Master state: exceptions other than interrupts use the master stack. -/
  | m
  /-- Supervisor mode. -/
  | s
  /-- Trace on a change of flow. -/
  | t0
  /-- Trace on every instruction. -/
  | t1
  deriving DecidableEq, Repr

/-- The bit position of a flag. -/
def Flag.position : Flag → Nat
  | c => 0
  | v => 1
  | z => 2
  | n => 3
  | x => 4
  | m => 12
  | s => 13
  | t0 => 14
  | t1 => 15

/-- The contents of the status register. -/
abbrev StatusRegister := BitVec 16

namespace StatusRegister

/-- The contents after a reset: supervisor mode with all interrupts masked. -/
def initial : StatusRegister := 0x2700#16

/-- Bits of the condition codes. -/
def codeMask : StatusRegister := 0x001F#16

/-- Whether a flag is set. -/
def has (sr : StatusRegister) (flag : Flag) : Bool := sr.getLsbD flag.position

/-- Sets or clears a flag. -/
def set (sr : StatusRegister) (flag : Flag) (value : Bool) : StatusRegister :=
  if value then sr ||| 1#16 <<< flag.position else sr &&& ~~~(1#16 <<< flag.position)

/-- The condition codes. -/
def codes (sr : StatusRegister) : BitVec 8 := (sr &&& codeMask).setWidth 8

/-- Replaces the condition codes by the low bits of `codes`. -/
def setCodes (sr : StatusRegister) (codes : StatusRegister) : StatusRegister :=
  (sr &&& ~~~codeMask) ||| (codes &&& codeMask)

/-- Interrupts up to this level are masked. -/
def interruptMask (sr : StatusRegister) : BitVec 3 := sr.extractLsb' 8 3

/-- Replaces the interrupt mask. -/
def setInterruptMask (sr : StatusRegister) (level : BitVec 3) : StatusRegister :=
  (sr &&& ~~~0x0700#16) ||| level.setWidth 16 <<< 8

/-- The two trace flags at their places. -/
def traceBits (sr : StatusRegister) : StatusRegister := sr &&& 0xC000#16

/-- Whether the condition of a code holds for carry, overflow, zero and negative. -/
def holds (code : BitVec 4) (c v z n : Bool) : Bool :=
  match code.toNat with
  | 0x0 => true
  | 0x1 => false
  | 0x2 => !c && !z
  | 0x3 => c || z
  | 0x4 => !c
  | 0x5 => c
  | 0x6 => !z
  | 0x7 => z
  | 0x8 => !v
  | 0x9 => v
  | 0xA => !n
  | 0xB => n
  | 0xC => n == v
  | 0xD => n != v
  | 0xE => !z && n == v
  | _ => z || n != v

/-- Whether a condition holds. -/
def condition (sr : StatusRegister) (code : BitVec 4) : Bool :=
  holds code (sr.has .c) (sr.has .v) (sr.has .z) (sr.has .n)

theorem setCodes_self (sr : StatusRegister) : sr.setCodes sr = sr := by
  have all : ~~~codeMask ||| codeMask = BitVec.allOnes 16 := by decide
  rw [setCodes, ← BitVec.and_or_distrib_left, all, BitVec.and_allOnes]

/-- Setting a flag sets that flag. -/
@[simp] theorem has_set_self (sr : StatusRegister) (flag : Flag) (value : Bool) :
    (sr.set flag value).has flag = value := by
  cases flag <;> cases value <;> simp [has, set, Flag.position]

/-- Setting a flag changes no other. -/
theorem has_set_of_ne (sr : StatusRegister) {flag other : Flag} (h : other ≠ flag) (value : Bool) :
    (sr.set flag value).has other = sr.has other := by
  cases flag <;> cases other <;>
    first | contradiction | cases value <;> simp [has, set, Flag.position]

theorem holds_not :
    ∀ (code : BitVec 4) (c v z n : Bool), holds (code ^^^ 1#4) c v z n = !holds code c v z n := by
  decide

/-- The condition with the last bit of its code flipped is the opposite one. -/
theorem condition_not (sr : StatusRegister) (code : BitVec 4) :
    sr.condition (code ^^^ 1#4) = !sr.condition code :=
  holds_not code _ _ _ _

end StatusRegister

end M68k
