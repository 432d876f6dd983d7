import M68k.Cpu.Alu

/-!
# Shifts and rotations

A shift moves an operand by one bit at a time.  Each step hands its outgoing bit to the carry flag
and, except for plain rotations, to the extend flag; a left arithmetic step that changes the sign
sets overflow for good.

* `Shifter.steps_add` — shifting by a sum is shifting twice.
-/

namespace M68k

/-- The kinds of shifts. -/
inductive ShiftKind where
  | arithmetic
  | logical
  /-- A rotation through the extend flag. -/
  | rotateExtend
  | rotate
  deriving DecidableEq, Repr

namespace ShiftKind

/-- The kind of a two-bit code. -/
def ofCode (code : Nat) : ShiftKind :=
  match code % 4 with
  | 0 => arithmetic
  | 1 => logical
  | 2 => rotateExtend
  | _ => rotate

/-- The name under which a kind is reported. -/
def name : ShiftKind → String
  | arithmetic => "Arithmetic"
  | logical => "Logical"
  | rotateExtend => "RotateExtend"
  | rotate => "Rotate"

end ShiftKind

/-- An operand on its way through a shift, with the flags so far. -/
structure Shifter (w : Nat) where
  value : BitVec w
  extend : Bool
  carry : Bool := false
  overflow : Bool := false
  deriving DecidableEq, Repr

namespace Shifter

variable {w : Nat}

/-- The bit that moves in at the right when shifting left. -/
def incomingLow (kind : ShiftKind) (s : Shifter w) : Bool :=
  match kind with
  | .arithmetic | .logical => false
  | .rotateExtend => s.extend
  | .rotate => s.value.msb

/-- The bit that moves in at the left when shifting right. -/
def incomingHigh (kind : ShiftKind) (s : Shifter w) : Bool :=
  match kind with
  | .arithmetic => s.value.msb
  | .logical => false
  | .rotateExtend => s.extend
  | .rotate => s.value.getLsbD 0

/-- Moves the operand by one bit. -/
def step (kind : ShiftKind) (left : Bool) (s : Shifter w) : Shifter w :=
  let out := if left then s.value.msb else s.value.getLsbD 0
  let value :=
    if left then s.value <<< 1 ||| (BitVec.ofBool (s.incomingLow kind)).setWidth w
    else s.value >>> 1 ||| if s.incomingHigh kind then BitVec.intMin w else 0
  { value
    extend := if kind = .rotate then s.extend else out
    carry := out
    overflow := s.overflow || (kind = .arithmetic && left && value.msb != s.value.msb) }

/-- Moves the operand by several bits. -/
def steps (kind : ShiftKind) (left : Bool) : Nat → Shifter w → Shifter w
  | 0, s => s
  | count + 1, s => steps kind left count (s.step kind left)

/-- Shifting by a sum is shifting twice. -/
theorem steps_add (kind : ShiftKind) (left : Bool) (m n : Nat) (s : Shifter w) :
    steps kind left (m + n) s = steps kind left n (steps kind left m s) := by
  induction m generalizing s with
  | zero => simp [steps]
  | succ m ih => rw [Nat.succ_add]; exact ih _

end Shifter

/-- Shifts an operand by `count` bits.  A shift by nothing leaves the extend flag and clears carry,
except that a rotation through the extend flag copies that flag into carry. -/
def shift (kind : ShiftKind) (left : Bool) (size : Size) (value : BitVec 32) (count : Nat)
    (sr : StatusRegister) : BitVec 32 × StatusRegister :=
  let start : Shifter size.bits := { value := size.part value, extend := sr.has .x }
  let final := start.steps kind left count
  let result := final.value.setWidth 32
  let carry := if count = 0 ∧ kind = .rotateExtend then final.extend else final.carry
  (result,
    (((Alu.signCodes size result sr).set .v final.overflow).set .c carry).set .x final.extend)

end M68k
