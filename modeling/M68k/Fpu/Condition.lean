import M68k.Fpu.Exception

/-!
# Condition predicates

A predicate has six bits.  The predicates 0x10 to 0x1F are the signalling forms of 0x00 to 0x0F:
they have the same truth value, and testing one of them on unordered operands is an exception.  The
remaining predicates are reserved.

* `evaluate_signaling` — the signalling forms agree with the others;
* `evaluate_eq_none_iff` — just the reserved predicates have no truth value.
-/

namespace M68k

namespace Fpu

namespace Condition

/-- The truth value of a predicate for the condition codes negative, zero and NaN. -/
def holds (predicate : Nat) (n z nan : Bool) : Bool :=
  match predicate % 16 with
  | 0x0 => false
  | 0x1 => z
  | 0x2 => !(nan || z || n)
  | 0x3 => z || !(nan || n)
  | 0x4 => n && !(nan || z)
  | 0x5 => z || (n && !nan)
  | 0x6 => !(nan || z)
  | 0x7 => !nan
  | 0x8 => nan
  | 0x9 => nan || z
  | 0xA => nan || !(n || z)
  | 0xB => nan || z || !n
  | 0xC => nan || (n && !z)
  | 0xD => nan || z || n
  | 0xE => !z
  | _ => true

/-- The truth value of a predicate for a status register; reserved predicates have none. -/
def evaluate (predicate : Nat) (status : Register) : Option Bool :=
  if 0x1F < predicate then none
  else some (holds predicate (status &&& negativeCode != 0) (status &&& zeroCode != 0)
    (status &&& nanCode != 0))

/-- Whether testing the predicate is an exception: a signalling form on unordered operands. -/
def signals (predicate : Nat) (status : Register) : Bool :=
  predicate.testBit 4 && status &&& nanCode != 0

/-- The signalling form of a predicate has its truth value. -/
theorem evaluate_signaling (predicate : Nat) (h : predicate < 16) (status : Register) :
    evaluate (predicate + 16) status = evaluate predicate status := by
  have : ¬ 0x1F < predicate + 16 := by omega
  have : ¬ 0x1F < predicate := by omega
  simp [evaluate, holds, *]

/-- Just the reserved predicates have no truth value. -/
theorem evaluate_eq_none_iff (predicate : Nat) (status : Register) :
    evaluate predicate status = none ↔ 0x1F < predicate := by
  simp [evaluate]

end Condition

end Fpu

end M68k
