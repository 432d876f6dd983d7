/-!
# Elapsed time in clock cycles

A counter of 64 bits that wraps around; only a difference stops at zero instead.

* `sub_add_cancel_of_le` — a difference is exact when it does not go below zero.
-/

namespace M68k

/-- A number of clock cycles. -/
structure Ticks where
  count : BitVec 64
  deriving DecidableEq, Repr, Inhabited

namespace Ticks

/-- The beginning of time. -/
def zero : Ticks := ⟨0⟩

/-- Time after an instruction of so many cycles. -/
def advance (t : Ticks) (cycles : Nat) : Ticks := ⟨t.count + BitVec.ofNat 64 cycles⟩

/-- Sum, wrapping around. -/
def add (s t : Ticks) : Ticks := ⟨s.count + t.count⟩

/-- Difference, at least zero. -/
def sub (s t : Ticks) : Ticks := if s.count < t.count then zero else ⟨s.count - t.count⟩

/-- Sum of several spans of time. -/
def sum (spans : List Ticks) : Ticks := spans.foldl add zero

/-- The text of a span of time. -/
def text (t : Ticks) : String := toString t.count.toNat ++ " cycles"

/-- A difference is exact when it does not go below zero. -/
theorem sub_add_cancel_of_le {s t : Ticks} (h : t.count ≤ s.count) : (s.sub t).add t = s := by
  obtain ⟨s⟩ := s
  have : ¬ s < t.count := BitVec.not_lt.mpr h
  simp only [sub, add, this, if_false, BitVec.sub_add_cancel]

end Ticks

end M68k
