/-!
# Bits within a mask

A value is within a mask if it has no bit outside of it.  The operations by which registers are
written keep values within their masks.
-/

namespace M68k

/-- A value with no bit outside a mask. -/
def Within {w : Nat} (mask value : BitVec w) : Prop := value &&& mask = value

namespace Within

variable {w : Nat} {mask other a b : BitVec w}

instance : Decidable (Within mask a) := inferInstanceAs (Decidable (_ = _))

theorem zero (mask : BitVec w) : Within mask 0 := BitVec.zero_and

/-- What was cut to the mask is within it. -/
theorem cut (mask a : BitVec w) : Within mask (a &&& mask) := by
  unfold Within
  rw [BitVec.and_assoc, BitVec.and_self]

theorem and (within : Within mask a) (b : BitVec w) : Within mask (a &&& b) := by
  unfold Within at *
  rw [BitVec.and_assoc, BitVec.and_comm b mask, ← BitVec.and_assoc, within]

theorem or (first : Within mask a) (second : Within mask b) : Within mask (a ||| b) := by
  unfold Within at *
  rw [BitVec.and_or_distrib_right, first, second]

/-- A value within a part of the mask is within the mask. -/
theorem mono (within : Within mask a) (part : Within other mask) : Within other a := by
  unfold Within at *
  rw [← within, BitVec.and_assoc, part]

theorem left (a b : BitVec w) : Within (a ||| b) a := by
  apply BitVec.eq_of_getLsbD_eq
  intro i _
  rw [BitVec.getLsbD_and, BitVec.getLsbD_or, Bool.and_or_distrib_left, Bool.and_self]
  cases a.getLsbD i <;> rfl

theorem right (a b : BitVec w) : Within (a ||| b) b := by
  rw [BitVec.or_comm]
  exact left b a

/-- United values are within united masks. -/
theorem union (first : Within mask a) (second : Within other b) :
    Within (mask ||| other) (a ||| b) :=
  (first.mono (left _ _)).or (second.mono (right _ _))

theorem ite {c : Prop} [Decidable c] (yes : Within mask a) (no : Within mask b) :
    Within mask (if c then a else b) := by
  split
  · exact yes
  · exact no

end Within

end M68k
