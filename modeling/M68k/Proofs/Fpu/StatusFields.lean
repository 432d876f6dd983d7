import M68k.Fpu.State
import M68k.Proofs.Mask
import Mathlib.Tactic

/-!
# The fields of the status register

The register consists of the condition codes, the quotient byte, the exception status byte and the
accrued exception byte, and everything that writes it replaces a field or adds to the last two.

* `and_replace` — replacing a field leaves the others alone;
* `exceptions_raise`, `accrued_raise`, `codes_raise` — what raising exceptions does to each field;
* `accrue_or` — exceptions accrue one by one, as long as underflow comes with an inexact result.
-/

namespace M68k

namespace Fpu

/-- The accrued exception byte, unused bits included. -/
def accruedMask : Register := 0x000000FF#32

/-- The exception status byte. -/
def exceptions (fpu : Fpu) : Register := fpu.status &&& exceptionMask

/-- The condition codes. -/
def codes (fpu : Fpu) : Register := fpu.status &&& codeMask

/-- The accrued exception byte. -/
def accrued (fpu : Fpu) : Register := fpu.status &&& accruedMask

/-! ## What exceptions accrue -/

/-- The accrued exceptions that conditions on the exceptions add. -/
def accruedBits (invalid overflow underflow zero inexact : Bool) : Register :=
  (if invalid then 0x80 else 0) ||| (if overflow then 0x40 else 0) |||
    (if underflow then 0x20 else 0) ||| (if zero then 0x10 else 0) |||
    (if inexact then 0x08 else 0)

theorem accrue_eq (raised : Register) :
    accrue raised = accruedBits
      (raised &&& (branchUnordered ||| signalingNaN ||| operandError) != 0)
      (raised &&& overflowed != 0) (raised &&& underflowed != 0 && raised &&& inexactResult != 0)
      (raised &&& dividedByZero != 0)
      (raised &&& (overflowed ||| inexactResult ||| inexactDecimal) != 0) := rfl

/-- Exceptions accrue nothing outside of the accrued byte. -/
theorem accrue_disjoint (raised : Register) :
    accrue raised &&& codeMask = 0#32 ∧ accrue raised &&& exceptionMask = 0#32 ∧
      Within accruedMask (accrue raised) := by
  have bytes (a b c d e : Bool) : accruedBits a b c d e &&& codeMask = 0#32 ∧
      accruedBits a b c d e &&& exceptionMask = 0#32 ∧
      Within accruedMask (accruedBits a b c d e) := by
    revert a b c d e
    decide
  exact bytes _ _ _ _ _

/-- What accrues depends on the exception status byte. -/
theorem accrue_and_exceptionMask (raised : Register) :
    accrue (raised &&& exceptionMask) = accrue raised := by
  have cut {mask : Register} (within : exceptionMask &&& mask = mask) :
      raised &&& exceptionMask &&& mask = raised &&& mask := by rw [BitVec.and_assoc, within]
  rw [accrue_eq, cut (by decide), cut (by decide), cut (by decide), cut (by decide),
    cut (by decide), cut (by decide)]
  rfl

/-- Whether an underflow is reported as inexact. -/
def UnderflowInexact (raised : Register) : Prop :=
  (raised &&& underflowed != 0) = true → (raised &&& inexactResult != 0) = true

instance (raised : Register) : Decidable (UnderflowInexact raised) :=
  inferInstanceAs (Decidable (_ → _))

theorem and_ne_zero_or (a b mask : Register) :
    ((a ||| b) &&& mask != 0) = (a &&& mask != 0 || b &&& mask != 0) := by
  rw [BitVec.and_or_distrib_right, Bool.eq_iff_iff]
  simp only [bne_iff_ne, Bool.or_eq_true, ne_eq, BitVec.ofNat_eq_ofNat, BitVec.or_eq_zero_iff]
  tauto

theorem UnderflowInexact.zero : UnderflowInexact 0 := by decide

theorem UnderflowInexact.ite {c : Prop} [Decidable c] {a b : Register} (ha : UnderflowInexact a)
    (hb : UnderflowInexact b) : UnderflowInexact (if c then a else b) := by
  split
  · exact ha
  · exact hb

theorem UnderflowInexact.or {a b : Register} (ha : UnderflowInexact a) (hb : UnderflowInexact b) :
    UnderflowInexact (a ||| b) := by
  unfold UnderflowInexact at *
  simp only [and_ne_zero_or, Bool.or_eq_true]
  tauto

/-- **Exceptions accrue one by one.**  Only underflow looks at a second exception, and that is
raised together with it. -/
theorem accrue_or {a b : Register} (ha : UnderflowInexact a) (hb : UnderflowInexact b) :
    accrue (a ||| b) = accrue a ||| accrue b := by
  have bit (c d : Bool) (value : Register) :
      (if c || d then value else 0) = (if c then value else 0) ||| (if d then value else 0) := by
    cases c <;> cases d <;> simp
  have both {p p' q q' : Bool} (h : p = true → q = true) (h' : p' = true → q' = true) :
      ((p || p') && (q || q')) = (p && q || p' && q') := by
    revert p p' q q'
    decide
  simp only [accrue_eq, and_ne_zero_or, both ha hb]
  simp only [accruedBits, bit]
  ac_rfl

/-! ## Writing the register -/

/-- Replacing a field leaves the others alone. -/
theorem and_replace {mask other value : Register} (within : Within mask value)
    (apart : mask &&& other = 0) (status : Register) :
    (status &&& ~~~mask ||| value) &&& other = status &&& other := by
  have value : value &&& other = 0 := by
    rw [← within, BitVec.and_assoc, apart, BitVec.ofNat_eq_ofNat, BitVec.and_zero]
  have kept : ~~~mask &&& other = other := by
    apply BitVec.eq_of_getLsbD_eq
    intro i inside
    have bit := congrArg (BitVec.getLsbD · i) apart
    simp only [BitVec.getLsbD_and, BitVec.ofNat_eq_ofNat, BitVec.getLsbD_zero] at bit
    rw [BitVec.getLsbD_and, BitVec.getLsbD_not, decide_eq_true inside, Bool.true_and]
    cases set : other.getLsbD i with
    | false => rw [Bool.and_false]
    | true =>
      rw [set, Bool.and_true] at bit
      rw [bit]
      rfl
  rw [BitVec.and_or_distrib_right, value, BitVec.and_assoc, kept, BitVec.ofNat_eq_ofNat,
    BitVec.or_zero]

theorem exceptions_beginInstruction (fpu : Fpu) (address : Register) :
    (fpu.beginInstruction address).exceptions = 0#32 := by
  have cleared : ~~~exceptionMask &&& exceptionMask = 0#32 := by decide
  rw [exceptions, beginInstruction, BitVec.and_assoc, cleared, BitVec.and_zero]

theorem accrued_beginInstruction (fpu : Fpu) (address : Register) :
    (fpu.beginInstruction address).accrued = fpu.accrued := by
  have kept : ~~~exceptionMask &&& accruedMask = accruedMask := by decide
  rw [accrued, beginInstruction, BitVec.and_assoc, kept, accrued]

section Raise

variable (fpu : Fpu) (raised : Register)

theorem codes_raise : (fpu.raise raised).codes = fpu.codes := by
  have apart : exceptionMask &&& codeMask = 0#32 := by decide
  simp only [codes, raise, BitVec.and_or_distrib_right, accrue_disjoint, BitVec.and_assoc, apart,
    BitVec.and_zero, BitVec.or_zero]

theorem exceptions_raise :
    (fpu.raise raised).exceptions = fpu.exceptions ||| (raised &&& exceptionMask) := by
  simp only [exceptions, raise, BitVec.and_or_distrib_right, accrue_disjoint, BitVec.and_assoc,
    BitVec.and_self, BitVec.or_zero]

theorem accrued_raise : (fpu.raise raised).accrued = fpu.accrued ||| accrue raised := by
  have apart : exceptionMask &&& accruedMask = 0#32 := by decide
  have within : accrue raised &&& accruedMask = accrue raised := (accrue_disjoint raised).2.2
  simp only [accrued, raise, BitVec.and_or_distrib_right, within, BitVec.and_assoc, apart,
    BitVec.and_zero, BitVec.or_zero]

end Raise

section SetCodes

variable (fpu : Fpu) {found : Register} (within : Within codeMask found)
include within

theorem codes_setCodes : (fpu.setCodes found).codes = found := by
  have cleared : ~~~codeMask &&& codeMask = 0#32 := by decide
  simp only [codes, setCodes, BitVec.and_or_distrib_right, BitVec.and_assoc, cleared,
    BitVec.and_zero, BitVec.zero_or]
  exact within

theorem exceptions_setCodes : (fpu.setCodes found).exceptions = fpu.exceptions :=
  and_replace within (by decide) _

theorem accrued_setCodes : (fpu.setCodes found).accrued = fpu.accrued :=
  and_replace within (by decide) _

end SetCodes

section SetQuotient

variable (fpu : Fpu) (quotient : BitVec 64) (negative : Bool)

theorem within_quotientMask (byte : BitVec 8) :
    Within quotientMask (byte.setWidth 32 <<< 16) := by
  revert byte
  decide

theorem exceptions_setQuotient :
    (fpu.setQuotient quotient negative).exceptions = fpu.exceptions :=
  and_replace (within_quotientMask _) (by decide) _

theorem accrued_setQuotient : (fpu.setQuotient quotient negative).accrued = fpu.accrued :=
  and_replace (within_quotientMask _) (by decide) _

end SetQuotient

end Fpu

end M68k
