import M68k.Cpu.Execution.Coprocessor
import M68k.Proofs.Fpu.StatusFields

/-!
# What instructions make of the floating-point unit

`Fpu.Change` lists what an instruction can do to the unit: compute, store, test a condition, restore
a frame, or load one of its registers.  Loading is kept apart, since it does not count as using the
unit.  What every change respects is shown here, change by change.

* `Change.masked` — control and status register keep to the bits that they have;
* `Change.fresh` — whatever uses the unit takes away the mark of a reset, unless nothing changes.
-/

namespace M68k

namespace Fpu

/-- What an instruction can make of the unit; loading registers is allowed if `loads` is set. -/
inductive Change (loads : Bool) (fpu : Fpu) : Fpu → Prop where
  | compute (host : HostMath) (address : Register) (command : Command) (source : Extended)
      (register : RegisterNumber) :
      Change loads fpu ((fpu.beginInstruction address).execute host command source register)
  | computeOperand (host : HostMath) (address : Register) (format : DataFormat) (image : Image)
      (command : Command) (register : RegisterNumber) :
      Change loads fpu
        (((fpu.beginInstruction address).loadOperand format image).2.execute host command
          ((fpu.beginInstruction address).loadOperand format image).1 register)
  | constant (address : Register) (offset : Nat) (register : RegisterNumber) :
      Change loads fpu ((fpu.beginInstruction address).moveConstant offset register)
  | store (address : Register) (format : DataFormat) (register : RegisterNumber) (factor : Int) :
      Change loads fpu ((fpu.beginInstruction address).storeOperand format register factor).2
  | test {fpu' : Fpu} {predicate : Nat} {truth : Bool}
      (tested : fpu.testCondition predicate = some (truth, fpu')) : Change loads fpu fpu'
  | restore {fpu' : Fpu} {header : BitVec 32} {size : Nat}
      (restored : fpu.restore header = .ok (size, fpu')) : Change loads fpu fpu'
  | loadControl (may : loads = true) (r : Execution.UnitControl) (value : BitVec 32) :
      Change loads fpu (r.write fpu value)
  | loadData (may : loads = true) (register : RegisterNumber) (value : Extended) :
      Change loads fpu (fpu.setData register value)

/-- Writing a data register changes what is read from it and from no other. -/
theorem get_setData (fpu : Fpu) (register other : RegisterNumber) (value : Extended) :
    (fpu.setData register value).get other = if register = other then value else fpu.get other := by
  simp only [get, setData, Vector.getElem_set, Fin.ext_iff]

/-! ## The bits of control and status register -/

/-- Control and status register have no bit that they lack. -/
structure Masked (fpu : Fpu) : Prop where
  control : Within controlMask fpu.control
  status : Within statusMask fpu.status

theorem masked_new (model : Model) : (new model).Masked := ⟨.zero _, .zero _⟩

theorem within_accrue (exceptions : Register) : Within statusMask (accrue exceptions) := by
  have bit (condition : Bool) {value : Register} (within : Within statusMask value) :
      Within statusMask (if condition then value else 0) := .ite within (.zero _)
  exact ((((bit _ (by decide)).or (bit _ (by decide))).or (bit _ (by decide))).or
    (bit _ (by decide))).or (bit _ (by decide))

theorem within_codesOf (value : Extended) : Within codeMask (codesOf value) := by
  refine .or (.ite (by decide) (.zero _)) ?_
  cases value.kind <;> decide

theorem within_comparisonCodes (destination source : Extended) (order : Option Ordering) :
    Within codeMask (comparisonCodes destination source order) := by
  rcases order with _ | _ | _ | _
  · show Within codeMask nanCode
    decide
  · show Within codeMask negativeCode
    decide
  · exact .ite (by decide) (by decide)
  · exact .zero _

/-- The condition codes that an operation yields. -/
theorem within_outcome {host : HostMath} {env : Environment} {operation : Operation}
    {destination source : Extended} {value : Raised Register}
    (codes : outcome host env operation destination source = .codes value) :
    Within codeMask value.value := by
  cases operation with
  | cmp =>
    obtain rfl := Outcome.codes.inj codes
    exact within_comparisonCodes _ _ _
  | tst =>
    obtain rfl := Outcome.codes.inj codes
    exact within_codesOf source
  | _ => exact nomatch codes

namespace Masked

variable {fpu : Fpu}

theorem beginInstruction (h : fpu.Masked) (address : Register) :
    (fpu.beginInstruction address).Masked := ⟨h.control, h.status.and _⟩

theorem raise (h : fpu.Masked) (exceptions : Register) : (fpu.raise exceptions).Masked :=
  ⟨h.control, (h.status.or ((Within.cut exceptionMask exceptions).mono (by decide))).or
    (within_accrue exceptions)⟩

theorem setCodes (h : fpu.Masked) {codes : Register} (within : Within codeMask codes) :
    (fpu.setCodes codes).Masked := ⟨h.control, (h.status.and _).or (within.mono (by decide))⟩

theorem setQuotient (h : fpu.Masked) (quotient : BitVec 64) (negative : Bool) :
    (fpu.setQuotient quotient negative).Masked :=
  ⟨h.control, (h.status.and _).or ((within_quotientMask _).mono (by decide))⟩

theorem setData (h : fpu.Masked) (register : RegisterNumber) (value : Extended) :
    (fpu.setData register value).Masked := ⟨h.control, h.status⟩

theorem finish (h : fpu.Masked) (signaling : Bool) (result : Raised Extended)
    (register : RegisterNumber) : (fpu.finish signaling result register).Masked :=
  ((h.raise _).setData register _).setCodes (within_codesOf _)

theorem execute (h : fpu.Masked) (host : HostMath) (command : Command) (source : Extended)
    (register : RegisterNumber) : (fpu.execute host command source register).Masked := by
  unfold Fpu.execute
  dsimp only
  split
  · exact h.finish _ _ _
  · exact (h.setQuotient _ _).finish _ _ _
  · exact (h.setData _ _).finish _ _ _
  next value codes => exact (h.setCodes (within_outcome codes)).raise _

theorem moveConstant (h : fpu.Masked) (offset : Nat) (register : RegisterNumber) :
    (fpu.moveConstant offset register).Masked := by
  unfold Fpu.moveConstant
  dsimp only
  refine Masked.setCodes (.setData ?_ _ _) (within_codesOf _)
  split
  · exact (h.raise _).raise _
  · exact h.raise _

theorem write (h : fpu.Masked) (r : Execution.UnitControl) (value : BitVec 32) :
    (r.write fpu value).Masked := by
  cases r with
  | control => exact ⟨.cut _ _, h.status⟩
  | status => exact ⟨h.control, .cut _ _⟩
  | instructionAddress => exact ⟨h.control, h.status⟩

end Masked

/-! ## The mark of a reset -/

/-- A unit that counts as just reset is as a reset leaves it. -/
def Fresh (fpu : Fpu) : Prop := fpu.justReset = true → fpu = fpu.reset

theorem fresh_new (model : Model) : (new model).Fresh := fun _ => rfl

theorem fresh_of_used {fpu : Fpu} (used : fpu.justReset = false) : fpu.Fresh := by
  intro reset
  exact absurd reset (by simp [used])

variable {fpu fpu' : Fpu}

theorem model_execute (host : HostMath) (command : Command) (source : Extended)
    (register : RegisterNumber) :
    (fpu.execute host command source register).model = fpu.model := by
  unfold execute
  dsimp only
  split <;> rfl

theorem justReset_execute (host : HostMath) (command : Command) (source : Extended)
    (register : RegisterNumber) :
    (fpu.execute host command source register).justReset = fpu.justReset := by
  unfold execute
  dsimp only
  split <;> rfl

theorem model_moveConstant (offset : Nat) (register : RegisterNumber) :
    (fpu.moveConstant offset register).model = fpu.model := by
  unfold moveConstant
  dsimp only
  split <;> rfl

theorem justReset_moveConstant (offset : Nat) (register : RegisterNumber) :
    (fpu.moveConstant offset register).justReset = fpu.justReset := by
  unfold moveConstant
  dsimp only
  split <;> rfl

/-- Testing a condition changes nothing, or it raises the exception of unordered operands. -/
theorem testCondition_eq {predicate : Nat} {truth : Bool}
    (tested : fpu.testCondition predicate = some (truth, fpu')) :
    fpu' = if Condition.signals predicate fpu.status then fpu.raise branchUnordered else fpu := by
  obtain ⟨_, -, found⟩ := Option.map_eq_some_iff.mp tested
  exact (congrArg Prod.snd found).symm

/-- Restoring a frame resets the unit, or takes the mark of a reset away. -/
theorem restore_eq {header : BitVec 32} {size : Nat}
    (restored : fpu.restore header = .ok (size, fpu')) :
    fpu' = fpu.reset ∨ fpu' = { fpu with justReset := false } := by
  unfold restore at restored
  dsimp only at restored
  split at restored
  · exact .inl (congrArg Prod.snd (Except.ok.inj restored)).symm
  · split at restored
    · exact .inr (congrArg Prod.snd (Except.ok.inj restored)).symm
    · exact nomatch restored

namespace Change

variable {loads : Bool}

theorem masked (h : fpu.Change loads fpu') (before : fpu.Masked) : fpu'.Masked := by
  cases h with
  | compute host address command source register =>
    exact (before.beginInstruction address).execute host command source register
  | computeOperand host address format image command register =>
    exact ((before.beginInstruction address).raise _).execute host command _ register
  | constant address offset register =>
    exact (before.beginInstruction address).moveConstant offset register
  | store address format register factor =>
    exact ((before.beginInstruction address).raise _).raise _
  | test tested =>
    rw [testCondition_eq tested]
    split
    · exact before.raise _
    · exact before
  | restore restored =>
    obtain rfl | rfl := restore_eq restored
    · exact masked_new _
    · exact ⟨before.control, before.status⟩
  | loadControl _ r value => exact before.write r value
  | loadData _ register value => exact before.setData register value

theorem model_eq (h : fpu.Change loads fpu') : fpu'.model = fpu.model := by
  cases h with
  | compute => exact model_execute ..
  | computeOperand => exact model_execute ..
  | constant => exact model_moveConstant ..
  | store => rfl
  | test tested =>
    rw [testCondition_eq tested]
    split <;> rfl
  | restore restored => obtain rfl | rfl := restore_eq restored <;> rfl
  | loadControl _ r _ => cases r <;> rfl
  | loadData => rfl

/-- No change but a loaded register leaves the mark of a reset on a unit that differs from one. -/
theorem fresh (h : fpu.Change loads fpu') (unloaded : loads = false) (before : fpu.Fresh) :
    fpu'.Fresh := by
  cases h with
  | compute => exact fresh_of_used (justReset_execute ..)
  | computeOperand => exact fresh_of_used (justReset_execute ..)
  | constant => exact fresh_of_used (justReset_moveConstant ..)
  | store => exact fresh_of_used rfl
  | test tested =>
    rw [testCondition_eq tested]
    cases reset : fpu.justReset with
    | false =>
      split
      · exact fresh_of_used reset
      · exact before
    | true =>
      -- the codes of a unit as new are clear, and no predicate signals
      have quiet (predicate : Nat) : Condition.signals predicate fpu.status = false := by
        rw [before reset]
        simp [Condition.signals, Fpu.reset, new]
      rw [if_neg (by simp [quiet])]
      exact before
  | restore restored =>
    obtain rfl | rfl := restore_eq restored
    · exact fresh_new _
    · exact fresh_of_used rfl
  | loadControl may => exact absurd may (by simp [unloaded])
  | loadData may => exact absurd may (by simp [unloaded])

end Change

end Fpu

end M68k
