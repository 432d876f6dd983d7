import M68k.Proofs.Fp.RangeFlags
import M68k.Proofs.Fpu.Change

/-!
# No exception is missed or lost

The accrued exceptions are to hold everything that the exception status byte does.  They are added
to piece by piece, each time from the exceptions raised just then, and an underflow accrues only if
an inexact result is raised in the same piece.  That is always so, because the operations never
report a result out of range as exact.

* `Call`, `run` — the steps that instructions are made of, and a sequence of them;
* `Raises` — a step that raises exceptions and accrues them;
* `Complete` — the invariant: all exceptions have accrued, and an underflow is inexact;
* `accrued_run` — all exceptions have accrued after every sequence of steps.
-/

namespace M68k

namespace Fpu

/-! ## Steps -/

/-- A step of an instruction.  Control and data registers can be written between instructions. -/
inductive Call where
  | begin (address : Register)
  | load (format : DataFormat) (image : Image)
  | execute (host : HostMath) (command : Command) (source : Extended) (register : RegisterNumber)
  | store (format : DataFormat) (register : RegisterNumber) (factor : Int)
  | constant (offset : Nat) (register : RegisterNumber)
  | test (predicate : Nat)
  | setControl (value : Register)
  | setData (register : RegisterNumber) (value : Extended)

/-- The unit after a step. -/
def Call.apply (fpu : Fpu) : Call → Fpu
  | .begin address => fpu.beginInstruction address
  | .load format image => (fpu.loadOperand format image).2
  | .execute host command source register => fpu.execute host command source register
  | .store format register factor => (fpu.storeOperand format register factor).2
  | .constant offset register => fpu.moveConstant offset register
  | .test predicate => ((fpu.testCondition predicate).map Prod.snd).getD fpu
  | .setControl value => fpu.setControl value
  | .setData register value => fpu.setData register value

/-- The unit after a sequence of steps. -/
def run (fpu : Fpu) (calls : List Call) : Fpu := calls.foldl Call.apply fpu

/-! ## Raising exceptions -/

/-- A step that raises exceptions, accrues them, and leaves the other exceptions alone. -/
structure Raises (raised : Register) (before after : Fpu) : Prop where
  exceptions : after.exceptions = before.exceptions ||| (raised &&& exceptionMask)
  accrued : after.accrued = before.accrued ||| accrue raised

namespace Raises

variable {fpu fpu' fpu'' : Fpu} {raised raised' : Register}

theorem raise (fpu : Fpu) (raised : Register) : Raises raised fpu (fpu.raise raised) :=
  ⟨exceptions_raise fpu raised, accrued_raise fpu raised⟩

theorem refl (fpu : Fpu) : Raises 0 fpu fpu := ⟨BitVec.or_zero.symm, BitVec.or_zero.symm⟩

/-- Before or after a step that leaves exceptions alone. -/
theorem congr {before after : Fpu} (h : Raises raised fpu fpu')
    (exceptions : before.exceptions = fpu.exceptions) (accrued : before.accrued = fpu.accrued)
    (exceptions' : after.exceptions = fpu'.exceptions) (accrued' : after.accrued = fpu'.accrued) :
    Raises raised before after :=
  ⟨by rw [exceptions', exceptions, h.exceptions], by rw [accrued', accrued, h.accrued]⟩

theorem trans (first : Raises raised fpu fpu') (second : Raises raised' fpu' fpu'')
    (inexact : UnderflowInexact raised) (inexact' : UnderflowInexact raised') :
    Raises (raised ||| raised') fpu fpu'' := by
  refine ⟨?_, ?_⟩
  · rw [second.exceptions, first.exceptions, BitVec.and_or_distrib_right, BitVec.or_assoc]
  · rw [second.accrued, first.accrued, accrue_or inexact inexact', BitVec.or_assoc]

/-- Whatever was accrued stays. -/
theorem accrued_within (h : Raises raised fpu fpu') : Within fpu'.accrued fpu.accrued := by
  rw [h.accrued]
  exact .left _ _

end Raises

/-- The flags that an operation raises. -/
def Outcome.flags : Outcome → Flags
  | .result value => value.flags
  | .remainder value => value.flags
  | .pair value other _ => value.flags ||| other.flags
  | .codes value => value.flags

section Execute

variable (host : HostMath) (fpu : Fpu)

/-- The outcome of a command. -/
def commandOutcome (command : Command) (source : Extended) (register : RegisterNumber) : Outcome :=
  outcome host { fpu.environment with
    precision := command.precision.getD fpu.environment.precision } command.operation
    (fpu.get register) source

/-- Whether an operand of a command is a signalling NaN. -/
def signalingOperand (command : Command) (source : Extended) (register : RegisterNumber) : Bool :=
  source.isSignaling || (command.operation.isDyadic && (fpu.get register).isSignaling)

/-- The unit after an operation with a given outcome. -/
def conclude (signaling : Bool) (register : RegisterNumber) : Outcome → Fpu
  | .result value => fpu.finish signaling value register
  | .remainder value =>
    (fpu.setQuotient value.value.quotient value.value.negative).finish signaling
      ⟨value.value.value, value.flags⟩ register
  | .pair value other second =>
    (fpu.setData second other.value).finish signaling
      ⟨value.value, value.flags ||| other.flags⟩ register
  | .codes value => (fpu.setCodes value.value).raiseFlags value.flags signaling

theorem execute_eq (command : Command) (source : Extended) (register : RegisterNumber) :
    fpu.execute host command source register =
      fpu.conclude (fpu.signalingOperand command source register) register
        (fpu.commandOutcome host command source register) := rfl

theorem raises_finish (signaling : Bool) (result : Raised Extended) (register : RegisterNumber) :
    Raises (exceptionsOfFlags result.flags signaling) fpu
      (fpu.finish signaling result register) :=
  (Raises.raise fpu _).congr rfl rfl (exceptions_setCodes _ (within_codesOf _))
    (accrued_setCodes _ (within_codesOf _))

/-- A command raises what the flags of its outcome stand for. -/
theorem raises_execute (command : Command) (source : Extended) (register : RegisterNumber) :
    Raises (exceptionsOfFlags (fpu.commandOutcome host command source register).flags
        (fpu.signalingOperand command source register)) fpu
      (fpu.execute host command source register) := by
  rw [execute_eq]
  cases found : fpu.commandOutcome host command source register with
  | result value => exact raises_finish fpu _ value register
  | remainder value =>
    have last := raises_finish (fpu.setQuotient value.value.quotient value.value.negative)
      (fpu.signalingOperand command source register) ⟨value.value.value, value.flags⟩ register
    exact last.congr (exceptions_setQuotient _ _ _).symm (accrued_setQuotient _ _ _).symm rfl rfl
  | pair value other second =>
    have last := raises_finish (fpu.setData second other.value)
      (fpu.signalingOperand command source register)
      ⟨value.value, value.flags ||| other.flags⟩ register
    exact last.congr rfl rfl rfl rfl
  | codes value =>
    have within : Within codeMask value.value := within_outcome found
    have last := Raises.raise (fpu.setCodes value.value)
      (exceptionsOfFlags value.flags (fpu.signalingOperand command source register))
    exact last.congr (exceptions_setCodes _ within).symm (accrued_setCodes _ within).symm rfl rfl

end Execute

/-! ## Underflow and inexact results -/

section Inexact

variable (host : HostMath) (env : Environment)

theorem rangeInexact_elementary (function : Elementary) (source : Extended) :
    (elementary host env function source).RangeInexact := by
  have flags (x y : Fp binary64) : (elementaryFlags x y).RangeInexact := by
    unfold elementaryFlags
    split
    · decide
    · split <;> decide
  have raised (x y : Fp binary64) : (Raised.raise (elementaryFlags x y)).RangeInexact := flags x y
  have pole (value : Extended) : Raised.RangeInexact ⟨value, Flags.divideByZero⟩ :=
    .raise value true (by decide)
  unfold elementary
  grind

theorem rangeInexact_scaleBy (destination source : Extended) :
    (scaleBy env destination source).RangeInexact := by
  unfold scaleBy
  grind

/-- No operation reports a result out of range as exact. -/
theorem rangeInexact_outcome (operation : Operation) (destination source : Extended) :
    (outcome host env operation destination source).flags.RangeInexact := by
  have signaled (condition : Bool) : (Flags.when condition Flags.invalid).RangeInexact :=
    .when condition (by decide)
  cases operation with
  | move => exact Extended.rangeInexact_roundToPrecision env source
  | int =>
    exact Raised.RangeInexact.bind (Fp.rangeInexact_roundToIntegral env source _)
      (Extended.rangeInexact_roundToPrecision env)
  | intRz =>
    exact Raised.RangeInexact.bind (Fp.rangeInexact_roundToIntegral env source _)
      (Extended.rangeInexact_roundToPrecision env)
  | sqrt => exact Fp.rangeInexact_sqrt env source
  | abs => exact Extended.rangeInexact_roundToPrecision env _
  | neg => exact Extended.rangeInexact_roundToPrecision env _
  | getExp => exact Extended.rangeInexact_getExponent env source
  | getMan => exact Extended.rangeInexact_getMantissa env source
  | div => exact Fp.rangeInexact_div env destination source
  | mod => exact Fp.rangeInexact_remainder env destination source false
  | add => exact Fp.rangeInexact_add env destination source
  | mul => exact Fp.rangeInexact_mul env destination source
  | sglDiv => exact Fp.rangeInexact_div _ destination source
  | rem => exact Fp.rangeInexact_remainder env destination source true
  | scale => exact rangeInexact_scaleBy env destination source
  | sglMul => exact Fp.rangeInexact_mul _ destination source
  | sub => exact Fp.rangeInexact_sub env destination source
  | cmp => exact .or (Fp.rangeInexact_compareWith destination source false) .none
  | tst => exact signaled _
  | sinCos register =>
    exact .or (rangeInexact_elementary host env .sin source)
      (rangeInexact_elementary host env .cos source)
  | elementary function => exact rangeInexact_elementary host env function source

/-- Flags that call a result out of range inexact stand for exceptions that do. -/
theorem underflowInexact_exceptionsOfFlags {flags : Flags} (h : flags.RangeInexact)
    (signaling : Bool) : UnderflowInexact (exceptionsOfFlags flags signaling) := by
  revert flags signaling
  decide

theorem underflowInexact_decode (image : Image) :
    UnderflowInexact (Decimal.decode env image).2 := by
  unfold Decimal.decode
  dsimp only
  split
  · split <;> exact .zero
  · split
    · exact .zero
    · exact .ite (by decide) .zero

theorem underflowInexact_load (format : DataFormat) (image : Image) :
    UnderflowInexact (load env format image).2 := by
  cases format with
  | packed => exact underflowInexact_decode env image
  | packedDynamic => exact underflowInexact_decode env image
  | _ => exact .zero

theorem underflowInexact_encodeFrom (guess k : ℤ) (mode : RoundingMode) (value : Extended) :
    UnderflowInexact (Decimal.encodeFrom guess mode k value).2 := by
  unfold Decimal.encodeFrom
  cases value.kind with
  | finite => exact .or (.ite (by decide) .zero) (.ite (by decide) .zero)
  | _ => exact .zero

/-- Storing reports no result out of range as exact, be it binary or decimal. -/
theorem underflowInexact_store (format : DataFormat) (k : ℤ) (value : Extended) :
    (store env format k value).flags.RangeInexact ∧
      UnderflowInexact (store env format k value).value.2 := by
  have integer (width : ℕ) := Fp.rangeInexact_toInt value width env.rounding
  cases format with
  | byte => exact ⟨integer 8, .ite (by decide) .zero⟩
  | word => exact ⟨integer 16, .ite (by decide) .zero⟩
  | long => exact ⟨integer 32, .ite (by decide) .zero⟩
  | single => exact ⟨.or (Fp.rangeInexact_convert env value binary32) .none, .zero⟩
  | double => exact ⟨.or (Fp.rangeInexact_convert env value binary64) .none, .zero⟩
  | extended => exact ⟨.none, .zero⟩
  | packed => exact ⟨.none, underflowInexact_encodeFrom _ _ _ _⟩
  | packedDynamic => exact ⟨.none, underflowInexact_encodeFrom _ _ _ _⟩

end Inexact

/-! ## Sequences of steps -/

/-- The accrued exception of an underflow. -/
def accruedUnderflow : Register := 0x20#32

/-- A step that raises exceptions, an underflow only with an inexact result. -/
def RaisesSome (before after : Fpu) : Prop :=
  ∃ raised, UnderflowInexact raised ∧ Raises raised before after

namespace RaisesSome

variable {fpu fpu' fpu'' : Fpu}

theorem raise {raised : Register} (inexact : UnderflowInexact raised) :
    RaisesSome fpu (fpu.raise raised) := ⟨raised, inexact, .raise fpu raised⟩

theorem trans (first : RaisesSome fpu fpu') (second : RaisesSome fpu' fpu'') :
    RaisesSome fpu fpu'' := by
  obtain ⟨raised, inexact, first⟩ := first
  obtain ⟨raised', inexact', second⟩ := second
  exact ⟨_, inexact.or inexact', first.trans second inexact inexact'⟩

/-- After a step that leaves exceptions alone. -/
theorem congr (h : RaisesSome fpu fpu') (exceptions : fpu''.exceptions = fpu'.exceptions)
    (accrued : fpu''.accrued = fpu'.accrued) : RaisesSome fpu fpu'' := by
  obtain ⟨raised, inexact, h⟩ := h
  exact ⟨raised, inexact, h.congr rfl rfl exceptions accrued⟩

end RaisesSome

section Calls

variable (fpu : Fpu)

theorem raisesSome_storeOperand (format : DataFormat) (register : RegisterNumber) (k : ℤ) :
    RaisesSome fpu (fpu.storeOperand format register k).2 := by
  obtain ⟨flags, exceptions⟩ :=
    underflowInexact_store fpu.environment format k (fpu.get register)
  exact (RaisesSome.raise (underflowInexact_exceptionsOfFlags flags _)).trans
    (.raise exceptions)

theorem raisesSome_moveConstant (offset : ℕ) (register : RegisterNumber) :
    RaisesSome fpu (fpu.moveConstant offset register) := by
  have rounded := underflowInexact_exceptionsOfFlags
    (Extended.rangeInexact_roundToPrecision fpu.environment (Constant.atOffset offset).value) false
  have written {fpu' : Fpu} (value : Extended) (h : RaisesSome fpu fpu') :
      RaisesSome fpu ((fpu'.setData register value).setCodesOf value) :=
    h.congr (exceptions_setCodes _ (within_codesOf _)) (accrued_setCodes _ (within_codesOf _))
  have inexact : UnderflowInexact inexactResult := by decide
  unfold moveConstant
  dsimp only
  apply written
  split
  · exact (RaisesSome.raise rounded).trans (.raise inexact)
  · exact .raise rounded

theorem raisesSome_testCondition (predicate : ℕ) :
    RaisesSome fpu (((fpu.testCondition predicate).map Prod.snd).getD fpu) := by
  have same : RaisesSome fpu fpu := ⟨0, .zero, .refl fpu⟩
  cases tested : fpu.testCondition predicate with
  | none => exact same
  | some found =>
    show RaisesSome fpu found.2
    rw [testCondition_eq tested]
    split
    · exact .raise (by decide)
    · exact same

/-- A step starts an instruction, or it raises exceptions, an underflow only with an inexact
result. -/
theorem Call.apply_cases (call : Call) :
    (∃ address, call.apply fpu = fpu.beginInstruction address) ∨
      RaisesSome fpu (call.apply fpu) := by
  cases call with
  | begin address => exact .inl ⟨address, rfl⟩
  | load format image => exact .inr (.raise (underflowInexact_load fpu.environment format image))
  | execute host command source register =>
    exact .inr ⟨_, underflowInexact_exceptionsOfFlags (rangeInexact_outcome host _ _ _ _) _,
      raises_execute host fpu command source register⟩
  | store format register factor => exact .inr (raisesSome_storeOperand fpu format register factor)
  | constant offset register => exact .inr (raisesSome_moveConstant fpu offset register)
  | test predicate => exact .inr (raisesSome_testCondition fpu predicate)
  | setControl value => exact .inr ⟨0, .zero, .congr (.refl fpu) rfl rfl rfl rfl⟩
  | setData register value => exact .inr ⟨0, .zero, .congr (.refl fpu) rfl rfl rfl rfl⟩

end Calls

/-- Whether all exceptions have accrued, an underflow with an inexact result among them. -/
structure Accrued (fpu : Fpu) : Prop where
  all : Within fpu.accrued (accrue fpu.exceptions)
  underflow : fpu.exceptions &&& underflowed ≠ 0 → fpu.exceptions &&& inexactResult ≠ 0 →
    fpu.accrued &&& accruedUnderflow ≠ 0

/-- Whether all exceptions have accrued and, so that it stays like that, an underflow comes with an
inexact result. -/
structure Complete (fpu : Fpu) : Prop where
  accrued : Within fpu.accrued (accrue fpu.exceptions)
  inexact : UnderflowInexact fpu.exceptions

namespace Complete

variable {fpu fpu' : Fpu}

theorem new (model : Model) : (Fpu.new model).Complete := by
  have clear : (Fpu.new model).exceptions = 0#32 := BitVec.zero_and
  refine ⟨?_, ?_⟩
  · rw [clear]
    exact .zero _
  · rw [clear]
    exact .zero

/-- An instruction starts without exceptions, whatever the register held. -/
theorem beginInstruction (fpu : Fpu) (address : Register) :
    (fpu.beginInstruction address).Complete := by
  refine ⟨?_, ?_⟩
  · rw [exceptions_beginInstruction]
    exact .zero _
  · rw [exceptions_beginInstruction]
    exact .zero

theorem step (h : fpu.Complete) (raises : RaisesSome fpu fpu') : fpu'.Complete := by
  obtain ⟨raised, inexact, raises⟩ := raises
  have cut : UnderflowInexact (raised &&& exceptionMask) := by
    unfold UnderflowInexact at *
    have within {mask : Register} (inside : exceptionMask &&& mask = mask) :
        raised &&& exceptionMask &&& mask = raised &&& mask := by rw [BitVec.and_assoc, inside]
    rwa [within (by decide), within (by decide)]
  refine ⟨?_, ?_⟩
  · rw [raises.exceptions, raises.accrued, accrue_or h.inexact cut, accrue_and_exceptionMask]
    exact h.accrued.union (BitVec.and_self)
  · rw [raises.exceptions]
    exact h.inexact.or cut

theorem call (h : fpu.Complete) (call : Call) : (call.apply fpu).Complete := by
  obtain ⟨address, first⟩ | raises := call.apply_cases fpu
  · rw [first]
    exact beginInstruction fpu address
  · exact h.step raises

theorem run (h : fpu.Complete) (calls : List Call) : (fpu.run calls).Complete := by
  induction calls generalizing fpu with
  | nil => exact h
  | cons call calls ih => exact ih (h.call call)

theorem toAccrued (h : fpu.Complete) : fpu.Accrued := by
  refine ⟨h.accrued, fun tiny inexact missing => ?_⟩
  have bit (a b c d : Bool) : accruedBits a b true c d &&& accruedUnderflow = accruedUnderflow := by
    revert a b c d
    decide
  have found : accrue fpu.exceptions &&& accruedUnderflow = accruedUnderflow := by
    rw [accrue_eq, bne_iff_ne.mpr tiny, bne_iff_ne.mpr inexact]
    exact bit _ _ _ _
  rw [← h.accrued, BitVec.and_assoc, missing] at found
  exact absurd found.symm (by simp [accruedUnderflow])

end Complete

/-- No step takes an accrued exception away. -/
theorem Call.accrued_within (call : Call) (fpu : Fpu) :
    Within (call.apply fpu).accrued fpu.accrued := by
  obtain ⟨address, first⟩ | ⟨raised, -, raises⟩ := call.apply_cases fpu
  · rw [first, accrued_beginInstruction]
    exact BitVec.and_self
  · exact raises.accrued_within

/-- **All exceptions have accrued after every sequence of steps from a reset**, and no step takes an
accrued exception away, whatever the state.  After the status register has been written, all
exceptions have accrued again from the next start of an instruction on. -/
theorem accrued_run :
    (∀ (model : Model) (calls : List Call), ((new model).run calls).Accrued) ∧
      (∀ (fpu : Fpu) (call : Call), Within (call.apply fpu).accrued fpu.accrued) ∧
      ∀ (fpu : Fpu) (value address : Register) (before after : List Call),
        ((((fpu.setStatus value).run before).beginInstruction address).run after).Accrued :=
  ⟨fun model calls => ((Complete.new model).run calls).toAccrued,
    fun fpu call => call.accrued_within fpu,
    fun _ _ address _ after => ((Complete.beginInstruction _ address).run after).toAccrued⟩

end Fpu

end M68k
