import M68k.Proofs.Fp.NaNPropagation
import M68k.Proofs.Fpu.Accrual
import M68k.Proofs.Fpu.Comparison

/-!
# NaNs in arithmetic commands

However a command comes to its result, it treats NaNs in one way: the first NaN among the operands
that the command reads is what it writes, made quiet, no register receives a signalling NaN, and a
signalling operand is reported as such and not as an operand error.

* `Operation.operands`, `Operation.targets` — what an operation reads and writes;
* `propagatesNaN_written` — every result that an operation yields;
* `execute_nan` — the registers and the exceptions after a command.
-/

namespace M68k

namespace Fpu

/-! ## Operations of the unit -/

section Operations

variable (host : HostMath) (env : Environment) (source : Extended)

theorem propagatesNaN_signOperation (change : Extended → Extended) :
    PropagatesNaN [source] (signOperation env change source) := by
  unfold signOperation
  cases nan : source.isNaN with
  | false =>
    refine Extended.propagatesNaN_one (fun kind => ?_) fun _ =>
      (Extended.propagatesNaN_roundToPrecision env _).quiet
    simp [Fp.isNaN, kind] at nan
  | true => exact Extended.propagatesNaN_roundToPrecision env source

theorem propagatesNaN_scaleBy (destination : Extended) :
    PropagatesNaN [destination, source] (scaleBy env destination source) := by
  refine Extended.propagatesNaN_two (fun nan => by simp [scaleBy, Fp.isNaN, nan])
    (fun nan => by simp [scaleBy, Fp.isNaN, nan]) fun hd hs => ?_
  simp only [scaleBy, hd, hs, Bool.or_false, Bool.false_eq_true, if_false]
  split
  · exact Extended.quiet_invalid
  · exact (Extended.propagatesNaN_scale env destination _).quiet

/-- What the host computes is not looked at for a NaN, and made quiet otherwise. -/
theorem propagatesNaN_elementary (function : Elementary) :
    PropagatesNaN [source] (elementary host env function source) := by
  refine Extended.propagatesNaN_one (fun nan => ?_) fun number => ?_
  · exact elementary_of_isNaN host env function (by simp [Fp.isNaN, nan])
  · have rounded (x : Extended) : (Extended.roundToPrecision env x).Quiet :=
      (Extended.propagatesNaN_roundToPrecision env x).quiet
    unfold elementary
    grind

end Operations

/-! ## What is read and written -/

/-- The operands that an operation reads, in the order in which their NaNs count. -/
def Operation.operands (operation : Operation) (destination source : Extended) : List Extended :=
  if operation.isDyadic then [destination, source] else [source]

/-- The registers that an operation writes. -/
def Operation.targets (register : RegisterNumber) : Operation → List RegisterNumber
  | .cmp | .tst => []
  | .sinCos cosine => [register, cosine]
  | _ => [register]

/-- The results that an outcome has for registers. -/
def Outcome.written (register : RegisterNumber) :
    Outcome → List (RegisterNumber × Raised Extended)
  | .result value => [(register, value)]
  | .remainder value => [(register, ⟨value.value.value, value.flags⟩)]
  | .pair value other second => [(register, value), (second, other)]
  | .codes _ => []

section Outcomes

variable (host : HostMath) (env : Environment) (operation : Operation)
  (destination source : Extended)

theorem targets_eq (register : RegisterNumber) :
    ((outcome host env operation destination source).written register).map Prod.fst =
      operation.targets register := by
  cases operation <;> rfl

/-- Every result of an operation propagates the NaNs of its operands. -/
theorem propagatesNaN_written (register : RegisterNumber) :
    ∀ result ∈ (outcome host env operation destination source).written register,
      PropagatesNaN (operation.operands destination source) result.2 := by
  have one {r : Raised Extended} (h : PropagatesNaN (operation.operands destination source) r) :
      ∀ result ∈ [(register, r)], PropagatesNaN (operation.operands destination source) result.2 :=
    List.forall_mem_singleton.mpr h
  cases operation with
  | move => exact one (Extended.propagatesNaN_roundToPrecision env source)
  | int =>
    exact one (Extended.propagatesNaN_bind (Extended.propagatesNaN_roundToIntegral env source _)
      (Extended.propagatesNaN_roundToPrecision env))
  | intRz =>
    exact one (Extended.propagatesNaN_bind (Extended.propagatesNaN_roundToIntegral env source _)
      (Extended.propagatesNaN_roundToPrecision env))
  | sqrt => exact one (Extended.propagatesNaN_sqrt env source)
  | abs => exact one (propagatesNaN_signOperation env source _)
  | neg => exact one (propagatesNaN_signOperation env source _)
  | getExp => exact one (Extended.propagatesNaN_getExponent env source)
  | getMan => exact one (Extended.propagatesNaN_getMantissa env source)
  | div => exact one (Extended.propagatesNaN_div env destination source)
  | mod => exact one (Extended.propagatesNaN_remainder env destination source false)
  | add => exact one (Extended.propagatesNaN_add env destination source)
  | mul => exact one (Extended.propagatesNaN_mul env destination source)
  | sglDiv => exact one (Extended.propagatesNaN_div _ destination source)
  | rem => exact one (Extended.propagatesNaN_remainder env destination source true)
  | scale => exact one (propagatesNaN_scaleBy env source destination)
  | sglMul => exact one (Extended.propagatesNaN_mul _ destination source)
  | sub => exact one (Extended.propagatesNaN_sub env destination source)
  | cmp => exact nofun
  | tst => exact nofun
  | sinCos cosine =>
    exact List.forall_mem_cons.mpr ⟨propagatesNaN_elementary host env source .sin,
      List.forall_mem_singleton.mpr (propagatesNaN_elementary host env source .cos)⟩
  | elementary function => exact one (propagatesNaN_elementary host env source function)

/-- An operation is invalid if one of its operands is a signalling NaN. -/
theorem invalid_outcome
    (signaling : (operation.operands destination source).any Fp.isSignaling = true) :
    (outcome host env operation destination source).flags.includes Flags.invalid = true := by
  have results := propagatesNaN_written host env operation destination source 0
  cases operation with
  | cmp =>
    have signaling : (destination.isSignaling || source.isSignaling) = true := by
      simpa [Operation.operands, Operation.isDyadic] using signaling
    show ((destination.compareQuiet source).flags ||| Flags.none).includes Flags.invalid = true
    rw [compareQuiet_flags, signaling]
    decide
  | tst =>
    have signaling : source.isSignaling = true := by
      simpa [Operation.operands, Operation.isDyadic] using signaling
    show (Flags.when source.isSignaling Flags.invalid).includes Flags.invalid = true
    rw [signaling]
    decide
  | sinCos cosine =>
    have first := (results _ List.mem_cons_self).invalid signaling
    show ((elementary host env .sin source).flags ||| _).includes Flags.invalid = true
    rw [Flags.includes_or (by decide), first, Bool.true_or]
  | _ => exact (results _ List.mem_cons_self).invalid signaling

end Outcomes

/-! ## Registers and exceptions after a command -/

section Registers

variable (fpu : Fpu)

theorem get_finish (signaling : Bool) (result : Raised Extended) (register other : RegisterNumber) :
    (fpu.finish signaling result register).get other =
      if register = other then result.value else fpu.get other :=
  get_setData (fpu.raiseFlags result.flags signaling) register other result.value

/-- A register holds the result that was written to it last, or what it held before. -/
theorem get_conclude (signaling : Bool) (register other : RegisterNumber) (outcome : Outcome) :
    (fpu.conclude signaling register outcome).get other =
      (((outcome.written register).find? (·.1 = other)).map (·.2.value)).getD (fpu.get other) := by
  cases outcome with
  | result value =>
    rw [conclude, get_finish, Outcome.written, List.find?_singleton]
    by_cases same : register = other <;> simp [same]
  | remainder value =>
    rw [conclude, get_finish, Outcome.written, List.find?_singleton]
    by_cases same : register = other <;> simp [same]
    rfl
  | pair value rest second =>
    rw [conclude, get_finish, get_setData, Outcome.written, List.find?_cons, List.find?_singleton]
    by_cases same : register = other
    · simp [same]
    · by_cases same' : second = other <;> simp [same, same']
  | codes value => rfl

end Registers

theorem signalingOperand_eq (fpu : Fpu) (command : Command) (source : Extended)
    (register : RegisterNumber) :
    fpu.signalingOperand command source register =
      (command.operation.operands (fpu.get register) source).any Fp.isSignaling := by
  unfold signalingOperand Operation.operands
  cases command.operation.isDyadic with
  | false => simp
  | true => simp [Bool.or_comm]

/-- An invalid operation is reported as a signalling operand or as an operand error. -/
theorem exceptionsOfFlags_invalid (flags : Flags) (signaling : Bool) :
    exceptionsOfFlags flags signaling &&& exceptionMask &&& signalingNaN =
        (if flags.includes Flags.invalid && signaling then signalingNaN else 0) ∧
      exceptionsOfFlags flags signaling &&& exceptionMask &&& operandError =
        (if flags.includes Flags.invalid && !signaling then operandError else 0) := by
  revert flags signaling
  decide

section Command

variable (host : HostMath) (fpu : Fpu) (command : Command) (source : Extended)
  (register : RegisterNumber)

/-- The targets of a command hold results that propagate the NaNs of its operands. -/
theorem propagatesNaN_execute {target : RegisterNumber}
    (mem : target ∈ command.operation.targets register) :
    ∃ result, (fpu.execute host command source register).get target = result.value ∧
      PropagatesNaN (command.operation.operands (fpu.get register) source) result := by
  have fields : ((fpu.commandOutcome host command source register).written register).map Prod.fst =
      command.operation.targets register := targets_eq _ _ _ _ _ _
  have propagates := propagatesNaN_written host { fpu.environment with
    precision := command.precision.getD fpu.environment.precision } command.operation
    (fpu.get register) source register
  rw [← fields] at mem
  rw [execute_eq, get_conclude]
  cases last : ((fpu.commandOutcome host command source register).written register).find?
      (·.1 = target) with
  | none =>
    obtain ⟨result, written, rfl⟩ := List.mem_map.mp mem
    exact absurd (List.find?_eq_none.mp last result written) (by simp)
  | some result => exact ⟨result.2, rfl, propagates result (List.mem_of_find?_eq_some last)⟩

theorem get_execute_of_not_target {other : RegisterNumber}
    (unwritten : other ∉ command.operation.targets register) :
    (fpu.execute host command source register).get other = fpu.get other := by
  have fields : ((fpu.commandOutcome host command source register).written register).map Prod.fst =
      command.operation.targets register := targets_eq _ _ _ _ _ _
  rw [← fields, List.mem_map] at unwritten
  have none : ((fpu.commandOutcome host command source register).written register).find?
      (·.1 = other) = none := by
    refine List.find?_eq_none.mpr fun result written => ?_
    simpa using fun same => unwritten ⟨result, written, same⟩
  rw [execute_eq, get_conclude, none]
  rfl

/-- What a command adds to the two exceptions of an invalid operation. -/
theorem exceptions_execute_invalid :
    let signaling := (command.operation.operands (fpu.get register) source).any Fp.isSignaling
    let after := fpu.execute host command source register
    after.exceptions &&& signalingNaN =
        (fpu.exceptions &&& signalingNaN) ||| (if signaling then signalingNaN else 0) ∧
      (signaling = true →
        after.exceptions &&& operandError = fpu.exceptions &&& operandError) := by
  intro signaling after
  have raised := (raises_execute host fpu command source register).exceptions
  have invalid (found : signaling = true) :
      (fpu.commandOutcome host command source register).flags.includes Flags.invalid = true :=
    invalid_outcome _ _ _ _ _ found
  obtain ⟨signaled, misused⟩ := exceptionsOfFlags_invalid
    (fpu.commandOutcome host command source register).flags signaling
  rw [signalingOperand_eq] at raised
  constructor
  · rw [raised, BitVec.and_or_distrib_right, signaled]
    cases found : signaling with
    | false => rw [Bool.and_false]
    | true => rw [invalid found, Bool.and_true]
  · intro found
    rw [raised, BitVec.and_or_distrib_right, misused, found, Bool.not_true, Bool.and_false]
    exact BitVec.or_zero

/-- **A command treats NaNs in one way.**  It writes the registers that are its targets, never with
a signalling NaN, and if an operand is a NaN, with the first one made quiet.  The exception of a
signalling operand is raised if there is one, and then no operand error. -/
theorem execute_nan :
    let operands := command.operation.operands (fpu.get register) source
    let targets := command.operation.targets register
    let after := fpu.execute host command source register
    (∀ target ∈ targets, (after.get target).isSignaling = false ∧
        ∀ nan, operands.find? Fp.isNaN = some nan → Fp.Quieted nan (after.get target)) ∧
      (∀ other, other ∉ targets → after.get other = fpu.get other) ∧
      after.exceptions &&& signalingNaN =
        (fpu.exceptions &&& signalingNaN) |||
          (if operands.any Fp.isSignaling then signalingNaN else 0) ∧
      (operands.any Fp.isSignaling = true →
        after.exceptions &&& operandError = fpu.exceptions &&& operandError) := by
  intro operands targets after
  obtain ⟨signaled, misused⟩ := exceptions_execute_invalid host fpu command source register
  refine ⟨fun target mem => ?_, fun other unwritten => ?_, signaled, misused⟩
  · obtain ⟨result, held, propagates⟩ :=
      propagatesNaN_execute host fpu command source register mem
    rw [held]
    exact ⟨propagates.quiet, propagates.first⟩
  · exact get_execute_of_not_target host fpu command source register unwritten

end Command

end Fpu

end M68k
