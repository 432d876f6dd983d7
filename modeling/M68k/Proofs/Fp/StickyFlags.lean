import M68k.Proofs.Fp.Comparison
import M68k.Proofs.Fp.OnStatus
import M68k.Proofs.Fp.RangeFlags

/-!
# Flags are sticky

Operations add flags to a status and do nothing else with those that are there: neither their
results nor what they raise depend on the flags raised before, and the environment stays as it is.
The same then holds of calculations of any length, in which operands and the choice of the next
operation can depend on all results before.

* `Operation` — the operations on floating-point numbers;
* `Operation.onStatus_performs` — what they do to a status;
* `Sticky.bind` — steps that only add flags do so one after another;
* `sticky_flags` — every operation and every calculation.
-/

namespace M68k

namespace Fp

variable {α β : Type}

/-! ## Operations -/

/-- An operation with its operands, by the type of what it gives. -/
inductive Operation : Type → Type where
  | add {f : Format} (a b : Fp f) : Operation (Fp f)
  | sub {f : Format} (a b : Fp f) : Operation (Fp f)
  | mul {f : Format} (a b : Fp f) : Operation (Fp f)
  | div {f : Format} (a b : Fp f) : Operation (Fp f)
  | sqrt {f : Format} (a : Fp f) : Operation (Fp f)
  | rem {f : Format} (a b : Fp f) : Operation (Fp f)
  /-- The remainder with its quotient, truncated or to the nearest integer. -/
  | remainder {f : Format} (nearest : Bool) (a b : Fp f) : Operation (Remainder f)
  | roundToInt {f : Format} (a : Fp f) : Operation (Fp f)
  | truncToInt {f : Format} (a : Fp f) : Operation (Fp f)
  /-- An integer of so many bits, in a mode of its own or the environment's. -/
  | toInt {f : Format} (width : ℕ) (mode : Option RoundingMode) (a : Fp f) : Operation ℤ
  | ofInt (f : Format) (n : ℤ) : Operation (Fp f)
  | convert {f : Format} (g : Format) (a : Fp f) : Operation (Fp g)
  | compare {f : Format} (signaling : Bool) (a b : Fp f) : Operation (Option Ordering)
  | test {f : Format} (relation : Comparison) (signaling : Bool) (a b : Fp f) : Operation Bool
  | ofScaled (sign : Bool) (mantissa : ℕ) (exponent : ℤ) : Operation Extended
  | roundToPrecision (x : Extended) : Operation Extended
  | scale (x : Extended) (n : ℤ) : Operation Extended
  | getExponent (x : Extended) : Operation Extended
  | getMantissa (x : Extended) : Operation Extended

/-- What an operation gives and raises in an environment. -/
def Operation.perform (env : Environment) : Operation α → Raised α
  | add a b => Fp.add env a b
  | sub a b => Fp.sub env a b
  | mul a b => Fp.mul env a b
  | div a b => Fp.div env a b
  | sqrt a => Fp.sqrt env a
  | rem a b => Fp.rem env a b
  | remainder nearest a b => Fp.remainder env nearest a b
  | roundToInt a => Fp.roundToInt env a
  | truncToInt a => Fp.truncToInt env a
  | toInt width mode a => Fp.toInt width (mode.getD env.rounding) a
  | ofInt f n => Fp.ofInt f env n
  | convert g a => Fp.convert g env a
  | compare signaling a b => compareWith signaling a b
  | test relation signaling a b => relation.test signaling a b
  | ofScaled sign mantissa exponent => Extended.ofScaled env sign mantissa exponent
  | roundToPrecision x => Extended.roundToPrecision env x
  | scale x n => Extended.scale env x n
  | getExponent x => Extended.getExponent env x
  | getMantissa x => Extended.getMantissa env x

theorem rangeInexact_test {f : Format} (relation : Comparison) (signaling : Bool) (a b : Fp f) :
    (relation.test signaling a b).RangeInexact := by
  rw [Comparison.test_eq]
  exact rangeInexact_compareWith a b signaling

theorem rangeInexact_ofScaled (env : Environment) (sign : Bool) (mantissa : ℕ) (exponent : ℤ) :
    (Extended.ofScaled env sign mantissa exponent).RangeInexact := by
  unfold Extended.ofScaled
  split
  · exact .pure _
  · exact rangeInexact_encode env _ _ _

theorem rangeInexact_perform (operation : Operation α) (env : Environment) :
    (operation.perform env).RangeInexact := by
  cases operation with
  | add a b => exact rangeInexact_add env a b
  | sub a b => exact rangeInexact_sub env a b
  | mul a b => exact rangeInexact_mul env a b
  | div a b => exact rangeInexact_div env a b
  | sqrt a => exact rangeInexact_sqrt env a
  | rem a b => exact (rangeInexact_remainder env a b true).bind fun _ => .pure _
  | remainder nearest a b => exact rangeInexact_remainder env a b nearest
  | roundToInt a => exact rangeInexact_roundToIntegral env a _
  | truncToInt a => exact rangeInexact_roundToIntegral env a _
  | toInt width mode a => exact rangeInexact_toInt a width _
  | ofInt f n => exact rangeInexact_encodeDyadic env _ _ _ _
  | convert g a => exact rangeInexact_convert env a g
  | compare signaling a b => exact rangeInexact_compareWith a b signaling
  | test relation signaling a b => exact rangeInexact_test relation signaling a b
  | ofScaled sign mantissa exponent => exact rangeInexact_ofScaled env sign mantissa exponent
  | roundToPrecision x => exact Extended.rangeInexact_roundToPrecision env x
  | scale x n => exact Extended.rangeInexact_scale env x n
  | getExponent x => exact Extended.rangeInexact_getExponent env x
  | getMantissa x => exact Extended.rangeInexact_getMantissa env x

/-! ## Operations on a status -/

/-- The test of two encodings, which raises its flags on a status. -/
def Comparison.onStatus {f : Format} (signaling : Bool) : Comparison → Fp f → Fp f → StatusM Bool
  | equal => OnStatus.equal signaling
  | lessThan => OnStatus.lessThan signaling
  | lessEqual => OnStatus.lessEqual signaling

/-- What an operation does to the status of its caller. -/
def Operation.onStatus : Operation α → StatusM α
  | add a b => OnStatus.add a b
  | sub a b => OnStatus.sub a b
  | mul a b => OnStatus.mul a b
  | div a b => OnStatus.div a b
  | sqrt a => OnStatus.sqrt a
  | rem a b => OnStatus.rem a b
  | remainder nearest a b => OnStatus.remainder nearest a b
  | roundToInt a => OnStatus.roundToInt a
  | truncToInt a => OnStatus.truncToInt a
  | toInt width mode a => OnStatus.toInt width mode a
  | ofInt f n => OnStatus.ofInt f n
  | convert g a => OnStatus.convert g a
  | compare signaling a b => OnStatus.compareWith signaling a b
  | test relation signaling a b => relation.onStatus signaling a b
  | ofScaled sign mantissa exponent => OnStatus.ofScaled sign mantissa exponent
  | roundToPrecision x => OnStatus.roundToPrecision x
  | scale x n => OnStatus.scale x n
  | getExponent x => OnStatus.getExponent x
  | getMantissa x => OnStatus.getMantissa x

theorem test_performs {f : Format} (env : Environment) (relation : Comparison) (signaling : Bool)
    (a b : Fp f) :
    OnStatus.Performs env (relation.onStatus signaling a b) (relation.test signaling a b) := by
  have compares := OnStatus.compareWith_performs env a b signaling
  cases relation with
  | equal => cases signaling <;> exact compares.map _
  | lessThan => cases signaling <;> exact compares.map _
  | lessEqual => cases signaling <;> exact compares.map _

/-- An operation on a status does what it gives and raises in the environment. -/
theorem Operation.onStatus_performs (operation : Operation α) (env : Environment) :
    OnStatus.Performs env operation.onStatus (operation.perform env) := by
  cases operation with
  | add a b => exact OnStatus.add_performs env a b
  | sub a b => exact OnStatus.sub_performs env a b
  | mul a b => exact OnStatus.mul_performs env a b
  | div a b => exact OnStatus.div_performs env a b
  | sqrt a => exact OnStatus.sqrt_performs env a
  | rem a b => exact OnStatus.rem_performs env a b
  | remainder nearest a b => exact OnStatus.remainder_performs env a b nearest
  | roundToInt a => exact OnStatus.roundToInt_performs env a
  | truncToInt a => exact OnStatus.truncToInt_performs env a
  | toInt width mode a => exact OnStatus.toInt_performs env a width mode
  | ofInt f n => exact OnStatus.ofInt_performs env n
  | convert g a => exact OnStatus.convert_performs env a g
  | compare signaling a b => exact OnStatus.compareWith_performs env a b signaling
  | test relation signaling a b => exact test_performs env relation signaling a b
  | ofScaled sign mantissa exponent => exact OnStatus.ofScaled_performs env sign mantissa exponent
  | roundToPrecision x => exact OnStatus.roundToPrecision_performs env x
  | scale x n => exact OnStatus.scale_performs env x n
  | getExponent x => exact OnStatus.getExponent_performs env x
  | getMantissa x => exact OnStatus.getMantissa_performs env x

/-! ## Steps that only add flags -/

/-- Whether a step treats the flags of a status as sticky: it gives the same as if there had been
none, adds to those there what it would have raised then, keeps the environment, and calls what is
out of range inexact. -/
structure Sticky (step : StatusM α) : Prop where
  value (status : Status) : (step.run status).1 = (step.run status.takeFlags.2).1
  flags (status : Status) :
    (step.run status).2.flags = status.flags ||| (step.run status.takeFlags.2).2.flags
  environment (status : Status) : (step.run status).2.toEnvironment = status.toEnvironment
  rangeInexact (status : Status) : (step.run status.takeFlags.2).2.flags.RangeInexact

namespace Sticky

theorem pure (a : α) : Sticky (Pure.pure a) where
  value _ := rfl
  flags _ := BitVec.or_zero.symm
  environment _ := rfl
  rangeInexact _ := .none

/-- An action that unites its flags with those there, whatever they are. -/
theorem of_performs {step : StatusM α} {operation : Environment → Raised α}
    (performs : ∀ env, OnStatus.Performs env step (operation env))
    (rangeInexact : ∀ env, (operation env).RangeInexact) : Sticky step := by
  have found (status : Status) : step.run status =
      ((operation status.toEnvironment).value,
        ⟨status.toEnvironment, status.flags ||| (operation status.toEnvironment).flags⟩) :=
    performs status.toEnvironment status.flags
  have cleared (status : Status) : step.run status.takeFlags.2 =
      ((operation status.toEnvironment).value,
        ⟨status.toEnvironment, (operation status.toEnvironment).flags⟩) := by
    refine (performs status.toEnvironment Flags.none).trans ?_
    rw [Flags.none, BitVec.zero_or]
  refine ⟨fun status => ?_, fun status => ?_, fun status => ?_, fun status => ?_⟩
  · rw [found, cleared]
  · rw [found, cleared]
  · rw [found]
  · rw [cleared]
    exact rangeInexact status.toEnvironment

/-- A step followed by another one that is chosen from the first one's result. -/
theorem bind {first : StatusM α} {next : α → StatusM β} (sticky : Sticky first)
    (others : ∀ a, Sticky (next a)) : Sticky (first >>= next) := by
  have clear {s t : Status} (same : s.toEnvironment = t.toEnvironment) :
      s.takeFlags.2 = t.takeFlags.2 := by
    obtain ⟨env, flags⟩ := s
    obtain ⟨_, flags'⟩ := t
    obtain rfl : env = _ := same
    rfl
  -- from either status the second step starts in one and the same environment
  have start (status : Status) :
      (first.run status.takeFlags.2).2.takeFlags.2 = (first.run status).2.takeFlags.2 :=
    clear ((sticky.environment _).trans (sticky.environment status).symm)
  have run (status : Status) : (first >>= next).run status =
      (next (first.run status).1).run (first.run status).2 := rfl
  refine ⟨fun status => ?_, fun status => ?_, fun status => ?_, fun status => ?_⟩
  · rw [run, run, (others _).value, (others _).value (first.run status.takeFlags.2).2, start,
      ← sticky.value]
  · rw [run, run, (others _).flags, (others _).flags (first.run status.takeFlags.2).2, start,
      ← sticky.value, sticky.flags status, BitVec.or_assoc]
  · exact ((others _).environment _).trans (sticky.environment status)
  · rw [run, (others _).flags]
    exact (sticky.rangeInexact status).or ((others _).rangeInexact _)

end Sticky

/-! ## Calculations -/

/-- Operations performed one after another, each chosen from the results of those before. -/
inductive Calculation (α : Type) : Type 1 where
  | done (result : α)
  | perform {β : Type} (operation : Operation β) (next : β → Calculation α)

/-- Performs all operations of a calculation on a status. -/
def Calculation.onStatus : Calculation α → StatusM α
  | done result => return result
  | perform operation next => do
    let result ← operation.onStatus
    (next result).onStatus

/-- **Flags are sticky and never looked at.**  Whatever flags have been raised before, each
operation and each calculation gives the same result as if there were none, leaves the united flags
and the same environment, and raises overflow and underflow only together with `inexact`. -/
theorem sticky_flags :
    (∀ {α : Type} (operation : Operation α), Sticky operation.onStatus) ∧
      ∀ {α : Type} (calculation : Calculation α), Sticky calculation.onStatus := by
  have operations {α : Type} (operation : Operation α) : Sticky operation.onStatus :=
    .of_performs operation.onStatus_performs (rangeInexact_perform operation)
  refine ⟨operations, fun calculation => ?_⟩
  induction calculation with
  | done result => exact .pure result
  | perform operation next ih => exact (operations operation).bind ih

end Fp

end M68k
