import M68k.Fpu.Condition
import M68k.Fpu.Constant
import M68k.Fpu.Elementary
import M68k.Fpu.Operand

/-!
# The floating-point unit

Its state is eight data registers, three control registers and a mark that says whether anything has
happened since a reset.  Here are the steps that instructions are made of: start of an instruction,
loading and storing operands, arithmetic, conditions.

* `reset_eq_new` — a reset leaves a unit as new;
* `status_subset_raise` — raising exceptions clears no bit of the status register.
-/

namespace M68k

namespace Fpu

/-- The kinds of floating-point units. -/
inductive Model where
  | mc68881
  | mc68882
  /-- The unit on the chip of the 68040. -/
  | mc68040
  deriving DecidableEq, Repr

/-- The name under which a model is reported. -/
def Model.name : Model → String
  | mc68881 => "Mc68881"
  | mc68882 => "Mc68882"
  | mc68040 => "Mc68040"

end Fpu

/-- The state of a floating-point unit. -/
structure Fpu where
  model : Fpu.Model
  /-- Data registers FP0 to FP7. -/
  data : Vector Extended 8
  /-- Control register. -/
  control : Fpu.Register
  /-- Status register. -/
  status : Fpu.Register
  /-- Address of the last instruction that can raise an exception. -/
  instructionAddress : Fpu.Register
  /-- Whether nothing has been executed since a reset. -/
  justReset : Bool
  deriving DecidableEq, Repr

namespace Fpu

/-- The unit after a reset: quiet NaNs in the data registers, zero in the control registers. -/
def new (model : Model) : Fpu where
  model
  data := Vector.replicate 8 (Fp.defaultNaN extended80)
  control := 0
  status := 0
  instructionAddress := 0
  justReset := true

/-- Resets the unit. -/
def reset (fpu : Fpu) : Fpu := new fpu.model

/-- The rounding environment in force. -/
def environment (fpu : Fpu) : Environment := environmentOf fpu.control

/-- Writes the control register; bits it lacks stay clear. -/
def setControl (fpu : Fpu) (value : Register) : Fpu :=
  { fpu with control := value &&& controlMask }

/-- Writes the status register; bits it lacks stay clear. -/
def setStatus (fpu : Fpu) (value : Register) : Fpu :=
  { fpu with status := value &&& statusMask }

/-- The contents of a data register. -/
def get (fpu : Fpu) (register : RegisterNumber) : Extended :=
  getElem fpu.data register.val register.lt_eight

/-- Writes a data register. -/
def setData (fpu : Fpu) (register : RegisterNumber) (value : Extended) : Fpu :=
  { fpu with data := fpu.data.set register.val value register.lt_eight }

/-- Starts an instruction that reports exceptions: the exception status byte is cleared and the
address of the instruction recorded. -/
def beginInstruction (fpu : Fpu) (address : Register) : Fpu :=
  { fpu with
    status := fpu.status &&& ~~~exceptionMask
    instructionAddress := address
    justReset := false }

/-- Sets exceptions and what accrues from them. -/
def raise (fpu : Fpu) (exceptions : Register) : Fpu :=
  { fpu with status := fpu.status ||| (exceptions &&& exceptionMask) ||| accrue exceptions }

/-- Sets the exceptions that raised flags stand for. -/
def raiseFlags (fpu : Fpu) (flags : Flags) (signalingOperand : Bool) : Fpu :=
  fpu.raise (exceptionsOfFlags flags signalingOperand)

/-- Replaces the condition codes. -/
def setCodes (fpu : Fpu) (codes : Register) : Fpu :=
  { fpu with status := (fpu.status &&& ~~~codeMask) ||| codes }

/-- Replaces the condition codes by those of a value. -/
def setCodesOf (fpu : Fpu) (value : Extended) : Fpu := fpu.setCodes (codesOf value)

/-- Replaces the quotient byte by the low seven bits of a quotient and its sign. -/
def setQuotient (fpu : Fpu) (quotient : BitVec 64) (negative : Bool) : Fpu :=
  let byte : BitVec 8 := BitVec.ofBool negative ++ quotient.extractLsb' 0 7
  { fpu with status := (fpu.status &&& ~~~quotientMask) ||| byte.setWidth 32 <<< 16 }

/-- The truth value of a predicate.  A signalling predicate on unordered operands is an exception; a
reserved predicate has no value. -/
def testCondition (fpu : Fpu) (predicate : Nat) : Option (Bool × Fpu) :=
  (Condition.evaluate predicate fpu.status).map fun truth =>
    (truth, if Condition.signals predicate fpu.status then fpu.raise branchUnordered else fpu)

/-- The value of an operand in memory, for use as the source of an operation. -/
def loadOperand (fpu : Fpu) (format : DataFormat) (image : Image) : Extended × Fpu :=
  let (value, exceptions) := load fpu.environment format image
  (value, fpu.raise exceptions)

/-- The image of a data register in a format. -/
def storeOperand (fpu : Fpu) (format : DataFormat) (register : RegisterNumber) (k : Int) :
    Image × Fpu :=
  let value := fpu.get register
  let result := store fpu.environment format k value
  (result.value.1, (fpu.raiseFlags result.flags value.isSignaling).raise result.value.2)

/-- Ends an operation: raises its flags, writes its result to a register and describes it in the
condition codes. -/
def finish (fpu : Fpu) (signalingOperand : Bool) (result : Raised Extended)
    (register : RegisterNumber) : Fpu :=
  ((fpu.raiseFlags result.flags signalingOperand).setData register result.value).setCodesOf
    result.value

/-- Loads a constant of the chip into a register. -/
def moveConstant (fpu : Fpu) (offset : Nat) (register : RegisterNumber) : Fpu :=
  let constant := Constant.atOffset offset
  let result := Extended.roundToPrecision fpu.environment constant.value
  let fpu := fpu.raiseFlags result.flags false
  let fpu := if constant.isInexact then fpu.raise inexactResult else fpu
  (fpu.setData register result.value).setCodesOf result.value

/-- Changes the sign of a number and rounds it; a NaN keeps its sign. -/
def signOperation (env : Environment) (change : Extended → Extended) (source : Extended) :
    Raised Extended :=
  Extended.roundToPrecision env (if source.isNaN then source else change source)

/-- Multiplies the destination by two to the integer part of the source. -/
def scaleBy (env : Environment) (destination source : Extended) : Raised Extended :=
  if source.isNaN || destination.isNaN then Fp.propagateNaN destination source
  else if source.isInfinity then Fp.invalid extended80
  else Extended.scale env destination (source.toInt 32 .toZero).value

/-- The condition codes of a comparison.  Equal operands count as negative if the destination is
negative infinity or both are negative zeros. -/
def comparisonCodes (destination source : Extended) : Option Ordering → Register
  | none => nanCode
  | some .lt => negativeCode
  | some .gt => 0
  | some .eq =>
    if destination.sign && (destination.isInfinity || destination.isZero && source.sign) then
      zeroCode ||| negativeCode
    else zeroCode

/-- What an operation yields for the register it writes. -/
inductive Outcome where
  /-- A result for the destination register. -/
  | result (value : Raised Extended)
  /-- A result that comes with an integer quotient. -/
  | remainder (value : Raised (Fp.Remainder extended80))
  /-- Two results, the second for another register. -/
  | pair (value other : Raised Extended) (register : RegisterNumber)
  /-- Condition codes only. -/
  | codes (value : Raised Register)

/-- The outcome of an operation on a destination and a source. -/
def outcome (host : HostMath) (env : Environment) (operation : Operation)
    (destination source : Extended) : Outcome :=
  let single := { env with precision := .single }
  match operation with
  | .move => .result (Extended.roundToPrecision env source)
  | .int => .result do Extended.roundToPrecision env (← source.roundToInt env)
  | .intRz => .result do Extended.roundToPrecision env (← source.truncToInt env)
  | .sqrt => .result (source.sqrt env)
  | .abs => .result (signOperation env Fp.abs source)
  | .neg => .result (signOperation env Fp.negate source)
  | .getExp => .result (Extended.getExponent env source)
  | .getMan => .result (Extended.getMantissa env source)
  | .div => .result (destination.div env source)
  | .add => .result (destination.add env source)
  | .mul => .result (destination.mul env source)
  | .sub => .result (destination.sub env source)
  | .sglDiv => .result (destination.div single source)
  | .sglMul => .result (destination.mul single source)
  | .mod => .remainder (destination.remainder env false source)
  | .rem => .remainder (destination.remainder env true source)
  | .scale => .result (scaleBy env destination source)
  | .cmp => .codes do
    return comparisonCodes destination source (← destination.compareQuiet source)
  | .tst => .codes ⟨codesOf source, Flags.when source.isSignaling Flags.invalid⟩
  | .sinCos register =>
    .pair (elementary host env .sin source) (elementary host env .cos source) register
  | .elementary function => .result (elementary host env function source)

/-- Executes an arithmetic command on a source operand and a destination register. -/
def execute (host : HostMath) (fpu : Fpu) (command : Command) (source : Extended)
    (register : RegisterNumber) : Fpu :=
  let env := fpu.environment
  let env := { env with precision := command.precision.getD env.precision }
  let destination := fpu.get register
  let signaling :=
    source.isSignaling || (command.operation.isDyadic && destination.isSignaling)
  match outcome host env command.operation destination source with
  | .result value => fpu.finish signaling value register
  | .remainder value =>
    (fpu.setQuotient value.value.quotient value.value.negative).finish signaling
      ⟨value.value.value, value.flags⟩ register
  | .pair value other second =>
    (fpu.setData second other.value).finish signaling
      ⟨value.value, value.flags ||| other.flags⟩ register
  | .codes value => (fpu.setCodes value.value).raiseFlags value.flags signaling

/-- A reset leaves a unit as new. -/
theorem reset_eq_new (fpu : Fpu) : fpu.reset = new fpu.model := rfl

/-- Raising exceptions never clears a bit of the status register. -/
theorem status_subset_raise (fpu : Fpu) (exceptions : Register) :
    fpu.status &&& (fpu.raise exceptions).status = fpu.status := by
  apply BitVec.eq_of_getLsbD_eq
  intro i hi
  simp only [raise, BitVec.getLsbD_and, BitVec.getLsbD_or]
  cases fpu.status.getLsbD i <;> simp

end Fpu

end M68k
