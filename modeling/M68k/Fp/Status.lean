/-!
# The rounding environment and the exception flags

An operation on binary floating-point numbers reads an *environment* (the direction of rounding,
the moment at which an underflow is judged, the number of significant bits kept in extended
results) and raises *flags*.  Operations return what they raised (`Raised`).  A `Status` is an
environment with the flags raised so far; callers of operations hand it from one to the next.

* `Raised.bind_flags` — flags of consecutive steps are united.
-/

namespace M68k

/-- The direction in which an inexact result is rounded. -/
inductive RoundingMode where
  | nearestEven
  | toZero
  | down
  | up
  deriving DecidableEq, Repr, Inhabited

/-- When a result counts as tiny: judged on the exact value, or on the value rounded to the working
precision with an unbounded exponent. -/
inductive Tininess where
  | beforeRounding
  | afterRounding
  deriving DecidableEq, Repr, Inhabited

/-- The number of significant bits kept in extended results; the exponent range stays extended. -/
inductive Precision where
  | extended
  | double
  | single
  deriving DecidableEq, Repr, Inhabited

namespace RoundingMode

/-- The mode selected by the two low bits of `code`, in the order nearest, zero, down, up. -/
def ofCode (code : Nat) : RoundingMode :=
  match code % 4 with
  | 0 => nearestEven
  | 1 => toZero
  | 2 => down
  | _ => up

/-- The name under which a mode is reported. -/
def name : RoundingMode → String
  | nearestEven => "NearestEven"
  | toZero => "ToZero"
  | down => "Down"
  | up => "Up"

end RoundingMode

namespace Tininess

/-- The name under which the setting is reported. -/
def name : Tininess → String
  | beforeRounding => "BeforeRounding"
  | afterRounding => "AfterRounding"

end Tininess

namespace Precision

/-- The number of significant bits of a precision. -/
def bits : Precision → Nat
  | extended => 64
  | double => 53
  | single => 24

/-- The precision selected by the two low bits of `code`; the undefined code 3 keeps all bits. -/
def ofCode (code : Nat) : Precision :=
  match code % 4 with
  | 1 => single
  | 2 => double
  | _ => extended

/-- The name under which a precision is reported. -/
def name : Precision → String
  | extended => "Extended"
  | double => "Double"
  | single => "Single"

end Precision

/-- A set of exception flags, one bit each. -/
abbrev Flags := BitVec 8

namespace Flags

/-- No flag. -/
def none : Flags := 0#8

/-- The operation has no meaningful result for its operands. -/
def invalid : Flags := 1#8

/-- A finite non-zero number was divided by zero. -/
def divideByZero : Flags := 2#8

/-- The rounded result is too large for the format. -/
def overflow : Flags := 4#8

/-- The result is tiny and inexact. -/
def underflow : Flags := 8#8

/-- The rounded result differs from the exact one. -/
def inexact : Flags := 16#8

/-- Whether every flag of `wanted` is in `flags`. -/
def includes (flags wanted : Flags) : Bool :=
  flags &&& wanted == wanted

/-- The given flag if the condition holds, else no flag. -/
def when (condition : Bool) (flag : Flags) : Flags :=
  if condition then flag else none

end Flags

/-- What an operation reads: rounding direction, tininess rule and precision of extended results. -/
structure Environment where
  rounding : RoundingMode := .nearestEven
  tininess : Tininess := .beforeRounding
  precision : Precision := .extended
  deriving DecidableEq, Repr, Inhabited

/-- A result together with the flags raised on the way to it. -/
structure Raised (α : Type) where
  value : α
  flags : Flags
  deriving DecidableEq, Repr

namespace Raised

variable {α β : Type}

instance : Monad Raised where
  pure a := ⟨a, Flags.none⟩
  bind r k := ⟨(k r.value).value, r.flags ||| (k r.value).flags⟩

/-- Raises flags and returns nothing else. -/
def raise (flags : Flags) : Raised Unit := ⟨(), flags⟩

@[simp] theorem pure_value (a : α) : (pure a : Raised α).value = a := rfl

@[simp] theorem pure_flags (a : α) : (pure a : Raised α).flags = Flags.none := rfl

@[simp] theorem bind_value (r : Raised α) (k : α → Raised β) :
    (r >>= k).value = (k r.value).value := rfl

/-- Flags of consecutive steps are united. -/
@[simp] theorem bind_flags (r : Raised α) (k : α → Raised β) :
    (r >>= k).flags = r.flags ||| (k r.value).flags := rfl

end Raised

/-- An environment with the flags raised so far. -/
structure Status extends Environment where
  flags : Flags := Flags.none
  deriving DecidableEq, Repr, Inhabited

namespace Status

/-- Adds flags to those already raised. -/
def raise (status : Status) (flags : Flags) : Status :=
  { status with flags := status.flags ||| flags }

/-- The flags raised so far, and the status without them. -/
def takeFlags (status : Status) : Flags × Status :=
  (status.flags, { status with flags := Flags.none })

end Status

end M68k
