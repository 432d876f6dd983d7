import M68k.Fpu.Operation
import M68k.Fp.Extended

/-!
# Elementary functions

An elementary function takes a double-precision approximation of its operand through the functions
of the host machine and comes back.  The unit itself answers NaNs, arguments outside the domain and
poles, and decides which exceptions a result raises; everything else about the host is a parameter
(`HostMath`), so statements can quantify over it.

* `elementary_of_isNaN` — a NaN operand is propagated whatever the host computes.
-/

namespace M68k

namespace Fpu

/-- How the host machine computes the elementary functions on doubles. -/
abbrev HostMath := Elementary → Fp binary64 → Fp binary64

namespace HostMath

/-- The exponential function less one.  Next to zero the first terms of its series are enough;
elsewhere below one the rounding error of the exponential is divided out. -/
def expm1 (x : Float) : Float :=
  let u := x.exp
  if x == 0 then x
  else if x.abs < 1e-6 then x + x * x * (0.5 + x / 6)
  else if x.abs < 1 then (u - 1) * x / u.log
  else u - 1

/-- The logarithm of one more than the argument.  Next to zero the first terms of its series are
enough; elsewhere the rounding error of the sum is divided out, as long as there is one. -/
def log1p (x : Float) : Float :=
  let u := 1 + x
  if x.abs < 1e-6 then x - x * x * (0.5 - x / 3)
  else if x > 1e15 then x.log
  else u.log * (x / (u - 1))

/-- The inverse hyperbolic tangent, as half the logarithm of `(1 + x) / (1 - x)`, which is one more
than `2 * x / (1 - x)`.  That quotient is rounded, so just above minus one only a few bits of the
logarithm's argument are left. -/
def atanh (x : Float) : Float := 0.5 * log1p (2 * x / (1 - x))

/-- The functions of this machine. -/
def native : HostMath := fun function argument =>
  let x := Float.ofBits argument.toBits.toNat.toUInt64
  let y := match function with
    | .sinh => x.sinh
    | .logNp1 => log1p x
    | .etoxM1 => expm1 x
    | .tanh => x.tanh
    | .atan => x.atan
    | .asin => x.asin
    | .atanh => atanh x
    | .sin => x.sin
    | .tan => x.tan
    | .etox => x.exp
    | .twoToX => x.exp2
    | .tenToX => Float.pow 10 x
    | .logN => x.log
    | .log10 => x.log10
    | .log2 => x.log2
    | .cosh => x.cosh
    | .acos => x.acos
    | .cos => x.cos
  Fp.ofBits binary64 (BitVec.ofNat 64 y.toBits.toNat)

end HostMath

/-- The double one. -/
def doubleOne : Fp binary64 := Fp.ofFields binary64 false 0x3FF 0

/-- Whether the argument lies outside the domain of the function. -/
def isOutsideDomain (function : Elementary) (x : Fp binary64) : Bool :=
  match function with
  | .sin | .cos | .tan => x.isInfinity
  | .asin | .acos | .atanh => x.abs.order doubleOne == .gt
  | .logN | .log10 | .log2 => x.order (Fp.zero binary64 false) == .lt
  | .logNp1 => x.order doubleOne.negate == .lt
  | _ => false

/-- Whether the function has a pole at the argument.  A logarithm has its pole at zero, and a number
too small for a double is not zero. -/
def isPole (function : Elementary) (source : Extended) (x : Fp binary64) : Bool :=
  match function with
  | .logN | .log10 | .log2 => source.isZero
  | .logNp1 => x.order doubleOne.negate == .eq
  | .atanh => x.abs.order doubleOne == .eq
  | _ => false

/-- Whether a finite double is an integer. -/
def isIntegral (x : Fp binary64) : Bool :=
  match x.kind with
  | .zero => true
  | .finite => (x.magnitude.split 0).2 == .zero
  | _ => false

/-- The flags of a result `y` for the argument `x`, before rounding to the precision in force.  An
integral result for an integral argument counts as exact. -/
def elementaryFlags (x y : Fp binary64) : Flags :=
  if y.isInfinity && !x.isInfinity then Flags.overflow ||| Flags.inexact
  else if x.isZero || x.isInfinity || (isIntegral x && isIntegral y) then Flags.none
  else Flags.inexact

/-- The value of an elementary function. -/
def elementary (host : HostMath) (env : Environment) (function : Elementary) (source : Extended) :
    Raised Extended :=
  if source.isNaN then Fp.propagateNaN source source
  else
    let x := Extended.toDouble source
    if isOutsideDomain function x then Fp.invalid extended80
    else if isPole function source x then
      ⟨Fp.infinity extended80 (function ≠ .atanh || x.sign), Flags.divideByZero⟩
    else
      let y := host function x
      if y.isNaN then Fp.invalid extended80
      else do
        Raised.raise (elementaryFlags x y)
        Extended.roundToPrecision env (Extended.ofDouble y)

/-- A NaN operand is propagated whatever the host computes. -/
theorem elementary_of_isNaN (host : HostMath) (env : Environment) (function : Elementary)
    {source : Extended} (h : source.isNaN) :
    elementary host env function source = Fp.propagateNaN source source := by
  simp [elementary, h]

end Fpu

end M68k
