import M68k.Fp.Format
import M68k.Decimal.Packed

/-!
# The shortest decimal text of a double

A finite double is written with the fewest digits that read back as the same double, the nearest
such number first.  For a digit count the two neighbours of the number on the decimal grid are
tried; the first count with a neighbour inside the rounding interval wins.

* `candidate?_isInside` — a chosen neighbour lies in the rounding interval.
-/

namespace M68k

namespace Decimal

/-- A positive number `units · scaleUp / scaleDown` between the ends of the interval of numbers that
round to it; the ends belong to it if `closed`. -/
structure Interval where
  low : Nat
  units : Nat
  high : Nat
  scaleUp : Nat
  scaleDown : Nat
  closed : Bool
  deriving Repr

namespace Interval

/-- The interval of a finite non-zero double, in quarters of its last place.  Below a power of two
the neighbours are twice as dense. -/
def ofDouble (x : Fp binary64) : Interval :=
  let exponent := x.unitExponent - 2
  { low := 4 * x.coefficient - if x.coefficient = Nat.pow 2 52 then 1 else 2
    units := 4 * x.coefficient
    high := 4 * x.coefficient + 2
    scaleUp := Nat.pow 2 exponent.toNat
    scaleDown := Nat.pow 2 (-exponent).toNat
    closed := x.coefficient % 2 = 0 }

/-- The same interval in units of a power of ten. -/
def inUnitsOf (i : Interval) (power : Int) : Interval :=
  { i with
    scaleUp := i.scaleUp * Nat.pow 10 (-power).toNat
    scaleDown := i.scaleDown * Nat.pow 10 power.toNat }

/-- Whether a whole number lies in the interval. -/
def isInside (i : Interval) (n : Nat) : Bool :=
  let value := n * i.scaleDown
  if i.closed then i.low * i.scaleUp ≤ value && value ≤ i.high * i.scaleUp
  else i.low * i.scaleUp < value && value < i.high * i.scaleUp

/-- The whole number in the interval that is nearest to its centre among the centre's two
neighbours, the greater one at equal distance. -/
def candidate? (i : Interval) : Option Nat :=
  let below := i.units * i.scaleUp / i.scaleDown
  let rest := i.units * i.scaleUp % i.scaleDown
  match i.isInside below, i.isInside (below + 1) with
  | true, true => some (if i.scaleDown ≤ 2 * rest then below + 1 else below)
  | true, false => some below
  | false, true => some (below + 1)
  | false, false => none

/-- A chosen neighbour lies in the interval. -/
theorem candidate?_isInside {i : Interval} {n : Nat} (h : i.candidate? = some n) :
    i.isInside n := by
  unfold candidate? at h
  dsimp only at h
  split at h <;> try simp_all
  split at h <;> simp_all

end Interval

/-- The fewest digits, as a whole number, and the exponent of the last one.  Seventeen digits always
suffice. -/
def shortestFrom (i : Interval) (lead : Int) : (fuel : Nat) → (count : Nat) → Nat × Int
  | 0, count => ((i.inUnitsOf (lead - count)).units, lead - count)
  | fuel + 1, count =>
    match (i.inUnitsOf (lead - count)).candidate? with
    | some n => (n, lead - count)
    | none => shortestFrom i lead fuel (count + 1)

/-- The digits of a number without the zeros at its end, and the exponent of the last digit that is
left. -/
def dropZeros : (fuel : Nat) → Nat → Int → Nat × Int
  | 0, n, exponent => (n, exponent)
  | fuel + 1, n, exponent =>
    if n % 10 = 0 ∧ n ≠ 0 then dropZeros fuel (n / 10) (exponent + 1) else (n, exponent)

/-- The shortest digits of a finite non-zero double, and the exponent of the last one. -/
def shortest (x : Fp binary64) : Nat × Int :=
  let i := Interval.ofDouble x
  let lead := floorLog10 (i.units * i.scaleUp) i.scaleDown (x.lead * 30103 / 100000)
  let (n, exponent) := shortestFrom i lead 17 0
  dropZeros 17 n exponent

/-- The text of digits with a point after the first one, and the exponent of that digit. -/
def scientific (digits : Nat) (exponent : Int) : String :=
  let text := (toString digits).toList
  let point := match text with
    | first :: second :: rest => first :: '.' :: second :: rest
    | short => short
  String.ofList point ++ "e" ++ toString (exponent + text.length - 1)

/-- The text of a double in scientific notation; the exponent has no plus sign and no padding. -/
def textOfDouble (x : Fp binary64) : String :=
  let sign := if x.sign then "-" else ""
  match x.kind with
  | .nan => "NaN"
  | .infinity => sign ++ "inf"
  | .zero => sign ++ "0e0"
  | .finite =>
    let (digits, exponent) := shortest x
    sign ++ scientific digits exponent

end Decimal

end M68k
