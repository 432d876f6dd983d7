import M68k.Fp.Status
import M68k.RegisterNumber

/-!
# Arithmetic commands

The low seven bits of a command word, the opmode, select an operation and sometimes a rounding
precision of its own.  Operations that are elementary functions of analysis form a type of their
own, `Elementary`, because they are computed differently.

* `Command.ofOpmode?_of_isSome` — the forms with their own precision extend the others.
-/

namespace M68k

namespace Fpu

/-- The elementary functions. -/
inductive Elementary where
  | sinh
  | logNp1
  | etoxM1
  | tanh
  | atan
  | asin
  | atanh
  | sin
  | tan
  | etox
  | twoToX
  | tenToX
  | logN
  | log10
  | log2
  | cosh
  | acos
  | cos
  deriving DecidableEq, Repr

/-- The operations of the floating-point unit. -/
inductive Operation where
  | move
  | int
  | intRz
  | sqrt
  | abs
  | neg
  | getExp
  | getMan
  | div
  | mod
  | add
  | mul
  | sglDiv
  | rem
  | scale
  | sglMul
  | sub
  | cmp
  | tst
  /-- The sine goes to the destination, the cosine to the given register. -/
  | sinCos (cosine : RegisterNumber)
  | elementary (function : Elementary)
  deriving DecidableEq, Repr

/-- The name under which a function is reported. -/
def Elementary.name : Elementary → String
  | sinh => "Sinh"
  | logNp1 => "LogNp1"
  | etoxM1 => "EtoxM1"
  | tanh => "Tanh"
  | atan => "Atan"
  | asin => "Asin"
  | atanh => "Atanh"
  | sin => "Sin"
  | tan => "Tan"
  | etox => "Etox"
  | twoToX => "TwoToX"
  | tenToX => "TenToX"
  | logN => "LogN"
  | log10 => "Log10"
  | log2 => "Log2"
  | cosh => "Cosh"
  | acos => "Acos"
  | cos => "Cos"

namespace Operation

/-- The name under which an operation is reported. -/
def name : Operation → String
  | move => "Move"
  | int => "Int"
  | intRz => "IntRz"
  | sqrt => "Sqrt"
  | abs => "Abs"
  | neg => "Neg"
  | getExp => "GetExp"
  | getMan => "GetMan"
  | div => "Div"
  | mod => "Mod"
  | add => "Add"
  | mul => "Mul"
  | sglDiv => "SglDiv"
  | rem => "Rem"
  | scale => "Scale"
  | sglMul => "SglMul"
  | sub => "Sub"
  | cmp => "Cmp"
  | tst => "Tst"
  | sinCos cosine => "SinCos(" ++ toString cosine.val ++ ")"
  | elementary function => function.name

/-- Whether the operation reads its destination register as an operand. -/
def isDyadic : Operation → Bool
  | div | mod | add | mul | sglDiv | rem | scale | sglMul | sub | cmp => true
  | _ => false

/-- Whether the operation is a single elementary function. -/
def isElementary : Operation → Bool
  | elementary _ => true
  | _ => false

end Operation

/-- An operation, with a rounding precision of its own in place of the control register's. -/
structure Command where
  operation : Operation
  precision : Option Precision
  deriving DecidableEq, Repr

namespace Command

/-- The operation of an opmode that every unit knows, with the exception of sine and cosine
together. -/
def singleOperation? : Nat → Option Operation
  | 0x00 => some .move
  | 0x01 => some .int
  | 0x02 => some (.elementary .sinh)
  | 0x03 => some .intRz
  | 0x04 => some .sqrt
  | 0x06 => some (.elementary .logNp1)
  | 0x08 => some (.elementary .etoxM1)
  | 0x09 => some (.elementary .tanh)
  | 0x0A => some (.elementary .atan)
  | 0x0C => some (.elementary .asin)
  | 0x0D => some (.elementary .atanh)
  | 0x0E => some (.elementary .sin)
  | 0x0F => some (.elementary .tan)
  | 0x10 => some (.elementary .etox)
  | 0x11 => some (.elementary .twoToX)
  | 0x12 => some (.elementary .tenToX)
  | 0x14 => some (.elementary .logN)
  | 0x15 => some (.elementary .log10)
  | 0x16 => some (.elementary .log2)
  | 0x18 => some .abs
  | 0x19 => some (.elementary .cosh)
  | 0x1A => some .neg
  | 0x1C => some (.elementary .acos)
  | 0x1D => some (.elementary .cos)
  | 0x1E => some .getExp
  | 0x1F => some .getMan
  | 0x20 => some .div
  | 0x21 => some .mod
  | 0x22 => some .add
  | 0x23 => some .mul
  | 0x24 => some .sglDiv
  | 0x25 => some .rem
  | 0x26 => some .scale
  | 0x27 => some .sglMul
  | 0x28 => some .sub
  | 0x38 => some .cmp
  | 0x3A => some .tst
  | _ => none

/-- The operation of an opmode that every unit knows.  Sine and cosine together have eight opmodes,
one for each register that the cosine can go to. -/
def plainOperation? (opmode : Nat) : Option Operation :=
  if opmode / 8 = 6 then some (.sinCos (.ofNat opmode)) else singleOperation? opmode

/-- The command of an opmode that rounds to single or double precision by itself. -/
def roundedCommand? : Nat → Option Command
  | 0x40 => some ⟨.move, some .single⟩
  | 0x41 => some ⟨.sqrt, some .single⟩
  | 0x44 => some ⟨.move, some .double⟩
  | 0x45 => some ⟨.sqrt, some .double⟩
  | 0x58 => some ⟨.abs, some .single⟩
  | 0x5A => some ⟨.neg, some .single⟩
  | 0x5C => some ⟨.abs, some .double⟩
  | 0x5E => some ⟨.neg, some .double⟩
  | 0x60 => some ⟨.div, some .single⟩
  | 0x62 => some ⟨.add, some .single⟩
  | 0x63 => some ⟨.mul, some .single⟩
  | 0x64 => some ⟨.div, some .double⟩
  | 0x66 => some ⟨.add, some .double⟩
  | 0x67 => some ⟨.mul, some .double⟩
  | 0x68 => some ⟨.sub, some .single⟩
  | 0x6C => some ⟨.sub, some .double⟩
  | _ => none

/-- The command of an opmode, of which seven bits count.  Only some units know the forms with a
precision of their own (`roundingForms`). -/
def ofOpmode? (opmode : Nat) (roundingForms : Bool) : Option Command :=
  match plainOperation? (opmode % 128) with
  | some operation => some ⟨operation, none⟩
  | none => if roundingForms then roundedCommand? (opmode % 128) else none

/-- An opmode that is defined without the rounding forms means the same with them. -/
theorem ofOpmode?_of_isSome (opmode : Nat) (h : (ofOpmode? opmode false).isSome) :
    ofOpmode? opmode true = ofOpmode? opmode false := by
  unfold ofOpmode? at h ⊢
  split <;> simp_all

end Command

end Fpu

end M68k
