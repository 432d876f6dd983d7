import M68k.Decimal.Packed

/-!
# Operand formats in memory

Operands are integers of three sizes, numbers of three binary formats, or packed decimal numbers.
Loading gives an extended number; storing rounds one to the format.

* `load_extended` — the extended format is taken as it is.
-/

namespace M68k

namespace Fpu

/-- The format of an operand in memory. -/
inductive DataFormat where
  | long
  | single
  | extended
  | packed
  | word
  | double
  | byte
  /-- Packed decimal with the k-factor in a data register. -/
  | packedDynamic
  deriving DecidableEq, Repr

namespace DataFormat

/-- The format of a three-bit code. -/
def ofCode (code : Nat) : DataFormat :=
  match code % 8 with
  | 0 => long
  | 1 => single
  | 2 => extended
  | 3 => packed
  | 4 => word
  | 5 => double
  | 6 => byte
  | _ => packedDynamic

/-- The name under which a format is reported. -/
def name : DataFormat → String
  | long => "Long"
  | single => "Single"
  | extended => "Extended"
  | packed => "Packed"
  | word => "Word"
  | double => "Double"
  | byte => "Byte"
  | packedDynamic => "PackedDynamic"

/-- Bytes in memory. -/
def size : DataFormat → Nat
  | byte => 1
  | word => 2
  | long | single => 4
  | double => 8
  | extended | packed | packedDynamic => 12

/-- Whether an operand of the format can be in a data register. -/
def fitsDataRegister : DataFormat → Bool
  | byte | word | long | single => true
  | _ => false

/-- Whether the format is an integer. -/
def isInteger : DataFormat → Bool
  | byte | word | long => true
  | _ => false

end DataFormat

/-- A NaN of a narrower format with its payload kept, so that a signalling one still signals; every
other encoding is converted exactly. -/
def widen {f : Format} (env : Environment) (x : Fp f) : Extended :=
  if x.isNaN then
    Fp.ofFields extended80 x.sign 0x7FFF
      (Nat.pow 2 63 + x.fraction <<< (extended80.fractionBits - f.fractionBits))
  else (x.convert extended80 env).value

/-- The extended number in an image; half of the first word has no meaning. -/
def unpack (image : Image) : Extended :=
  Extended.ofParts (image.first.extractLsb' 16 16) (image.second ++ image.third)

/-- The image of an extended number. -/
def pack (value : Extended) : Image :=
  ⟨Extended.high value ++ 0#16, value.significand.extractLsb' 32 32,
    value.significand.extractLsb' 0 32⟩

/-- The value of an operand, and the exceptions of its conversion, which only decimal operands
have. -/
def load (env : Environment) (format : DataFormat) (image : Image) : Extended × Register :=
  let integer (n : Int) : Extended × Register := ((Fp.ofInt extended80 env n).value, 0)
  match format with
  | .byte => integer (image.first.extractLsb' 0 8).toInt
  | .word => integer (image.first.extractLsb' 0 16).toInt
  | .long => integer image.first.toInt
  | .single => (widen env (Fp.ofBits binary32 image.first), 0)
  | .double => (widen env (Fp.ofBits binary64 image.leading), 0)
  | .extended => (unpack image, 0)
  | .packed | .packedDynamic => Decimal.decode env image

/-- The image of a number in a format, the flags of the conversion, and exceptions that flags cannot
express: an integer that does not fit is an operand error even for a signalling NaN. -/
def store (env : Environment) (format : DataFormat) (k : Int) (value : Extended) :
    Raised (Image × Register) :=
  let integer (width : Nat) : Raised (Image × Register) :=
    let result := value.toInt width env.rounding
    let image : Image := ⟨(BitVec.ofInt width result.value).setWidth 32, 0, 0⟩
    ⟨(image, if result.flags.includes Flags.invalid then operandError else 0), result.flags⟩
  match format with
  | .byte => integer 8
  | .word => integer 16
  | .long => integer 32
  | .single => do return (⟨(← value.convert binary32 env).toBits, 0, 0⟩, 0)
  | .double => do return (.ofQuad (← value.convert binary64 env).toBits, 0)
  | .extended => pure (pack value, 0)
  | .packed | .packedDynamic => pure (Decimal.encode env.rounding k value)

/-- Loading an extended operand depends on no environment and raises nothing. -/
theorem load_extended (env : Environment) (image : Image) :
    load env .extended image = (unpack image, 0) := rfl

end Fpu

end M68k
