import M68k.Decimal.Shortest
import M68k.Text.Hex

/-!
# Values of inspected properties

A property of a machine is a flag, a word of some width, a number or a text.  Words are shown in
hexadecimal at their full width, wide counters and signed numbers in decimal.
-/

namespace M68k

/-- The value of a property. -/
inductive Value where
  | bool (value : Bool)
  | u8 (value : BitVec 8)
  | u16 (value : BitVec 16)
  | u32 (value : BitVec 32)
  | u64 (value : BitVec 64)
  | i32 (value : BitVec 32)
  /-- A double that approximates a floating-point register. -/
  | f64 (value : Fp binary64)
  | string (value : String)
  | array (values : List Value)

namespace Value

/-- The unsigned number that a value is, if it is one; a flag counts as zero or one. -/
def toNat? : Value → Option Nat
  | bool value => some value.toNat
  | u8 value => some value.toNat
  | u16 value => some value.toNat
  | u32 value => some value.toNat
  | u64 value => some value.toNat
  | _ => none

mutual

/-- The text of a value. -/
def text : Value → String
  | bool value => toString value
  | u8 value => Text.prefixedHex 2 value.toNat
  | u16 value => Text.prefixedHex 4 value.toNat
  | u32 value => Text.prefixedHex 8 value.toNat
  | u64 value => toString value.toNat
  | i32 value => toString value.toInt
  | f64 value => Decimal.textOfDouble value
  | string value => value
  | array values => "[" ++ textOfList values ++ "]"

/-- The texts of several values, with commas between them. -/
def textOfList : List Value → String
  | [] => ""
  | [value] => value.text
  | value :: rest => value.text ++ ", " ++ textOfList rest

end

/-- The name of a value's type. -/
def typeName : Value → String
  | bool _ => "bool"
  | u8 _ => "u8"
  | u16 _ => "u16"
  | u32 _ => "u32"
  | u64 _ => "u64"
  | i32 _ => "i32"
  | f64 _ => "f64"
  | string _ => "string"
  | array _ => "array"

end Value

end M68k
