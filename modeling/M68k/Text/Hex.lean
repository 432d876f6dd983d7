/-!
# Hexadecimal text

Numbers as upper-case hexadecimal digits behind `0x`, padded with zeros to a least number of digits.

* `le_length_hexDigits` — the digits are at least as many as asked for.
-/

namespace M68k

namespace Text

/-- The character of a digit below sixteen. -/
def hexDigit (n : Nat) : Char :=
  if n < 10 then Char.ofNat ('0'.toNat + n) else Char.ofNat ('A'.toNat + (n - 10))

/-- The upper-case digits of a number, at least `digits` of them. -/
def hexDigits (digits n : Nat) : List Char :=
  let significant := if n = 0 then 1 else n.log2 / 4 + 1
  (List.range (max digits significant)).reverse.map fun i => hexDigit (n / Nat.pow 16 i % 16)

/-- A number with its digits behind `0x`. -/
def prefixedHex (digits n : Nat) : String := "0x" ++ String.ofList (hexDigits digits n)

/-- The digits are at least as many as asked for. -/
theorem le_length_hexDigits (digits n : Nat) : digits ≤ (hexDigits digits n).length := by
  simp only [hexDigits, List.length_map, List.length_reverse, List.length_range]
  omega

end Text

end M68k
