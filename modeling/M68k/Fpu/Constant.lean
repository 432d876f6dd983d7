import M68k.Fp.Extended

/-!
# Constants on the chip

A read-only table of constants of analysis and powers of ten, addressed by a seven-bit offset.
Offsets without an entry read as zero.
-/

namespace M68k

namespace Fpu

/-- A constant, and whether it is rounded. -/
structure Constant where
  value : Extended
  isInexact : Bool
  deriving DecidableEq, Repr

namespace Constant

private def rounded (exponent significand : Nat) : Constant :=
  ⟨Fp.ofFields extended80 false exponent significand, true⟩

private def exact (exponent significand : Nat) : Constant :=
  ⟨Fp.ofFields extended80 false exponent significand, false⟩

/-- The constant at an offset. -/
def atOffset (offset : Nat) : Constant :=
  match offset with
  -- π, log₁₀ 2, e, log₂ e, log₁₀ e
  | 0x00 => rounded 0x4000 0xC90FDAA22168C235
  | 0x0B => rounded 0x3FFD 0x9A209A84FBCFF798
  | 0x0C => rounded 0x4000 0xADF85458A2BB4A9A
  | 0x0D => rounded 0x3FFF 0xB8AA3B295C17F0BC
  | 0x0E => rounded 0x3FFD 0xDE5BD8A937287195
  -- ln 2, ln 10
  | 0x30 => rounded 0x3FFE 0xB17217F7D1CF79AC
  | 0x31 => rounded 0x4000 0x935D8DDDAAA8AC17
  -- 10 ^ 0, 10 ^ 1, 10 ^ 2, 10 ^ 4 and so on up to 10 ^ 4096
  | 0x32 => exact 0x3FFF 0x8000000000000000
  | 0x33 => exact 0x4002 0xA000000000000000
  | 0x34 => exact 0x4005 0xC800000000000000
  | 0x35 => exact 0x400C 0x9C40000000000000
  | 0x36 => exact 0x4019 0xBEBC200000000000
  | 0x37 => exact 0x4034 0x8E1BC9BF04000000
  | 0x38 => rounded 0x4069 0x9DC5ADA82B70B59E
  | 0x39 => rounded 0x40D3 0xC2781F49FFCFA6D5
  | 0x3A => rounded 0x41A8 0x93BA47C980E98CE0
  | 0x3B => rounded 0x4351 0xAA7EEBFB9DF9DE8E
  | 0x3C => rounded 0x46A3 0xE319A0AEA60E91C7
  | 0x3D => rounded 0x4D48 0xC976758681750C17
  | 0x3E => rounded 0x5A92 0x9E8B3B5DC53D5DE5
  | 0x3F => rounded 0x7525 0xC46052028A20979B
  | _ => exact 0 0

end Constant

end Fpu

end M68k
