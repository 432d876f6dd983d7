import M68k.Fpu.State
import M68k.Cpu.StatusRegister
import M68k.Text.Record

/-!
# Models of the family

The five models differ in registers, instructions, width of the address bus and stack frames.  A
table of capabilities says which model has what; decoding and execution ask the table.

* `codeMask_and_statusMask` — every model has the condition codes.
-/

namespace M68k

/-- The models. -/
inductive Model where
  | m68000
  | m68010
  /-- With an external floating-point unit. -/
  | m68020
  /-- With an external floating-point unit. -/
  | m68030
  /-- With its own floating-point unit. -/
  | m68040
  deriving DecidableEq, Repr, Inhabited

/-- Families of exception stack frames. -/
inductive FrameFamily where
  /-- Three words, or seven for bus and address errors. -/
  | f68000
  /-- With a format word; a long frame for bus and address errors. -/
  | f68010
  /-- Frames with the address of the instruction, and another long frame. -/
  | f68020
  /-- As before, with a shorter frame for access errors. -/
  | f68040
  deriving DecidableEq, Repr

/-- The name under which a family is reported. -/
def FrameFamily.name : FrameFamily → String
  | f68000 => "M68000"
  | f68010 => "M68010"
  | f68020 => "M68020"
  | f68040 => "M68040"

/-- What a model has. -/
structure Capabilities where
  /-- A base register for the vector table. -/
  vbr : Bool
  /-- Moves to control registers and to other address spaces. -/
  movec : Bool
  /-- A cache control register. -/
  cacr : Bool
  /-- A cache address register. -/
  caar : Bool
  /-- The master stack pointer and the flag that selects it. -/
  masterState : Bool
  /-- The full format of indexed addressing, and scaled index registers. -/
  extendedAddressing : Bool
  /-- An address bus of 32 bits instead of 24. -/
  addressBus32 : Bool
  /-- Words and long words at odd addresses. -/
  misalignedData : Bool
  bitfield : Bool
  /-- Long multiplication and division, and other long forms. -/
  longMuldiv : Bool
  /-- Compare and swap. -/
  cas : Bool
  /-- Comparison with two bounds. -/
  chk2 : Bool
  pack : Bool
  /-- Line moves and cache control. -/
  move16 : Bool
  /-- Trace on a change of flow. -/
  traceFlow : Bool
  fpu : Option Fpu.Model
  frames : FrameFamily
  deriving DecidableEq, Repr

/-- The text under which capabilities are reported. -/
def Capabilities.text (caps : Capabilities) : String :=
  let flag (name : String) (present : Bool) := (name, toString present)
  Text.record "CpuCapabilities"
    [flag "vbr" caps.vbr, flag "movec" caps.movec, flag "cacr" caps.cacr, flag "caar" caps.caar,
      flag "master_state" caps.masterState, flag "extended_addressing" caps.extendedAddressing,
      flag "address_bus_32" caps.addressBus32, flag "misaligned_data" caps.misalignedData,
      flag "bitfield" caps.bitfield, flag "long_muldiv" caps.longMuldiv, flag "cas" caps.cas,
      flag "chk2" caps.chk2, flag "pack" caps.pack, flag "move16" caps.move16,
      flag "trace_flow" caps.traceFlow, ("fpu", Text.optional Fpu.Model.name caps.fpu),
      ("frames", caps.frames.name)]

namespace Model

/-- The table of the first models. -/
def early (frames : FrameFamily) (control : Bool) : Capabilities where
  vbr := control
  movec := control
  cacr := false
  caar := false
  masterState := false
  extendedAddressing := false
  addressBus32 := false
  misalignedData := false
  bitfield := false
  longMuldiv := false
  cas := false
  chk2 := false
  pack := false
  move16 := false
  traceFlow := false
  fpu := none
  frames

/-- The table of the later models. -/
def late (frames : FrameFamily) (fpu : Fpu.Model) (caar move16 : Bool) : Capabilities where
  vbr := true
  movec := true
  cacr := true
  caar
  masterState := true
  extendedAddressing := true
  addressBus32 := true
  misalignedData := true
  bitfield := true
  longMuldiv := true
  cas := true
  chk2 := true
  pack := true
  move16
  traceFlow := true
  fpu := some fpu
  frames

/-- What each model has. -/
def capabilities : Model → Capabilities
  | m68000 => early .f68000 false
  | m68010 => early .f68010 true
  | m68020 => late .f68020 .mc68881 true false
  | m68030 => late .f68020 .mc68882 true false
  | m68040 => late .f68040 .mc68040 false true

/-- The address lines of the bus. -/
def addressMask (model : Model) : BitVec 32 :=
  if model.capabilities.addressBus32 then 0xFFFFFFFF#32 else 0x00FFFFFF#32

/-- The bits that the status register has. -/
def statusMask (model : Model) : StatusRegister :=
  if model.capabilities.masterState then 0xF71F#16 else 0xA71F#16

/-- The bits that the cache control register has. -/
def cacheControlMask : Model → BitVec 32
  | m68000 | m68010 => 0
  | m68020 => 0x0000000F#32
  | m68030 => 0x00003F1F#32
  | m68040 => 0x80008000#32

/-- Whether the model is timed like the first one. -/
def isEarly : Model → Bool
  | m68000 | m68010 => true
  | _ => false

/-- The number on the package. -/
def name : Model → String
  | m68000 => "68000"
  | m68010 => "68010"
  | m68020 => "68020"
  | m68030 => "68030"
  | m68040 => "68040"

/-- Every model has the condition codes. -/
theorem codeMask_and_statusMask (model : Model) :
    StatusRegister.codeMask &&& model.statusMask = StatusRegister.codeMask := by
  cases model <;> rfl

end Model

end M68k
