import M68k.Cpu.State
import M68k.Value

/-!
# Inspection

Registers can be read and written by name, and the state of the processor can be asked for by the
path of a property.

* `query_of_mem` — the path of a property leads to it;
* `snapshot_subset` — what a snapshot lists is what queries answer.
-/

namespace M68k

/-- A register of the processor. -/
inductive RegisterName where
  | data (n : RegisterNumber)
  | address (n : RegisterNumber)
  | pc
  | ppc
  | sr
  | usp
  | isp
  | msp
  /-- The stack pointer in use. -/
  | sp
  | vbr
  | sfc
  | dfc
  | cacr
  | caar
  /-- The opcode of the current instruction. -/
  | ir
  deriving DecidableEq, Repr

namespace RegisterName

/-- The registers that have no number. -/
def named : List (String × RegisterName) :=
  [("pc", pc), ("ppc", ppc), ("sr", sr), ("usp", usp), ("isp", isp), ("msp", msp), ("sp", sp),
    ("vbr", vbr), ("sfc", sfc), ("dfc", dfc), ("cacr", cacr), ("caar", caar), ("ir", ir)]

/-- The names of eight numbered registers. -/
def numbered (stem : String) (register : RegisterNumber → RegisterName) :
    List (String × RegisterName) :=
  (List.finRange 8).map fun n => (stem ++ toString n.val, register n)

/-- All registers with their names. -/
def all : List (String × RegisterName) := numbered "d" data ++ numbered "a" address ++ named

/-- The register of a name. -/
def ofName? (name : String) : Option RegisterName := all.lookup name

end RegisterName

namespace Cpu

/-- The contents of a register. -/
def register (c : Cpu) : RegisterName → BitVec 32
  | .data n => c.registers.data n
  | .address n => c.registers.address n
  | .pc => c.registers.pc
  | .ppc => c.registers.ppc
  | .sr => c.registers.sr.setWidth 32
  | .usp => c.registers.usp
  | .isp => c.registers.isp
  | .msp => c.registers.msp
  | .sp => c.registers.sp
  | .vbr => c.registers.vbr
  | .sfc => c.registers.sfc.setWidth 32
  | .dfc => c.registers.dfc.setWidth 32
  | .cacr => c.registers.cacr
  | .caar => c.registers.caar
  | .ir => c.opcode.setWidth 32

/-- Writes a register; bits that it lacks stay clear. -/
def setRegister (c : Cpu) (name : RegisterName) (value : BitVec 32) : Cpu :=
  let r := c.registers
  match name with
  | .data n => { c with registers := r.setData n value }
  | .address n => { c with registers := r.setAddress n value }
  | .pc => c.setPc value
  | .ppc => { c with registers := { r with ppc := value } }
  | .sr => c.setStatus (value.setWidth 16)
  | .usp => { c with registers := { r with usp := value } }
  | .isp => { c with registers := { r with isp := value } }
  | .msp => { c with registers := { r with msp := value } }
  | .sp => { c with registers := r.setSp value }
  | .vbr => { c with registers := { r with vbr := value } }
  | .sfc => { c with registers := { r with sfc := value.setWidth 3 } }
  | .dfc => { c with registers := { r with dfc := value.setWidth 3 } }
  | .cacr => { c with registers := { r with cacr := value &&& c.model.cacheControlMask } }
  | .caar => { c with registers := { r with caar := value } }
  | .ir => { c with opcode := value.setWidth 16 }

end Cpu

/-- A property of the processor. -/
inductive Property where
  | register (name : RegisterName)
  /-- The condition codes. -/
  | codes
  | flag (flag : Flag)
  | interruptMask
  | runState
  | model
  /-- Cycles since the processor was made. -/
  | elapsed
  | unitData (n : RegisterNumber)
  | unitControl
  | unitStatus
  | unitAddress
  deriving DecidableEq, Repr

namespace Property

/-- The value of a register at its own width. -/
def registerValue (c : Cpu) (name : RegisterName) : Value :=
  match name with
  | .sr | .ir => .u16 ((c.register name).setWidth 16)
  | .sfc | .dfc => .u8 ((c.register name).setWidth 8)
  | _ => .u32 (c.register name)

/-- The value of a property; those of the floating-point unit need one. -/
def value? (c : Cpu) : Property → Option Value
  | register name => some (registerValue c name)
  | codes => some (.u8 c.registers.sr.codes)
  | flag f => some (.bool (c.registers.sr.has f))
  | interruptMask => some (.u8 (c.registers.sr.interruptMask.setWidth 8))
  | runState => some (.string c.runState.name)
  | model => some (.string c.model.name)
  | elapsed => some (.u64 c.elapsed.count)
  | unitData n => c.fpu.map fun fpu => .f64 (fpu.get n).toDouble
  | unitControl => c.fpu.map fun fpu => .u32 fpu.control
  | unitStatus => c.fpu.map fun fpu => .u32 fpu.status
  | unitAddress => c.fpu.map fun fpu => .u32 fpu.instructionAddress

/-- A path that numbers its last part. -/
def numbered (stem : String) (property : RegisterNumber → Property) : List (String × Property) :=
  (List.finRange 8).map fun n => (stem ++ toString n.val, property n)

/-- The properties with their paths. -/
def all : List (String × Property) :=
  numbered "d" (fun n => register (.data n)) ++ numbered "a" (fun n => register (.address n))
    ++ [("pc", register .pc), ("ppc", register .ppc), ("sr", register .sr), ("ccr", codes),
      ("usp", register .usp), ("isp", register .isp), ("msp", register .msp),
      ("vbr", register .vbr), ("sfc", register .sfc), ("dfc", register .dfc),
      ("cacr", register .cacr), ("caar", register .caar), ("ir", register .ir),
      ("flags.x", flag .x), ("flags.n", flag .n), ("flags.z", flag .z), ("flags.v", flag .v),
      ("flags.c", flag .c), ("flags.s", flag .s), ("flags.m", flag .m), ("flags.t0", flag .t0),
      ("flags.t1", flag .t1), ("flags.ipl", interruptMask), ("state", runState), ("model", model),
      ("cycles", elapsed)]
    ++ numbered "fpu.fp" unitData
    ++ [("fpu.fpcr", unitControl), ("fpu.fpsr", unitStatus), ("fpu.fpiar", unitAddress)]

/-- A decimal number below eight, with any number of zeros in front. -/
def smallNumber? (digits : List Char) : Option RegisterNumber :=
  match digits.dropWhile (· == '0') with
  | [] => if digits.isEmpty then none else some (.ofNat 0)
  | [c] => if '1' ≤ c ∧ c ≤ '7' then some (.ofNat (c.toNat - '0'.toNat)) else none
  | _ => none

/-- A data register of the floating-point unit whose number is written with a plus sign or with
leading zeros. -/
def looseUnitData? (path : String) : Option Property :=
  match path.toList with
  | 'f' :: 'p' :: 'u' :: '.' :: 'f' :: 'p' :: '+' :: digits
  | 'f' :: 'p' :: 'u' :: '.' :: 'f' :: 'p' :: digits => (smallNumber? digits).map unitData
  | _ => none

/-- The property of a path. -/
def ofPath? (path : String) : Option Property :=
  (all.lookup path).or (looseUnitData? path)

theorem ofPath?_of_mem : ∀ entry ∈ all, ofPath? entry.1 = some entry.2 := by
  decide +kernel

end Property

namespace Cpu

/-- The value of the property with a path. -/
def query (c : Cpu) (path : String) : Option Value :=
  (Property.ofPath? path).bind fun property => property.value? c

/-- All properties that have a value, with their paths. -/
def snapshot (c : Cpu) : List (String × Value) :=
  Property.all.filterMap fun (path, property) =>
    (property.value? c).map fun value => (path, value)

/-- The path of a property leads to it. -/
theorem query_of_mem (c : Cpu) {path : String} {property : Property}
    (h : (path, property) ∈ Property.all) : c.query path = property.value? c := by
  simp [query, Property.ofPath?_of_mem _ h]

/-- What a snapshot lists is what queries answer. -/
theorem snapshot_subset (c : Cpu) {path : String} {value : Value}
    (h : (path, value) ∈ c.snapshot) : c.query path = some value := by
  obtain ⟨⟨path, property⟩, hmem, hvalue⟩ := List.mem_filterMap.mp h
  obtain ⟨v, hv, heq⟩ := Option.map_eq_some_iff.mp hvalue
  obtain ⟨rfl, rfl⟩ := Prod.mk.inj heq
  rw [query_of_mem c hmem, hv]

end Cpu

end M68k
