import M68k.Proofs.Cpu.GeneralRegisters
import M68k.Proofs.Cpu.MemoryBits
import M68k.Proofs.Cpu.OperandAccess
import M68k.Proofs.Cpu.ProductQuotient

/-!
# Bit-field operations

A bit-field operation reads a field from a register, around which it may go, or from anywhere in
memory.  It describes the field in the condition codes, and either puts what it makes of the field
into a register or replaces the field.  Whatever the operation and whatever holds the field, nothing
else changes.

* `useField_apply` — what is done with a field, wherever it was found;
* `FieldDone.of_unmodified`, `FieldDone.of_replaced` — the two ways to end;
* `bit_fields_exact` — all operations, on registers and on memory.
-/

namespace M68k

/-- What holds a bit field: a data register, or memory from an address on. -/
inductive FieldHolder where
  | register (number : RegisterNumber)
  | memory (base : BitVec 32)

namespace FieldHolder

/-- The bits of what holds the field. -/
def bits (rs : Registers) (bytes : Bytes) : FieldHolder → ℤ → Bool
  | register n => BitField.registerBits (rs.data n)
  | memory base => bytes.bits base

/-- After so many bits they go on with the first one. -/
def period : FieldHolder → ℕ
  | register _ => 32
  | memory _ => 34359738368

theorem le_period (holder : FieldHolder) : 32 ≤ holder.period := by
  cases holder with
  | register n => exact le_rfl
  | memory base => exact (by decide : 32 ≤ 34359738368)

/-- Registers and memory have not changed but for what holds the field. -/
def SameBut (rs : Registers) (bytes : Bytes) (rs' : Registers) (bytes' : Bytes) :
    FieldHolder → Prop
  | register n => rs' = rs.setData n (rs'.data n) ∧ bytes' = bytes
  | memory _ => rs' = rs

end FieldHolder

/-- The registers with the program counter and the status register of others. -/
def Registers.withContext (rs context : Registers) : Registers :=
  { rs with pc := context.pc, sr := context.sr }

/-- The registers when an operation has put its result into one of them, if it has a result. -/
def BitFieldOp.yield {w : ℕ} (op : BitFieldOp) (r : RegisterNumber) (offset : BitVec 32)
    (field : BitVec w) (rs : Registers) : Registers :=
  match op.yielded offset field with
  | some value => rs.setData r value
  | none => rs

namespace Machine

variable {β : Type} [RamBus β]

/-- The bits of what holds a field. -/
def fieldBits (m : Machine β) (holder : FieldHolder) : ℤ → Bool :=
  holder.bits m.cpu.registers (RamBus.bytes m.bus)

/-- The field at a place. -/
def field (m : Machine β) (holder : FieldHolder) (place : Execution.FieldPlace) :
    BitVec place.width :=
  BitField.fieldAt (m.fieldBits holder) place.offset.toInt place.width

/-- The low bits of a register, as many as a field has. -/
def fieldSource (m : Machine β) (r : RegisterNumber) (place : Execution.FieldPlace) :
    BitVec place.width :=
  (m.cpu.registers.data r).setWidth place.width

end Machine

namespace Execution

open MachineM

/-- The offset in an extension word: bits 10 to 6, or if bit 11 is set the data register whose
number is in bits 8 to 6. -/
inductive OffsetIn (extension : BitVec 16) (rs : Registers) : BitVec 32 → Prop
  | fixed (here : extension.getLsbD 11 = false) :
      OffsetIn extension rs ((extension.extractLsb' 6 5).setWidth 32)
  | register (n : RegisterNumber) (there : extension.getLsbD 11 = true)
      (number : n.val = (extension.extractLsb' 6 3).toNat) : OffsetIn extension rs (rs.data n)

/-- Five bits for a width, among which those of zero stand for thirty-two. -/
def widthOf (bits : BitVec 5) : ℕ := if bits = 0 then 32 else bits.toNat

/-- The width in an extension word: bits 4 to 0, or if bit 5 is set those of the data register whose
number is in bits 2 to 0. -/
inductive WidthIn (extension : BitVec 16) (rs : Registers) : ℕ → Prop
  | fixed (here : extension.getLsbD 5 = false) :
      WidthIn extension rs (widthOf (extension.extractLsb' 0 5))
  | register (n : RegisterNumber) (there : extension.getLsbD 5 = true)
      (number : n.val = (extension.extractLsb' 0 3).toNat) :
      WidthIn extension rs (widthOf ((rs.data n).extractLsb' 0 5))

/-- An extension word names a register in bits 14 to 12, and gives the place of a field. -/
structure FieldSpelled (extension : BitVec 16) (rs : Registers) (r : RegisterNumber)
    (place : FieldPlace) : Prop where
  number : r.val = (extension.extractLsb' 12 3).toNat
  offset : OffsetIn extension rs place.offset
  width : WidthIn extension rs place.width

section Place

variable {extension : BitVec 16} {rs : Registers}

theorem widthOf_extractLsb' {w : ℕ} (word : BitVec w) :
    (if word.toNat % 32 = 0 then 32 else word.toNat % 32) = widthOf (word.extractLsb' 0 5) := by
  have bits : (word.extractLsb' 0 5).toNat = word.toNat % 32 := BitVec.extractLsb'_toNat 0 5 word
  simp only [widthOf, ← BitVec.toNat_inj, bits]
  rfl

theorem OffsetIn.eq {offset : BitVec 32} (offsets : OffsetIn extension rs offset) :
    (FieldPlace.ofExtension rs extension).offset = offset := by
  unfold FieldPlace.ofExtension
  cases offsets with
  | fixed here =>
    rw [here]
    rfl
  | register n there number =>
    rw [there, ← RegisterNumber.ofField_eq number]
    rfl

theorem WidthIn.eq {width : ℕ} (widths : WidthIn extension rs width) :
    (FieldPlace.ofExtension rs extension).width = width := by
  unfold FieldPlace.ofExtension
  cases widths with
  | fixed here =>
    rw [← widthOf_extractLsb', here]
    rfl
  | register n there number =>
    rw [← widthOf_extractLsb', ← RegisterNumber.ofField_eq number, there]
    rfl

theorem FieldSpelled.place_eq {r : RegisterNumber} {place : FieldPlace}
    (spelled : FieldSpelled extension rs r place) : FieldPlace.ofExtension rs extension = place :=
  congrArg₂ FieldPlace.mk spelled.offset.eq spelled.width.eq

/-- A field has at least one bit and at most thirty-two. -/
theorem WidthIn.bounds {width : ℕ} (widths : WidthIn extension rs width) :
    1 ≤ width ∧ width ≤ 32 := by
  have bound (bits : BitVec 5) : 1 ≤ widthOf bits ∧ widthOf bits ≤ 32 := by
    revert bits
    decide
  cases widths with
  | fixed here => exact bound _
  | register n there number => exact bound _

end Place

variable {β : Type} [RamBus β]

/-- A bit-field operation has been done. -/
structure FieldDone (op : BitFieldOp) (r : RegisterNumber) (place : FieldPlace)
    (holder : FieldHolder) (m : Machine β) (result : Except Fault Unit × Machine β) : Prop where
  ok : result.1 = .ok ()
  cpu : result.2.cpu = { m.cpu with
    registers := result.2.cpu.registers
    prefetched := result.2.cpu.prefetched
    cycles := result.2.cpu.cycles }
  codes : m.cpu.registers.sr.Describes (op.described (m.field holder place) (m.fieldSource r place))
    False result.2.cpu.registers.sr
  system : result.2.cpu.registers.sr &&& ~~~StatusRegister.codeMask =
    m.cpu.registers.sr &&& ~~~StatusRegister.codeMask
  /-- What leaves the field as it is changes one register at most. -/
  reads : op.modifies = false →
    result.2.cpu.registers.withContext m.cpu.registers =
      op.yield r place.offset (m.field holder place) m.cpu.registers ∧
    RamBus.bytes result.2.bus = RamBus.bytes m.bus
  /-- What modifies the field changes nothing else. -/
  writes : ∀ new ∈ op.renewed (m.field holder place) (m.fieldSource r place),
    result.2.field holder place = new ∧
    (∀ k, (∀ i < place.width, ¬(holder.period : ℤ) ∣ k - (place.offset.toInt + i)) →
      result.2.fieldBits holder k = m.fieldBits holder k) ∧
    holder.SameBut m.cpu.registers (RamBus.bytes m.bus)
      (result.2.cpu.registers.withContext m.cpu.registers) (RamBus.bytes result.2.bus)

/-- A bit-field instruction whose operand exists: a register, or an address in a control mode. -/
inductive FieldRun (op : BitFieldOp) (m : Machine β) (r : RegisterNumber) (place : FieldPlace) :
    FieldHolder → Except Fault Unit × Machine β → Prop where
  | register {extension : BitVec 16} {m₁ : Machine β} (n : RegisterNumber)
      (fetches : fetch m = (.ok extension, m₁))
      (spelled : FieldSpelled extension m.cpu.registers r place) :
      FieldRun op m r place (.register n) (bitField op (.dataReg n) m)
  | memory {mode : AddressMode} {extension : BitVec 16} {base : BitVec 32} {m₁ m₂ : Machine β}
      (control : mode.isControl = true) (fetches : fetch m = (.ok extension, m₁))
      (finds : controlAddress mode m₁ = (.ok base, m₂))
      (spelled : FieldSpelled extension m.cpu.registers r place) :
      FieldRun op m r place (.memory base) (bitField op mode m)

/-! ## What is done with a field -/

/-- The codes that describe a field. -/
def fieldCodes {w : ℕ} (field : BitVec w) (sr : StatusRegister) : StatusRegister :=
  (((sr.set .n field.msb).set .z (field == 0)).set .v false).set .c false

theorem fieldCodes_describes {w : ℕ} (field : BitVec w) (sr : StatusRegister) :
    sr.Describes field False (fieldCodes field sr) ∧
      fieldCodes field sr &&& ~~~StatusRegister.codeMask = sr &&& ~~~StatusRegister.codeMask := by
  refine ⟨?_, ?_⟩
  · constructor <;> simp [fieldCodes, StatusRegister.has_set_of_ne]
  · unfold fieldCodes
    repeat rw [Alu.set_system _ (by decide)]

/-- What is done with a field, wherever it was found. -/
theorem useField_apply {β : Type} (op : BitFieldOp) (r : RegisterNumber) {place : FieldPlace}
    (hw : 1 ≤ place.width) (hw' : place.width ≤ 32) (field : BitVec place.width) (m : Machine β) :
    let source := (m.cpu.registers.data r).setWidth place.width
    useField op r place (field.setWidth 32) m =
      (.ok ((op.renewed field source).map (·.setWidth 32)),
        m.withRegisters ((op.yield r place.offset field m.cpu.registers).setCodes
          (fieldCodes (op.described field source) m.cpu.registers.sr))) := by
  intro source
  have described : (if op = .ins then
      ((op.renewed field source).map (·.setWidth 32)).getD (field.setWidth 32)
      else field.setWidth 32) = (op.described field source).setWidth 32 := by
    cases op <;> rfl
  have looks : data r m = (.ok (m.cpu.registers.data r), m) := rfl
  unfold useField
  rw [bind_ok looks]
  dsimp only
  rw [BitField.replacement_eq hw', described, bind_ok (status_apply m), BitField.codes_eq hw hw',
    BitField.extraction_eq hw hw', BitFieldOp.yield]
  cases op.yielded place.offset field <;> rfl

theorem yield_aside {w : ℕ} (op : BitFieldOp) (r : RegisterNumber) (offset : BitVec 32)
    (field : BitVec w) (rs : Registers) :
    (op.yield r offset field rs).pc = rs.pc ∧ (op.yield r offset field rs).sr = rs.sr := by
  unfold BitFieldOp.yield
  split <;> exact ⟨rfl, rfl⟩

/-- What modifies the field puts nothing into a register. -/
theorem yield_of_renewed {w : ℕ} {op : BitFieldOp} {field source new : BitVec w}
    (renewed : op.renewed field source = some new) (r : RegisterNumber) (offset : BitVec 32)
    (rs : Registers) : op.modifies = true ∧ op.yield r offset field rs = rs := by
  cases op <;> first | exact ⟨rfl, rfl⟩ | cases renewed

variable {op : BitFieldOp} {r : RegisterNumber} {place : FieldPlace} {holder : FieldHolder}
  {m m₁ m' : Machine β}

/-- A register is written, or the bits of what holds the field are replaced, and codes are set.
After that the machine only uses its bus. -/
theorem FieldDone.of_waited (hw' : place.width ≤ 32) (rs : Registers) {bytes : Bytes}
    (pc : rs.pc = m.cpu.registers.pc) (sr : rs.sr = m.cpu.registers.sr)
    (ends : (m.withRegisters (rs.setCodes
      (fieldCodes (op.described (m.field holder place) (m.fieldSource r place))
        m.cpu.registers.sr))).Waited bytes m')
    (reads : op.modifies = false →
      rs = op.yield r place.offset (m.field holder place) m.cpu.registers ∧
        bytes = RamBus.bytes m.bus)
    (writes : ∀ new ∈ op.renewed (m.field holder place) (m.fieldSource r place),
      holder.SameBut m.cpu.registers (RamBus.bytes m.bus) rs bytes ∧
        holder.bits rs bytes =
          BitField.replaced (m.fieldBits holder) holder.period place.offset.toInt new) :
    FieldDone op r place holder m (.ok (), m') := by
  obtain ⟨describes, system⟩ := fieldCodes_describes
    (op.described (m.field holder place) (m.fieldSource r place)) m.cpu.registers.sr
  generalize fieldCodes _ m.cpu.registers.sr = codes at ends describes system
  have registers : m'.cpu.registers = { rs with sr := codes } := by
    rw [ends.cpu]
    show rs.setCodes codes = _
    rw [Registers.setCodes, sr, setCodes_eq system]
  have restored : m'.cpu.registers.withContext m.cpu.registers = rs := by
    rw [registers, Registers.withContext, ← pc, ← sr]
  have status : m'.cpu.registers.sr = codes := by rw [registers]
  have fieldBits : m'.fieldBits holder = holder.bits rs bytes := by
    rw [Machine.fieldBits, ends.bytes, registers]
    cases holder <;> rfl
  refine ⟨rfl, ?_, ?_, ?_, fun unmodified => ?_, fun new among => ?_⟩
  · show m'.cpu = _
    rw [ends.cpu]
    rfl
  · rw [status]
    exact describes
  · rw [status]
    exact system
  · rw [restored, ends.bytes]
    exact reads unmodified
  · obtain ⟨kept, replaces⟩ := writes new among
    have long := holder.le_period
    rw [Machine.field, fieldBits, replaces, restored, ends.bytes]
    exact ⟨BitField.fieldAt_replaced _ (hw'.trans long) _ new,
      fun k outside => BitField.replaced_of_outside _ (by omega) _ new outside, kept⟩

theorem FieldDone.of_unmodified (hw' : place.width ≤ 32)
    (unmodified : op.renewed (m.field holder place) (m.fieldSource r place) = none) :
    FieldDone op r place holder m (.ok (), m.withRegisters
      ((op.yield r place.offset (m.field holder place) m.cpu.registers).setCodes
        (fieldCodes (op.described (m.field holder place) (m.fieldSource r place))
          m.cpu.registers.sr))) := by
  obtain ⟨pc, sr⟩ := yield_aside op r place.offset (m.field holder place) m.cpu.registers
  refine .of_waited hw' _ pc sr ⟨rfl, rfl⟩ (fun _ => ⟨rfl, rfl⟩) fun new among => ?_
  cases unmodified.symm.trans among

theorem FieldDone.of_replaced (hw' : place.width ≤ 32) {new : BitVec place.width}
    (renewed : op.renewed (m.field holder place) (m.fieldSource r place) = some new)
    (rs : Registers) {bytes : Bytes} (pc : rs.pc = m.cpu.registers.pc)
    (sr : rs.sr = m.cpu.registers.sr)
    (ends : (m.withRegisters (rs.setCodes
      (fieldCodes (op.described (m.field holder place) (m.fieldSource r place))
        m.cpu.registers.sr))).Waited bytes m')
    (kept : holder.SameBut m.cpu.registers (RamBus.bytes m.bus) rs bytes)
    (replaces : holder.bits rs bytes =
      BitField.replaced (m.fieldBits holder) holder.period place.offset.toInt new) :
    FieldDone op r place holder m (.ok (), m') := by
  have modifies := (yield_of_renewed renewed r place.offset m.cpu.registers).1
  refine .of_waited hw' rs pc sr ends (fun unmodified => ?_) fun new' among => ?_
  · exact nomatch unmodified.symm.trans modifies
  · cases renewed.symm.trans among
    exact ⟨kept, replaces⟩

/-! ## Registers -/

theorem toInt_emod_thirty_two (offset : BitVec 32) :
    ((offset.toNat % 32 : ℕ) : ℤ) = offset.toInt % 32 := by
  rw [BitVec.toInt_eq_toNat_cond]
  split_ifs <;> omega

theorem fieldDone_registerField (op : BitFieldOp) (r : RegisterNumber) {place : FieldPlace}
    (hw : 1 ≤ place.width) (hw' : place.width ≤ 32) (n : RegisterNumber) (m : Machine β) :
    FieldDone op r place (.register n) m (registerField op r place n m) := by
  have start := toInt_emod_thirty_two place.offset
  have looks : data n m = (.ok (m.cpu.registers.data n), m) := rfl
  have found : BitField.fieldAt (BitField.registerBits (m.cpu.registers.data n)) place.offset.toInt
      place.width = m.field (.register n) place := rfl
  unfold registerField
  dsimp only
  rw [bind_ok looks, BitField.readRegister_eq hw' _ start, bind_ok (useField_apply op r hw hw' _ m),
    found]
  cases renewed : op.renewed (m.field (.register n) place)
      ((m.cpu.registers.data r).setWidth place.width) with
  | none => exact .of_unmodified hw' renewed
  | some new =>
    let value := BitField.writeRegister (m.cpu.registers.data n) (place.offset.toNat % 32)
      place.width (new.setWidth 32)
    have written : (m.cpu.registers.setData n value).data n = value := by
      rw [Registers.data_setData, if_pos rfl]
    rw [(yield_of_renewed renewed r place.offset m.cpu.registers).2]
    refine FieldDone.of_replaced hw' renewed (m.cpu.registers.setData n value) rfl rfl ⟨rfl, rfl⟩
      ⟨by rw [written], rfl⟩ ?_
    rw [FieldHolder.bits, written]
    exact BitField.registerBits_writeRegister hw' _ start new

/-! ## Memory -/

/-- Up to the operand a machine has only looked at its memory. -/
structure Looked (m m' : Machine β) : Prop where
  cpu : m'.cpu = { m.cpu with
    registers := { m.cpu.registers with pc := m'.cpu.registers.pc }
    prefetched := m'.cpu.prefetched
    cycles := m'.cpu.cycles }
  bytes : RamBus.bytes m'.bus = RamBus.bytes m.bus

theorem Looked.trans {m'' : Machine β} (first : Looked m m') (rest : Looked m' m'') :
    Looked m m'' :=
  ⟨by rw [rest.cpu, first.cpu], rest.bytes.trans first.bytes⟩

theorem Looked.of_waited (waited : m.Waited (RamBus.bytes m.bus) m') : Looked m m' := by
  refine ⟨?_, waited.bytes⟩
  rw [waited.cpu]

theorem Looked.registers (looked : Looked m m₁) :
    m₁.cpu.registers = { m.cpu.registers with pc := m₁.cpu.registers.pc } := by
  rw [looked.cpu]

theorem Looked.fieldBits (looked : Looked m m₁) (holder : FieldHolder) :
    m₁.fieldBits holder = m.fieldBits holder := by
  rw [Machine.fieldBits, looked.bytes, looked.registers]
  cases holder <;> rfl

/-- Done after a look at memory, an operation is done. -/
theorem FieldDone.of_looked (looked : Looked m m₁) {result : Except Fault Unit × Machine β}
    (done : FieldDone op r place holder m₁ result) : FieldDone op r place holder m result := by
  obtain ⟨ok, cpu, codes, system, reads, writes⟩ := done
  have field : m₁.field holder place = m.field holder place := by
    rw [Machine.field, looked.fieldBits, Machine.field]
  have source : m₁.fieldSource r place = m.fieldSource r place := by
    rw [Machine.fieldSource, looked.registers]
    rfl
  have status : m₁.cpu.registers.sr = m.cpu.registers.sr := by rw [looked.registers]
  have restored : result.2.cpu.registers.withContext m.cpu.registers =
      { result.2.cpu.registers.withContext m₁.cpu.registers with pc := m.cpu.registers.pc } := by
    rw [Registers.withContext, ← status]
    rfl
  let atPc (rs : Registers) : Registers := { rs with pc := m.cpu.registers.pc }
  rw [field, source, status] at codes
  rw [status] at system
  rw [field] at reads
  rw [field, source] at writes
  refine ⟨ok, ?_, codes, system, fun unmodified => ?_, fun new among => ?_⟩
  · rw [cpu, looked.cpu]
  · obtain ⟨same, bytes⟩ := reads unmodified
    refine ⟨?_, bytes.trans looked.bytes⟩
    rw [restored, same, looked.registers, BitFieldOp.yield, BitFieldOp.yield]
    cases op.yielded place.offset (m.field holder place) <;> rfl
  · obtain ⟨replaced, others, kept⟩ := writes new among
    refine ⟨replaced, fun k outside => ?_, ?_⟩
    · rw [others k outside, looked.fieldBits]
    · rw [restored]
      generalize result.2.cpu.registers.withContext m₁.cpu.registers = rs at kept ⊢
      rw [looked.bytes, looked.registers] at kept
      cases holder with
      | register n => exact ⟨congrArg atPc kept.1, kept.2⟩
      | memory base =>
        have same : atPc rs = atPc _ := congrArg atPc kept
        exact same

/-- Only late models have bit fields. -/
theorem takesLongs_of_bitfield {model : Model} (has : model.capabilities.bitfield = true) :
    model.TakesLongs := by
  cases model with
  | m68000 | m68010 => exact nomatch has
  | m68020 | m68030 | m68040 => exact ⟨rfl, rfl⟩

/-- What follows an action that is chosen follows either choice. -/
theorem bind_ok_ite {β α γ : Type} {m m' : Machine β} {a : α} {chosen : Bool} {x y : MachineM β α}
    (h : (if chosen then x else y) m = (.ok a, m')) (f : α → MachineM β γ) :
    (if chosen then x >>= f else y >>= f) m = f a m' := by
  cases chosen with
  | false => exact bind_ok h f
  | true => exact bind_ok h f

theorem waits_readFifth (takes : m.cpu.model.TakesLongs) (address : BitVec 32) (wide : Bool) :
    ∃ fifth m', (if wide then read .byte address else pure 0) m = (.ok fifth, m') ∧
      m.Waited (RamBus.bytes m.bus) m' ∧
      fifth.setWidth 8 = if wide then RamBus.bytes m.bus address else 0 := by
  cases wide with
  | false => exact ⟨0, m, rfl, ⟨rfl, rfl⟩, rfl⟩
  | true =>
    obtain ⟨m', reads, waited⟩ := Machine.waits_readOperand .byte (takes.aligned address)
    rw [Model.place_of_lines takes.lines] at reads
    exact ⟨_, m', reads, waited, BitVec.setWidth_setWidth_of_le _ (by decide)⟩

theorem waits_writeWindow (takes : m.cpu.model.TakesLongs) (address : BitVec 32) (wide : Bool)
    (window : BitVec 64) :
    ∃ m', (do
        write .long address (window.extractLsb' 32 32)
        if wide then write .byte (address + 4) ((window.extractLsb' 24 8).setWidth 32)) m =
          (.ok (), m') ∧
      m.Waited ((RamBus.bytes m.bus).storeWindow address wide window) m' := by
  obtain ⟨m₁, writes, waited⟩ := Machine.waits_write (takes.aligned address)
    (window.extractLsb' 32 32)
  rw [Model.place_of_lines takes.lines] at waited
  rw [bind_ok writes]
  cases wide with
  | false => exact ⟨m₁, rfl, waited⟩
  | true =>
    have takes₁ : m₁.cpu.model.TakesLongs := waited.model ▸ takes
    obtain ⟨m₂, writes', waited'⟩ := Machine.waits_writeOperand .byte
      (takes₁.aligned (address + 4)) ((window.extractLsb' 24 8).setWidth 32)
    rw [Model.place_of_lines takes₁.lines, waited.bytes] at waited'
    refine ⟨m₂, writes', waited.trans ?_⟩
    have byte (value : BitVec 8) :
        (Size.byte.truncate (value.setWidth 32)).extractLsb' 0 8 = value := by
      show (((value.setWidth 32).setWidth 8).setWidth 32).extractLsb' 0 8 = value
      ext i hi
      simp [hi, show i < 32 by omega]
    rw [Bytes.store, byte] at waited'
    exact waited'

/-- What is done with a field of memory that was found. -/
theorem fieldDone_found (op : BitFieldOp) (r : RegisterNumber) {place : FieldPlace}
    (hw : 1 ≤ place.width) (hw' : place.width ≤ 32) (base : BitVec 32) {m : Machine β}
    (takes : m.cpu.model.TakesLongs) :
    let address := base + BitVec.ofInt 32 (place.offset.toInt / 8)
    let start := (place.offset.toInt % 8).toNat
    let wide : Bool := 32 < start + place.width
    let window := (RamBus.bytes m.bus).window address wide
    FieldDone op r place (.memory base) m ((do
      if let some new ← useField op r place (BitField.readWindow window start place.width) then
        let window := BitField.writeWindow window start place.width new
        write .long address (window.extractLsb' 32 32)
        if wide then write .byte (address + 4) ((window.extractLsb' 24 8).setWidth 32)) m) := by
  intro address start wide window
  have found : BitField.readWindow window start place.width =
      (m.field (.memory base) place).setWidth 32 :=
    Bytes.readWindow_window _ hw' base place.offset.toInt
  rw [found, bind_ok (useField_apply op r hw hw' _ m)]
  cases renewed : op.renewed (m.field (.memory base) place)
      ((m.cpu.registers.data r).setWidth place.width) with
  | none => exact .of_unmodified hw' renewed
  | some new =>
    rw [(yield_of_renewed renewed r place.offset m.cpu.registers).2]
    set registers := m.cpu.registers.setCodes (fieldCodes _ m.cpu.registers.sr) with _
    obtain ⟨m', writes, waited⟩ := waits_writeWindow (m := m.withRegisters registers) takes address
      wide (BitField.writeWindow window start place.width (new.setWidth 32))
    rw [Option.map_some]
    dsimp only
    rw [writes]
    exact .of_replaced hw' renewed m.cpu.registers rfl rfl waited rfl
      (Bytes.bits_storeWindow _ hw' base place.offset.toInt new)

theorem fieldDone_memoryField (op : BitFieldOp) (r : RegisterNumber) {place : FieldPlace}
    (hw : 1 ≤ place.width) (hw' : place.width ≤ 32) (base : BitVec 32) {m : Machine β}
    (takes : m.cpu.model.TakesLongs) :
    FieldDone op r place (.memory base) m (memoryField op r place base m) := by
  obtain ⟨m₁, reads, waited₁⟩ := Machine.waits_read
    (takes.aligned (base + BitVec.ofInt 32 (place.offset.toInt / 8)))
  have takes₁ : m₁.cpu.model.TakesLongs := waited₁.model ▸ takes
  obtain ⟨fifth, m₂, reads', waited₂, byte⟩ := waits_readFifth takes₁
    (base + BitVec.ofInt 32 (place.offset.toInt / 8) + 4)
    (32 < (place.offset.toInt % 8).toNat + place.width)
  have takes₂ : m₂.cpu.model.TakesLongs := waited₂.model ▸ takes₁
  rw [Model.place_of_lines takes.lines] at reads
  rw [waited₁.bytes] at waited₂ byte
  have waited : m.Waited (RamBus.bytes m.bus) m₂ := waited₁.trans waited₂
  have done := fieldDone_found op r hw hw' base takes₂
  rw [waited.bytes] at done
  unfold memoryField
  dsimp only
  rw [bind_ok reads, bind_ok_ite reads', byte]
  exact .of_looked (.of_waited waited) done

/-! ## Instructions -/

/-- A use of a bus that changes no byte. -/
def KeepsBytes (β : Type) [RamBus β] (event : BusEvent) : Prop :=
  ∀ bus : β, RamBus.bytes (event.apply bus) = RamBus.bytes bus

theorem bytes_of_uses (uses : m.Uses (KeepsBytes β) m') :
    RamBus.bytes m'.bus = RamBus.bytes m.bus := by
  obtain ⟨events, quiet, bus⟩ := uses
  rw [bus]
  generalize m.bus = start
  clear bus
  induction events generalizing start with
  | nil => rfl
  | cons event rest ih =>
    refine (ih (fun later among => quiet later (List.mem_cons_of_mem _ among)) _).trans ?_
    exact quiet event List.mem_cons_self start

theorem keepsBytes_fetch (s : Bool) (place : BitVec 32) :
    KeepsBytes β (.fetch place (.ofMode s true)) :=
  fun bus => RamBus.bytes_fetch _ _ bus

theorem looked_fetch {extension : BitVec 16} (fetches : fetch m = (.ok extension, m₁)) :
    Looked m m₁ := by
  have asks : Shown (β := β) (fun _ => KeepsBytes β) fetch := .fetch keepsBytes_fetch
  have stays := Quiet.asks m
  have shows := asks m
  rw [fetches] at stays shows
  exact ⟨stays.cpu, bytes_of_uses shows.uses⟩

theorem looked_controlAddress {mode : AddressMode} (control : mode.isControl = true)
    {base : BitVec 32} (finds : controlAddress mode m = (.ok base, m₁)) : Looked m m₁ := by
  have steady : mode.steps = false := by cases mode <;> first | rfl | cases control
  have asks : Shown (β := β) (fun _ => KeepsBytes β) (controlAddress mode) :=
    .memoryAddress keepsBytes_fetch (fun _ _ place bus => RamBus.bytes_read _ place _ bus) _
  have stays := Quiet.memoryAddress steady Size.long.bytes m
  have shows := asks m
  rw [← controlAddress, finds] at stays
  rw [finds] at shows
  exact ⟨stays.cpu, bytes_of_uses shows.uses⟩

theorem place_of_looked (looked : Looked m m₁) (extension : BitVec 16) :
    FieldPlace.ofExtension m₁.cpu.registers extension =
      FieldPlace.ofExtension m.cpu.registers extension := by
  rw [looked.registers]
  rfl

/-- A control mode leads to memory. -/
theorem bitField_of_control (op : BitFieldOp) {mode : AddressMode}
    (control : mode.isControl = true) :
    bitField (β := β) op mode = (do
      let extension ← fetch
      let rs ← registers
      let base ← controlAddress mode
      memoryField op (.ofField extension 12) (.ofExtension rs extension) base) := by
  cases mode <;> first | rfl | cases control

theorem FieldRun.done {result : Except Fault Unit × Machine β}
    (has : m.cpu.model.capabilities.bitfield = true) (run : FieldRun op m r place holder result) :
    (1 ≤ place.width ∧ place.width ≤ 32) ∧ FieldDone op r place holder m result := by
  cases run with
  | @register extension m₁ n fetches spelled =>
    have looked := looked_fetch fetches
    have widths := spelled.width.bounds
    have done := fieldDone_registerField op r widths.1 widths.2 n m₁
    refine ⟨widths, .of_looked looked ?_⟩
    unfold bitField
    rw [bind_ok fetches, bind_ok (registers_apply m₁)]
    dsimp only
    rw [place_of_looked looked, spelled.place_eq, RegisterNumber.ofField_eq spelled.number]
    exact done
  | @memory mode extension base m₁ m₂ control fetches finds spelled =>
    have looked := looked_fetch fetches
    have looked' := looked.trans (looked_controlAddress control finds)
    have widths := spelled.width.bounds
    have takes₂ : m₂.cpu.model.TakesLongs := by
      rw [looked'.cpu]
      exact takesLongs_of_bitfield has
    have done := fieldDone_memoryField op r widths.1 widths.2 base takes₂
    refine ⟨widths, .of_looked looked' ?_⟩
    rw [bitField_of_control op control, bind_ok fetches, bind_ok (registers_apply m₁),
      bind_ok finds, place_of_looked looked, spelled.place_eq,
      RegisterNumber.ofField_eq spelled.number]
    exact done

/-- What is extracted is the field. -/
theorem FieldDone.extracted {result : Except Fault Unit × Machine β}
    (done : FieldDone .extu r place holder m result) :
    result.2.cpu.registers.data r = (m.field holder place).setWidth 32 := by
  have written := congrArg (Registers.data · r) (done.reads rfl).1
  refine written.trans ?_
  show (m.cpu.registers.setData r _).data r = _
  rw [Registers.data_setData, if_pos rfl]

/-- **Bit fields read and write exactly their bits**, at any offset from the first bit of a register
or of any byte of memory.  A field that was inserted is extracted again, as long as what holds it
has not changed. -/
theorem bit_fields_exact {result : Except Fault Unit × Machine β}
    (has : m.cpu.model.capabilities.bitfield = true) (run : FieldRun op m r place holder result) :
    (1 ≤ place.width ∧ place.width ≤ 32) ∧ FieldDone op r place holder m result ∧
      (op = .ins → ∀ {n : Machine β} {r' : RegisterNumber}
          {result' : Except Fault Unit × Machine β},
        n.cpu.model.capabilities.bitfield = true →
        n.fieldBits holder = result.2.fieldBits holder →
        FieldRun .extu n r' place holder result' →
        result'.1 = .ok () ∧
          result'.2.cpu.registers.data r' = (m.fieldSource r place).setWidth 32) := by
  obtain ⟨widths, done⟩ := run.done has
  refine ⟨widths, done, ?_⟩
  rintro rfl n r' result' has' same run'
  obtain ⟨-, done'⟩ := run'.done has'
  obtain ⟨inserted, -, -⟩ := done.writes _ rfl
  refine ⟨done'.ok, done'.extracted.trans ?_⟩
  rw [← inserted, Machine.field, Machine.field, same]

/-- A 68020 with a value in D0, an offset in D1, a width in D4 and an address in A0, before two
extension words, which name D0 or D2.  With the program counter at 1400 they give D1 for the offset
of a field of thirty-two bits, at 1410 offset 28 and D4 for the width. -/
def inserting (pc : BitVec 32) : Machine Bytes where
  cpu := { Cpu.new .m68020 with
    registers := { Registers.initial with
      d := #v[0xDEADBEEF, 0xFFFFFFF5, 0, 0, 0xFFFFFFE6, 0, 0, 0]
      a := #v[0x2000, 0, 0, 0, 0, 0, 0]
      pc } }
  bus address :=
    match address.toNat with
    | 0x1400 => 0x08
    | 0x1401 => 0x40
    | 0x1402 => 0x28
    | 0x1403 => 0x40
    | 0x1410 => 0x07
    | 0x1411 => 0x24
    | 0x1412 => 0x27
    | 0x1413 => 0x24
    | _ => 0

/-- The machine with the value in the field of an operand. -/
def inserted (pc : BitVec 32) (mode : AddressMode) : Machine Bytes :=
  (bitField .ins mode (inserting pc)).2

/-- Eleven bits before the address, the value covers parts of five bytes.  In a register its low six
bits go around the end. -/
theorem bit_fields_exact_inserting :
    (FieldDone .ins 0 ⟨0xFFFFFFF5, 32⟩ (.memory 0x2000) (inserting 0x1400)
        (bitField .ins (.indirect 0) (inserting 0x1400)) ∧
      [0x1FFE, 0x1FFF, 0x2000, 0x2001, 0x2002].map (inserted 0x1400 (.indirect 0)).bus =
        [0x06, 0xF5, 0x6D, 0xF7, 0x78] ∧
      (bitField .extu (.indirect 0) (inserted 0x1400 (.indirect 0))).2.cpu.registers.data 2 =
        0xDEADBEEF) ∧
    FieldDone .ins 0 ⟨28, 6⟩ (.register 3) (inserting 0x1410)
        (bitField .ins (.dataReg 3) (inserting 0x1410)) ∧
      (inserted 0x1410 (.dataReg 3)).cpu.registers.data 3 = 0xC000000B ∧
      (bitField .extu (.dataReg 3) (inserted 0x1410 (.dataReg 3))).2.cpu.registers.data 2 =
        0x2F := by
  have inMemory (rs : Registers) (there : rs.data 1 = 0xFFFFFFF5) :
      FieldSpelled 0x0840 rs 0 ⟨0xFFFFFFF5, 32⟩ ∧ FieldSpelled 0x2840 rs 2 ⟨0xFFFFFFF5, 32⟩ :=
    ⟨⟨rfl, there ▸ .register 1 rfl rfl, .fixed rfl⟩, ⟨rfl, there ▸ .register 1 rfl rfl, .fixed rfl⟩⟩
  have inRegister (rs : Registers) (there : rs.data 4 = 0xFFFFFFE6) :
      FieldSpelled 0x0724 rs 0 ⟨28, 6⟩ ∧ FieldSpelled 0x2724 rs 2 ⟨28, 6⟩ := by
    have six : widthOf ((rs.data 4).extractLsb' 0 5) = 6 := there ▸ rfl
    have width {extension : BitVec 16} (there : extension.getLsbD 5 = true)
        (number : 4 = (extension.extractLsb' 0 3).toNat) : WidthIn extension rs 6 :=
      six ▸ .register 4 there number
    exact ⟨⟨rfl, .fixed rfl, width rfl rfl⟩, ⟨rfl, .fixed rfl, width rfl rfl⟩⟩
  have run : FieldRun .ins (inserting 0x1400) 0 ⟨0xFFFFFFF5, 32⟩ (.memory 0x2000)
      (bitField .ins (.indirect 0) (inserting 0x1400)) :=
    .memory rfl rfl rfl (inMemory _ rfl).1
  have run' : FieldRun .extu (inserted 0x1400 (.indirect 0)) 2 ⟨0xFFFFFFF5, 32⟩ (.memory 0x2000)
      (bitField .extu (.indirect 0) (inserted 0x1400 (.indirect 0))) :=
    .memory rfl rfl rfl (inMemory _ rfl).2
  have around : FieldRun .ins (inserting 0x1410) 0 ⟨28, 6⟩ (.register 3)
      (bitField .ins (.dataReg 3) (inserting 0x1410)) :=
    .register 3 rfl (inRegister _ rfl).1
  have around' : FieldRun .extu (inserted 0x1410 (.dataReg 3)) 2 ⟨28, 6⟩ (.register 3)
      (bitField .extu (.dataReg 3) (inserted 0x1410 (.dataReg 3))) :=
    .register 3 rfl (inRegister _ rfl).2
  obtain ⟨-, done, extracts⟩ := bit_fields_exact rfl run
  obtain ⟨-, goesAround, extracts'⟩ := bit_fields_exact rfl around
  exact ⟨⟨done, rfl, (extracts rfl rfl rfl run').2⟩, goesAround, rfl,
    (extracts' rfl rfl rfl around').2⟩

end Execution

end M68k
