import M68k.Proofs.Cpu.ProgramInMemory
import M68k.Proofs.Cpu.UnitFrame
import M68k.Proofs.Fpu.OperandRoundTrip

/-!
# Saving and restoring registers of the floating-point unit

A move of several registers of the unit lowers an address register by the long words they take and
writes those from there upward; the opposite move reads them in the same order.  Data registers take
three long words each and travel bit for bit, so that every encoding comes back.  Control registers
take one each; writing one clears the bits that it lacks.

* `UnitList.longs` — what is written of the registers of a list;
* `SavesUnit`, `RestoresUnit` — the bits of command words that list registers;
* `general_store`, `general_load` — what the two moves do in a memory;
* `unit_registers_restored` — one step that saves registers of the unit and one that restores them.
-/

namespace M68k

open MachineM

/-- The unit with the bits cleared that control and status register lack. -/
def Fpu.cut (fpu : Fpu) : Fpu :=
  { fpu with control := fpu.control &&& controlMask, status := fpu.status &&& statusMask }

/-- In a unit that has no such bits nothing is cleared. -/
theorem Fpu.Masked.cut_eq {fpu : Fpu} (masked : fpu.Masked) : fpu.cut = fpu := by
  unfold cut
  rw [masked.control, masked.status]

/-- Of two changes of the unit one after the other the second is left. -/
theorem Machine.Waited.loads {β : Type} [RamBus β] {m m' m'' : Machine β} {fpu fpu' : Fpu}
    {bytes bytes' : Bytes} (first : (m.holding m.cpu.registers (some fpu)).Waited bytes m')
    (rest : (m'.holding m'.cpu.registers (some fpu')).Waited bytes' m'') :
    (m.holding m.cpu.registers (some fpu')).Waited bytes' m'' := by
  have registers : m'.cpu.registers = m.cpu.registers := by
    rw [first.cpu]
    rfl
  rw [registers] at rest
  exact (first.holding m.cpu.registers (some fpu')).trans rest

namespace Execution

/-- Registers of the unit that are moved together. -/
inductive UnitList where
  | data (registers : List RegisterNumber)
  | controls (registers : List UnitControl)

namespace UnitList

/-- The long words that the registers take. -/
def size : UnitList → Nat
  | data registers => 3 * registers.length
  | controls registers => registers.length

/-- What the registers hold, in the order in memory. -/
def longs (fpu : Fpu) : UnitList → List (BitVec 32)
  | data registers => registers.flatMap fun r => (Fpu.pack (fpu.get r)).words
  | controls registers => registers.map (·.read fpu)

/-- The unit with these registers taken from another one. -/
def takenFrom (other fpu : Fpu) : UnitList → Fpu
  | data registers =>
    { fpu with data := Vector.ofFn fun r => if r ∈ registers then other.get r else fpu.get r }
  | controls registers =>
    { fpu with
      control := if .control ∈ registers then other.control else fpu.control
      status := if .status ∈ registers then other.status else fpu.status
      instructionAddress :=
        if .instructionAddress ∈ registers then other.instructionAddress
        else fpu.instructionAddress }

theorem length_longs (fpu : Fpu) (list : UnitList) : (list.longs fpu).length = list.size := by
  cases list with
  | data registers =>
    induction registers with
    | nil => rfl
    | cons r rest ih =>
      show ((Fpu.pack (fpu.get r)).words ++ (data rest).longs fpu).length = 3 * (rest.length + 1)
      rw [List.length_append, ih]
      show 3 + 3 * rest.length = _
      omega
  | controls registers => exact List.length_map _

theorem takenFrom_data_nil (other fpu : Fpu) : (data []).takenFrom other fpu = fpu := by
  have same : (Vector.ofFn fun k => if k ∈ ([] : List RegisterNumber) then other.get k
      else fpu.get k) = fpu.data := by
    refine Vector.ext fun i hi => ?_
    rw [Vector.getElem_ofFn, if_neg List.not_mem_nil]
    rfl
  exact congrArg (fun data => { fpu with data }) same

theorem takenFrom_controls_nil (other fpu : Fpu) : (controls []).takenFrom other fpu = fpu := by
  simp [takenFrom]

/-- Loading a data register and then others. -/
theorem takenFrom_data_cons (other fpu : Fpu) (r : RegisterNumber) (rest : List RegisterNumber) :
    (data (r :: rest)).takenFrom other fpu =
      (data rest).takenFrom other (fpu.setData r (other.get r)) := by
  have same : Vector.ofFn (fun k => if k ∈ r :: rest then other.get k else fpu.get k) =
      Vector.ofFn fun k => if k ∈ rest then other.get k
        else (fpu.setData r (other.get r)).get k := by
    refine congrArg Vector.ofFn (funext fun k => ?_)
    simp only [Fpu.get_setData, ite_mem_cons, eq_comm]
  exact congrArg (fun data => { fpu with data }) same

/-- Loading a control register and then others. -/
theorem takenFrom_controls_cons (other fpu : Fpu) (c : UnitControl) (rest : List UnitControl) :
    (controls (c :: rest)).takenFrom other.cut fpu =
      (controls rest).takenFrom other.cut (c.write fpu (c.read other)) := by
  cases c <;> simp [takenFrom, UnitControl.write, UnitControl.read, Fpu.cut, Fpu.setControl,
    Fpu.setStatus]

end UnitList

variable {β : Type} [RamBus β]

/-! ## Storing -/

theorem writeLongs_append (place : BitVec 32) (first rest : List (BitVec 32)) :
    writeLongs (β := β) place (first ++ rest) =
      (do
        writeLongs place first
        writeLongs (place + BitVec.ofNat 32 (4 * first.length)) rest) := by
  induction first generalizing place with
  | nil =>
    show _ = (pure () >>= fun _ => writeLongs (place + 0#32) rest)
    rw [pure_bind, BitVec.add_zero]
    rfl
  | cons word first ih =>
    simp only [List.cons_append, writeLongs, bind_assoc, ih, List.length_cons, Model.add_succ]

/-- Data registers are stored as their long words, one after the other. -/
theorem storeDataRegisters_eq (registers : List RegisterNumber) {m : Machine β} {fpu : Fpu}
    (had : m.cpu.fpu = some fpu) {place : BitVec 32} (aligned : m.cpu.model.Aligned place) :
    storeDataRegisters place registers m =
      writeLongs place ((UnitList.data registers).longs fpu) m := by
  induction registers generalizing m place with
  | nil => rfl
  | cons r rest ih =>
    obtain ⟨m', bytes, writes, waited, -⟩ :=
      Machine.waits_writeLongs (Fpu.pack (fpu.get r)).words (show 3 < 4194304 by decide) aligned
    have had' : m'.cpu.fpu = some fpu := by
      rw [waited.cpu]
      exact had
    have aligned' : m'.cpu.model.Aligned (place + BitVec.ofNat 32 dataBytes) :=
      waited.model ▸ aligned.add 3
    show _ = writeLongs place
      ((Fpu.pack (fpu.get r)).words ++ (UnitList.data rest).longs fpu) m
    rw [writeLongs_append, bind_ok writes, storeDataRegisters, bind_ok (unit_of_some had)]
    exact (bind_ok writes _).trans (ih had' aligned')

/-! ## Loading -/

/-- A data register is loaded from its long words, bit for bit. -/
theorem loadDataRegister_ram (r : RegisterNumber) (value : Extended) {m : Machine β} {fpu : Fpu}
    (had : m.cpu.fpu = some fpu) {place : BitVec 32} (aligned : m.cpu.model.Aligned place)
    (holds : (RamBus.bytes m.bus).HoldsLongs m.cpu.model place (Fpu.pack value).words) :
    ∃ m', (do
        let image ← readImage place false dataBytes
        setUnit ((← unit).setData r (Fpu.unpack image))) m = (.ok (), m') ∧
      (m.holding m.cpu.registers (some (fpu.setData r value))).Waited (RamBus.bytes m.bus) m' := by
  obtain ⟨m', reads, waited⟩ := Machine.waits_readLongs _ aligned holds
  have had' : m'.cpu.fpu = some fpu := by
    rw [waited.cpu]
    exact had
  have image : readImage place false dataBytes m = (.ok (Fpu.pack value), m') :=
    (bind_ok reads _).trans rfl
  rw [bind_ok image, bind_ok (unit_of_some had'), Fpu.unpack_pack]
  refine ⟨_, rfl, ?_, waited.bytes⟩
  show { m'.cpu with fpu := some (fpu.setData r value) } = _
  rw [waited.cpu]
  rfl

/-- Data registers are loaded from their long words. -/
theorem loadDataRegisters_ram (registers : List RegisterNumber) (other : Fpu) {m : Machine β}
    {fpu : Fpu} (had : m.cpu.fpu = some fpu) {place : BitVec 32}
    (aligned : m.cpu.model.Aligned place)
    (holds : (RamBus.bytes m.bus).HoldsLongs m.cpu.model place
      ((UnitList.data registers).longs other)) :
    ∃ m', loadDataRegisters false place registers m = (.ok (), m') ∧
      (m.holding m.cpu.registers (some ((UnitList.data registers).takenFrom other fpu))).Waited
        (RamBus.bytes m.bus) m' := by
  induction registers generalizing m fpu place with
  | nil =>
    rw [UnitList.takenFrom_data_nil, ← had]
    exact ⟨m, rfl, rfl, rfl⟩
  | cons r rest ih =>
    obtain ⟨m₁, loads, waited⟩ := loadDataRegister_ram r (other.get r) had aligned
      ⟨holds.1, holds.2.1, holds.2.2.1, trivial⟩
    have model : m₁.cpu.model = m.cpu.model := waited.model
    have had₁ : m₁.cpu.fpu = some (fpu.setData r (other.get r)) := by
      rw [waited.cpu]
      rfl
    have aligned₁ : m₁.cpu.model.Aligned (place + BitVec.ofNat 32 dataBytes) :=
      model ▸ aligned.add 3
    have holds₁ : (RamBus.bytes m₁.bus).HoldsLongs m₁.cpu.model
        (place + BitVec.ofNat 32 dataBytes) ((UnitList.data rest).longs other) := by
      rw [waited.bytes, model]
      have later := holds.2.2.2
      rwa [BitVec.add_assoc, BitVec.add_assoc] at later
    obtain ⟨m₂, goesOn, later⟩ := ih had₁ aligned₁ holds₁
    have both := (bind_ok loads fun _ =>
      loadDataRegisters false (place + BitVec.ofNat 32 dataBytes) rest).trans goesOn
    simp only [bind_assoc] at both
    rw [UnitList.takenFrom_data_cons]
    exact ⟨m₂, both, waited.bytes ▸ waited.loads later⟩

/-- Control registers are loaded from their long words. -/
theorem loadControls_ram (registers : List UnitControl) (other : Fpu) {m : Machine β} {fpu : Fpu}
    (had : m.cpu.fpu = some fpu) {place : BitVec 32} (aligned : m.cpu.model.Aligned place)
    (holds : (RamBus.bytes m.bus).HoldsLongs m.cpu.model place
      ((UnitList.controls registers).longs other)) :
    ∃ m', loadControls (fun place => load .long (.memory place false)) place registers m =
        (.ok (), m') ∧
      (m.holding m.cpu.registers
        (some ((UnitList.controls registers).takenFrom other.cut fpu))).Waited
        (RamBus.bytes m.bus) m' := by
  induction registers generalizing m fpu place with
  | nil =>
    rw [UnitList.takenFrom_controls_nil, ← had]
    exact ⟨m, rfl, rfl, rfl⟩
  | cons c rest ih =>
    obtain ⟨m₀, reads, waited₀⟩ := Machine.waits_read aligned
    rw [holds.1] at reads
    have had₀ : m₀.cpu.fpu = some fpu := by
      rw [waited₀.cpu]
      exact had
    obtain ⟨m₁, loads, waited⟩ : ∃ m₁, setUnitControl c (c.read other) m₀ = (.ok (), m₁) ∧
        (m.holding m.cpu.registers (some (c.write fpu (c.read other)))).Waited
          (RamBus.bytes m.bus) m₁ := by
      unfold setUnitControl
      rw [bind_ok (unit_of_some had₀)]
      refine ⟨_, rfl, ?_, waited₀.bytes⟩
      show { m₀.cpu with fpu := some (c.write fpu (c.read other)) } = _
      rw [waited₀.cpu]
      rfl
    have model : m₁.cpu.model = m.cpu.model := waited.model
    have had₁ : m₁.cpu.fpu = some (c.write fpu (c.read other)) := by
      rw [waited.cpu]
      rfl
    have aligned₁ : m₁.cpu.model.Aligned (place + 4) := model ▸ aligned.add 1
    have holds₁ : (RamBus.bytes m₁.bus).HoldsLongs m₁.cpu.model (place + 4)
        ((UnitList.controls rest).longs other) := by
      rw [waited.bytes, model]
      exact holds.2
    obtain ⟨m₂, goesOn, later⟩ := ih had₁ aligned₁ holds₁
    rw [UnitList.takenFrom_controls_cons]
    exact ⟨m₂, (bind_ok reads _).trans ((bind_ok loads _).trans goesOn),
      waited.bytes ▸ waited.loads later⟩

/-! ## The two moves -/

/-- The opcode that saves registers of the unit below an address register. -/
def saveUnitRegisters (r : RegisterNumber) : BitVec 16 := 0xF220#16 + BitVec.ofNat 16 r.val

/-- The opcode that restores registers of the unit from where an address register points. -/
def restoreUnitRegisters (r : RegisterNumber) : BitVec 16 := 0xF218#16 + BitVec.ofNat 16 r.val

theorem ofOpcode?_saveUnitRegisters (r : RegisterNumber) :
    AddressMode.ofOpcode? (saveUnitRegisters r) = some (.preDecrement r) := by
  revert r
  decide

theorem ofOpcode?_restoreUnitRegisters (r : RegisterNumber) :
    AddressMode.ofOpcode? (restoreUnitRegisters r) = some (.postIncrement r) := by
  revert r
  decide

/-- An opcode of coprocessor 1 after which a command word comes. -/
structure IsGeneral (opcode : BitVec 16) : Prop where
  coprocessor : (opcode.extractLsb' 9 3).toNat = 1
  type : (opcode.extractLsb' 6 3).toNat = 0
  decodes (model : Model) : Instruction.ofOpcode model.capabilities opcode = .lineF

theorem isGeneral_saveUnitRegisters (r : RegisterNumber) : IsGeneral (saveUnitRegisters r) := by
  refine ⟨?_, ?_, fun model => ?_⟩
  all_goals revert r
  · decide
  · decide
  · cases model <;> decide

theorem isGeneral_restoreUnitRegisters (r : RegisterNumber) :
    IsGeneral (restoreUnitRegisters r) := by
  refine ⟨?_, ?_, fun model => ?_⟩
  all_goals revert r
  · decide
  · decide
  · cases model <;> decide

variable {m : Machine β} {fpu : Fpu}

omit [RamBus β] in
theorem perform_general [Bus β] (host : Fpu.HostMath) (limit : Nat) (c : Cpu)
    (had : m.cpu.fpu = some fpu) {opcode : BitVec 16} (known : m.cpu.opcode = opcode)
    (type : IsGeneral opcode) :
    perform host limit (.ofOpcode c.capabilities opcode) m = general host m := by
  rw [c.capabilities_eq, type.decodes]
  show lineF host m = _
  unfold lineF
  rw [bind_ok (cpu_apply m)]
  dsimp only
  rw [if_neg (by simp [had, known, type.coprocessor]), known, type.type]
  rfl

/-- The byte in which a command word lists data registers of the unit: its own low byte, or if bit
11 is set that of the data register whose number is in bits 6 to 4. -/
inductive ListByte (command : BitVec 16) (rs : Registers) : BitVec 8 → Prop
  | static (here : command.getLsbD 11 = false) : ListByte command rs (command.extractLsb' 0 8)
  | dynamic (r : RegisterNumber) (there : command.getLsbD 11 = true)
      (number : r.val = (command.extractLsb' 4 3).toNat) :
      ListByte command rs ((rs.data r).extractLsb' 0 8)

/-- The control registers of the unit that a command word lists in bits 12 to 10. -/
def controlsListed (command : BitVec 16) : List UnitControl :=
  (if command.getLsbD 12 then [.control] else []) ++
    (if command.getLsbD 11 then [.status] else []) ++
    if command.getLsbD 10 then [.instructionAddress] else []

/-- Command words that store registers of the unit below an address register, and these registers.
Bits 15 to 13 are the class.  Bit 12 is clear if bit `n` of a list stands for data register `n`. -/
inductive SavesUnit (command : BitVec 16) (rs : Registers) : UnitList → Prop
  | data {list : BitVec 8} (type : (command.extractLsb' 13 3).toNat = 7)
      (ascending : command.getLsbD 12 = false) (listed : ListByte command rs list) :
      SavesUnit command rs (.data ((List.finRange 8).filter fun n => list.getLsbD n))
  | controls (type : (command.extractLsb' 13 3).toNat = 5)
      (any : (command.extractLsb' 10 3).toNat ≠ 0) :
      SavesUnit command rs (.controls (controlsListed command))

/-- Command words that load registers of the unit from where an address register points, and these
registers.  Bit 12 is set if bit `7 - n` of a list stands for data register `n`. -/
inductive RestoresUnit (command : BitVec 16) (rs : Registers) : UnitList → Prop
  | data {list : BitVec 8} (type : (command.extractLsb' 13 3).toNat = 6)
      (descending : command.getLsbD 12 = true) (listed : ListByte command rs list) :
      RestoresUnit command rs (.data ((List.finRange 8).filter fun n => list.getLsbD (7 - n)))
  | controls (type : (command.extractLsb' 13 3).toNat = 4)
      (any : (command.extractLsb' 10 3).toNat ≠ 0) :
      RestoresUnit command rs (.controls (controlsListed command))

section Lists

variable {command : BitVec 16} {rs : Registers} {list : UnitList}

theorem ListByte.dataList_eq {byte : BitVec 8} (listed : ListByte command rs byte) :
    dataList command rs = byte := by
  cases listed with
  | static here =>
    rw [dataList, here]
    rfl
  | dynamic r there number =>
    rw [dataList, there, RegisterNumber.ofField_eq number]
    rfl

theorem selected_eq_controlsListed (command : BitVec 16) :
    UnitControl.selected command = controlsListed command := by
  simp only [UnitControl.selected, controlsListed, UnitControl.position, List.filter]
  cases command.getLsbD 12 <;> cases command.getLsbD 11 <;> cases command.getLsbD 10 <;> rfl

theorem selected_ne_nil (any : (command.extractLsb' 10 3).toNat ≠ 0) :
    UnitControl.selected command ≠ [] := by
  have bits (i : Nat) (hi : i < 3) :
      command.getLsbD (10 + i) = (command.extractLsb' 10 3).getLsbD i := by
    rw [BitVec.getLsbD_extractLsb', decide_eq_true hi, Bool.true_and]
  intro none
  rw [UnitControl.selected, List.filter_eq_nil_iff] at none
  refine any (congrArg BitVec.toNat (BitVec.eq_of_getLsbD_eq (y := 0#3) fun i hi => ?_))
  rw [← bits i hi, BitVec.getLsbD_zero]
  obtain rfl | rfl | rfl : i = 0 ∨ i = 1 ∨ i = 2 := by omega
  · exact Bool.eq_false_iff.mpr (none .instructionAddress (by decide))
  · exact Bool.eq_false_iff.mpr (none .status (by decide))
  · exact Bool.eq_false_iff.mpr (none .control (by decide))

/-- What a command word lists does not depend on the program counter. -/
theorem ListByte.advanced {byte : BitVec 8} (listed : ListByte command rs byte) :
    ListByte command rs.advanced byte := by
  cases listed with
  | static here => exact .static here
  | dynamic r there number => exact .dynamic r there number

theorem SavesUnit.advanced (saves : SavesUnit command rs list) :
    SavesUnit command rs.advanced list := by
  cases saves with
  | data type ascending listed => exact .data type ascending listed.advanced
  | controls type any => exact .controls type any

theorem RestoresUnit.advanced (restores : RestoresUnit command rs list) :
    RestoresUnit command rs.advanced list := by
  cases restores with
  | data type descending listed => exact .data type descending listed.advanced
  | controls type any => exact .controls type any

theorem SavesUnit.size_lt (saves : SavesUnit command rs list) : list.size < 4194304 := by
  cases saves with
  | @data byte =>
    have few := List.length_filter_le (fun n : Fin 8 => byte.getLsbD n) (List.finRange 8)
    rw [List.length_finRange] at few
    exact Nat.lt_of_le_of_lt (Nat.mul_le_mul_left 3 few) (by decide)
  | controls =>
    have few : (UnitControl.selected command).length ≤ 3 := List.length_filter_le _ _
    rw [selected_eq_controlsListed] at few
    exact Nat.lt_of_le_of_lt few (by decide)

end Lists

variable (r : RegisterNumber) {command : BitVec 16}

/-- Data registers are stored below an address register. -/
theorem moveDataRegisters_store (had : m.cpu.fpu = some fpu)
    (mode : m.cpu.opcode = saveUnitRegisters r) (ascending : command.getLsbD 12 = false)
    (aligned : m.cpu.model.Aligned (m.cpu.registers.address r)) :
    let longs :=
      (UnitList.data (selectedData (dataList command m.cpu.registers) true)).longs fpu
    moveDataRegisters command true m =
      (do writeLongs (← preDecrement r (4 * longs.length)) longs) m := by
  intro longs
  let registers := selectedData (dataList command m.cpu.registers) true
  have bytes : dataBytes * registers.length = 4 * longs.length := by
    rw [UnitList.length_longs]
    show 12 * registers.length = 4 * (3 * registers.length)
    omega
  unfold moveDataRegisters
  rw [ascending, bind_ok (registers_apply m),
    bind_ok (opcodeMode_of_some (mode ▸ ofOpcode?_saveUnitRegisters r))]
  show (preDecrement r (dataBytes * registers.length) >>= fun place =>
    storeDataRegisters place registers) m = _
  rw [bytes, bind_ok (preDecrement_apply m r _), bind_ok (preDecrement_apply m r _)]
  have had' (rs : Registers) : (m.withRegisters rs).cpu.fpu = some fpu := had
  refine storeDataRegisters_eq registers (had' _) ?_
  exact aligned.sub longs.length

omit [RamBus β] in
/-- Control registers are stored below an address register. -/
theorem moveControls_store [Bus β] (had : m.cpu.fpu = some fpu)
    (mode : m.cpu.opcode = saveUnitRegisters r) (listed : UnitControl.selected command ≠ []) :
    let longs := (UnitList.controls (UnitControl.selected command)).longs fpu
    moveControls command true m =
      (do writeLongs (← preDecrement r (4 * longs.length)) longs) m := by
  intro longs
  have any : ¬(UnitControl.selected command).isEmpty = true := by
    rwa [List.isEmpty_iff]
  have length : longs.length = (UnitControl.selected command).length := List.length_map _
  unfold moveControls
  rw [if_neg any, length, bind_ok (preDecrement_apply m r _)]
  refine (bind_ok (opcodeMode_of_some (mode ▸ ofOpcode?_saveUnitRegisters r)) _).trans ?_
  show storeControls (.preDecrement r) (UnitControl.selected command) m = _
  unfold storeControls
  rw [if_neg (by simp [AddressMode.isAlterable])]
  have had' (rs : Registers) : (m.withRegisters rs).cpu.fpu = some fpu := had
  exact (bind_ok (preDecrement_apply m r _) _).trans (bind_ok (unit_of_some (had' _)) _)

/-- What a command word names is stored below an address register. -/
theorem general_store (host : Fpu.HostMath) (had : m.cpu.fpu = some fpu)
    (mode : m.cpu.opcode = saveUnitRegisters r) {list : UnitList}
    (saves : SavesUnit command m.cpu.registers list)
    (aligned : m.cpu.model.Aligned (m.cpu.registers.address r)) :
    let top := m.cpu.registers.address r - BitVec.ofNat 32 (4 * list.size)
    ∃ m' bytes,
      (∀ m₀, fetch m₀ = (.ok command, m) → general host m₀ = (.ok (), m')) ∧
      (m.withRegisters (m.cpu.registers.setAddress r top)).Waited bytes m' ∧
      bytes.HoldsLongs m.cpu.model top (list.longs fpu) ∧
      ∀ byte, ¬m.cpu.model.CoversLongs top list.size byte →
        bytes byte = RamBus.bytes m.bus byte := by
  intro top
  have few : (list.longs fpu).length < 4194304 := by
    rw [UnitList.length_longs]
    exact saves.size_lt
  obtain ⟨m', bytes, writes, waited, holds, outside⟩ :=
    Machine.waits_writeBelow r (list.longs fpu) few aligned
  refine ⟨m', bytes, fun m₀ fetched => ?_, ?_, ?_, ?_⟩
  · unfold general
    rw [bind_ok fetched]
    cases saves with
    | data type ascending listed =>
      have stores := moveDataRegisters_store r had mode ascending aligned
      rw [listed.dataList_eq] at stores
      rw [type]
      exact stores.trans writes
    | controls type any =>
      have stores := moveControls_store r had mode (selected_ne_nil any)
      rw [selected_eq_controlsListed] at stores
      rw [type]
      exact stores.trans writes
  all_goals rw [UnitList.length_longs] at *
  · exact waited
  · exact holds
  · exact outside

/-- Data registers are loaded from where an address register points. -/
theorem moveDataRegisters_load (had : m.cpu.fpu = some fpu)
    (mode : m.cpu.opcode = restoreUnitRegisters r) (descending : command.getLsbD 12 = true)
    (other : Fpu) (aligned : m.cpu.model.Aligned (m.cpu.registers.address r)) :
    let list := UnitList.data (selectedData (dataList command m.cpu.registers) false)
    let top := m.cpu.registers.address r + BitVec.ofNat 32 (4 * list.size)
    (RamBus.bytes m.bus).HoldsLongs m.cpu.model (m.cpu.registers.address r) (list.longs other) →
    ∃ m', moveDataRegisters command false m = (.ok (), m') ∧
      (m.holding (m.cpu.registers.setAddress r top) (some (list.takenFrom other fpu))).Waited
        (RamBus.bytes m.bus) m' := by
  intro list top holds
  let registers := selectedData (dataList command m.cpu.registers) false
  have bytes : dataBytes * registers.length = 4 * list.size := by
    show 12 * registers.length = 4 * (3 * registers.length)
    omega
  have had' : (m.withRegisters (m.cpu.registers.setAddress r top)).cpu.fpu = some fpu := had
  obtain ⟨m', loads, waited⟩ := loadDataRegisters_ram registers other had' aligned holds
  refine ⟨m', ?_, waited⟩
  unfold moveDataRegisters
  rw [descending, bind_ok (registers_apply m),
    bind_ok (opcodeMode_of_some (mode ▸ ofOpcode?_restoreUnitRegisters r))]
  show (postIncrement r (dataBytes * registers.length) >>= fun place =>
    loadDataRegisters false place registers) m = _
  rw [bytes, bind_ok (postIncrement_apply m r _)]
  exact loads

/-- Control registers are loaded from where an address register points. -/
theorem moveControls_load (had : m.cpu.fpu = some fpu)
    (mode : m.cpu.opcode = restoreUnitRegisters r) (listed : UnitControl.selected command ≠ [])
    (other : Fpu) (aligned : m.cpu.model.Aligned (m.cpu.registers.address r)) :
    let list := UnitList.controls (UnitControl.selected command)
    let top := m.cpu.registers.address r + BitVec.ofNat 32 (4 * list.size)
    (RamBus.bytes m.bus).HoldsLongs m.cpu.model (m.cpu.registers.address r) (list.longs other) →
    ∃ m', moveControls command false m = (.ok (), m') ∧
      (m.holding (m.cpu.registers.setAddress r top) (some (list.takenFrom other.cut fpu))).Waited
        (RamBus.bytes m.bus) m' := by
  intro list top holds
  have any : ¬(UnitControl.selected command).isEmpty = true := by
    rwa [List.isEmpty_iff]
  have had' : (m.withRegisters (m.cpu.registers.setAddress r top)).cpu.fpu = some fpu := had
  obtain ⟨m', loads, waited⟩ := loadControls_ram _ other had' aligned holds
  refine ⟨m', ?_, waited⟩
  unfold moveControls
  rw [if_neg any]
  refine (bind_ok (opcodeMode_of_some (mode ▸ ofOpcode?_restoreUnitRegisters r)) _).trans ?_
  exact (bind_ok (postIncrement_apply m r _) _).trans loads

/-- What was stored is loaded from where an address register points. -/
theorem general_load (host : Fpu.HostMath) (had : m.cpu.fpu = some fpu)
    (mode : m.cpu.opcode = restoreUnitRegisters r) {list : UnitList}
    (restores : RestoresUnit command m.cpu.registers list) (other : Fpu)
    (aligned : m.cpu.model.Aligned (m.cpu.registers.address r))
    (holds : (RamBus.bytes m.bus).HoldsLongs m.cpu.model (m.cpu.registers.address r)
      (list.longs other)) :
    let top := m.cpu.registers.address r + BitVec.ofNat 32 (4 * list.size)
    ∃ m', (∀ m₀, fetch m₀ = (.ok command, m) → general host m₀ = (.ok (), m')) ∧
      (m.holding (m.cpu.registers.setAddress r top) (some (list.takenFrom other.cut fpu))).Waited
        (RamBus.bytes m.bus) m' := by
  cases restores with
  | data type descending listed =>
    have loads := moveDataRegisters_load r had mode descending other aligned
    rw [listed.dataList_eq] at loads
    obtain ⟨m', loaded, waited⟩ := loads holds
    refine ⟨m', fun m₀ fetched => ?_, waited⟩
    unfold general
    rw [bind_ok fetched, type]
    exact loaded
  | controls type any =>
    have loads := moveControls_load r had mode (selected_ne_nil any) other aligned
    rw [selected_eq_controlsListed] at loads
    obtain ⟨m', loaded, waited⟩ := loads holds
    refine ⟨m', fun m₀ fetched => ?_, waited⟩
    unfold general
    rw [bind_ok fetched, type]
    exact loaded

end Execution

open Execution

section Steps

variable {β : Type} [RamBus β] (host : Fpu.HostMath) (limit : Nat) {m : Machine β} {fpu : Fpu}
  (had : m.cpu.fpu = some fpu) (r : RegisterNumber) {command command' : BitVec 16}
  {list : UnitList} {rest : List (BitVec 16)}
include had

/-- A step that saves registers of the unit. -/
theorem step_saveUnitRegisters (saves : SavesUnit command m.cpu.registers list)
    (aligned : m.cpu.model.Aligned (m.cpu.registers.address r))
    (program : m.Streams (saveUnitRegisters r :: command :: rest)) :
    let rs := m.cpu.registers
    let top := rs.address r - BitVec.ofNat 32 (4 * list.size)
    ∃ m' bytes, step host limit m = (plainEnd rs.sr, m') ∧
      m.StepsTo (rs.setAddress r top).advanced (some fpu) bytes rest m' ∧
      bytes.HoldsLongs m.cpu.model top (list.longs fpu) ∧
      ∀ byte, ¬m.cpu.model.CoversLongs top list.size byte →
        bytes byte = RamBus.bytes m.bus byte := by
  intro rs top
  obtain ⟨m₁, performs, steps⟩ := program.step host limit
  have there : m₁.cpu.registers.address r = rs.address r := by
    rw [performs.registers, Registers.address_advanced]
  have listed : SavesUnit command m₁.cpu.registers list := by
    rw [performs.registers]
    exact saves.advanced
  obtain ⟨m₂, bytes, stored, waited, holds, outside⟩ :=
    general_store r host (performs.fpu.trans had) performs.opcode listed
      (by rw [performs.model, there]; exact aligned)
  rw [there, performs.model] at holds
  rw [there, performs.model, performs.bytes] at outside
  rw [there, performs.registers, Registers.setAddress_advanced] at waited
  obtain ⟨m', stepped, left⟩ := steps m₂ _ (some fpu) bytes
    (fun m₀ known had₀ fetched =>
      (perform_general host limit m.cpu (had₀.trans had) known
        (isGeneral_saveUnitRegisters r)).trans (stored m₀ fetched))
    (by rw [← had, ← performs.fpu]; exact waited)
    (Registers.pc_advanced (rs.aside_setAddress r _))
  exact ⟨m', bytes, stepped, left, holds, outside⟩

/-- A step that restores registers of the unit. -/
theorem step_restoreUnitRegisters (restores : RestoresUnit command m.cpu.registers list)
    (other : Fpu) (aligned : m.cpu.model.Aligned (m.cpu.registers.address r))
    (program : m.Streams (restoreUnitRegisters r :: command :: rest))
    (holds : (RamBus.bytes m.bus).HoldsLongs m.cpu.model (m.cpu.registers.address r)
      (list.longs other)) :
    let top := m.cpu.registers.address r + BitVec.ofNat 32 (4 * list.size)
    ∃ m', step host limit m = (plainEnd m.cpu.registers.sr, m') ∧
      m.StepsTo (m.cpu.registers.setAddress r top).advanced
        (some (list.takenFrom other.cut fpu)) (RamBus.bytes m.bus) rest m' := by
  obtain ⟨m₁, performs, steps⟩ := program.step host limit
  have there : m₁.cpu.registers.address r = m.cpu.registers.address r := by
    rw [performs.registers, Registers.address_advanced]
  have listed : RestoresUnit command m₁.cpu.registers list := by
    rw [performs.registers]
    exact restores.advanced
  obtain ⟨m₂, loads, waited⟩ :=
    general_load r host (performs.fpu.trans had) performs.opcode listed other
      (by rw [performs.model, there]; exact aligned)
      (by rw [performs.bytes, performs.model, there]; exact holds)
  rw [there, performs.registers, performs.bytes, Registers.setAddress_advanced] at waited
  exact steps m₂ _ _ _
    (fun m₀ known had₀ fetched =>
      (perform_general host limit m.cpu (had₀.trans had) known
        (isGeneral_restoreUnitRegisters r)).trans (loads m₀ fetched))
    waited (Registers.pc_advanced (m.cpu.registers.aside_setAddress r _))

/-- **Registers of the unit are restored.**  One step saves the registers that a command word lists
below an address register, which it lowers by the long words they take; the unit stays as it is.
Then, whatever has become of the unit and of other registers of the processor, a step whose command
word lists the same registers from the other end loads them with what they held, changes nothing
else of the unit, and brings the address register back.  Either list of data registers may be in the
command word or in a register of the processor.

Loading a control register clears the bits that it lacks.  A unit in which they are clear, as they
are in every state that instructions lead to, gets back exactly what it held; data registers always
do. -/
theorem unit_registers_restored (kind : m.cpu.model.capabilities.fpu.isSome)
    (saves : SavesUnit command m.cpu.registers list)
    (program : m.Streams
      [saveUnitRegisters r, command, restoreUnitRegisters r, command'])
    (apart : ∀ byte, m.cpu.model.Covers (m.cpu.registers.pc + 4) 2 byte →
      ¬m.cpu.model.CoversLongs
        (m.cpu.registers.address r - BitVec.ofNat 32 (4 * list.size)) list.size byte) :
    let rs := m.cpu.registers
    let top := rs.address r - BitVec.ofNat 32 (4 * list.size)
    let saved := step host limit m
    saved.1 = plainEnd rs.sr ∧ saved.2.cpu.registers = (rs.setAddress r top).advanced ∧
      saved.2.cpu.fpu = some fpu ∧
      ∀ rs' fpu', rs'.pc = rs.pc + 4 → rs'.address r = top → RestoresUnit command' rs' list →
        let restored := step host limit (saved.2.holding rs' (some fpu'))
        restored.1 = plainEnd rs'.sr ∧
          restored.2.cpu.registers = (rs'.setAddress r (rs.address r)).advanced ∧
          restored.2.cpu.fpu = some (list.takenFrom fpu.cut fpu') ∧
          (fpu.Masked → restored.2.cpu.fpu = some (list.takenFrom fpu fpu')) := by
  intro rs top saved
  have aligned := (Model.takesLongs_of_unit kind).aligned
  obtain ⟨m', bytes, stepped, left, holds, outside⟩ :=
    step_saveUnitRegisters host limit had r saves (aligned _) program
  obtain rfl : m' = saved.2 := (congrArg Prod.snd stepped).symm
  refine ⟨congrArg Prod.fst stepped, left.registers, left.fpu,
    fun rs' fpu' pc there restores => ?_⟩
  -- what the first step has saved is what the second one finds
  have goesOn : (saved.2.holding rs' (some fpu')).Streams [restoreUnitRegisters r, command'] := by
    have next := Registers.pc_advanced (rs.aside_setAddress r top)
    have streams := left.streams fun byte covered => outside byte (apart byte (next ▸ covered))
    refine streams.kept rfl ?_ rfl fun _ _ => rfl
    rw [left.registers]
    exact pc.trans next.symm
  have found : (RamBus.bytes saved.2.bus).HoldsLongs saved.2.cpu.model (rs'.address r)
      (list.longs fpu) := by
    rw [there, left.model, left.bytes]
    exact holds
  obtain ⟨m'', stepped', left'⟩ := step_restoreUnitRegisters host limit
    (m := saved.2.holding rs' (some fpu')) rfl r restores fpu (left.model ▸ aligned _)
    goesOn found
  obtain rfl : m'' = (step host limit (saved.2.holding rs' (some fpu'))).2 :=
    (congrArg Prod.snd stepped').symm
  have back : rs'.address r + BitVec.ofNat 32 (4 * list.size) = rs.address r := by
    rw [there]
    exact BitVec.sub_add_cancel _ _
  refine ⟨congrArg Prod.fst stepped', left'.registers.trans ?_, left'.fpu, fun masked => ?_⟩
  · rw [← back]
    rfl
  · rw [masked.cut_eq] at left'
    exact left'.fpu

end Steps

/-- A unit with another signalling NaN in each data register. -/
def signalling : Fpu :=
  { Fpu.new .mc68881 with
    data := Vector.ofFn fun r => ⟨true, 0x7FFF, BitVec.ofNat 64 (0x8000000000000001 + r.val)⟩
    control := 0x40
    status := 0x8
    instructionAddress := 0x1234 }

/-- Registers of the processor, with the first and the third of eight listed in D2 from the low and
in D3 from the high end. -/
def stacking : Registers :=
  { ((Cpu.new .m68020).resetTo 0x4000 0x1000).registers with
    d := #v[0, 0, 0x1200FF05, 0x340000A0, 0, 0, 0, 0] }

/-- A 68020 that saves registers of that unit on the stack and restores them. -/
def unitStacker (command command' : BitVec 16) : Machine Bytes where
  cpu := { (Cpu.new .m68020).resetTo 0x4000 0x1000 with
    registers := stacking
    fpu := some signalling }
  bus := .program 0x1000 [0xF227, command, 0xF21F, command']

/-- Neither two nor six long words below its stack pointer reach the second half of its program. -/
theorem stacking_apart {size : Nat} (known : size = 2 ∨ size = 6) (byte : BitVec 32)
    (covered : Model.m68020.Covers (stacking.pc + 4) 2 byte) :
    ¬Model.m68020.CoversLongs (stacking.address 7 - BitVec.ofNat 32 (4 * size)) size byte := by
  have pc : stacking.pc = 0x1000 := by decide
  have sp : stacking.address 7 = 0x4000 := by decide
  rw [pc] at covered
  rw [sp]
  obtain ⟨i, few, here⟩ := covered
  obtain rfl | rfl : i = 0 ∨ i = 1 := by omega
  all_goals
    obtain rfl | rfl := here
    all_goals
      obtain rfl | rfl := known
      all_goals decide

/-- The registers in a static, a dynamic and a control list are back in a unit that was new in
between, and nothing else is. -/
theorem unit_registers_restored_signalling :
    let other := Fpu.new .mc68881
    let restored (command command' : BitVec 16) : Option Fpu :=
      let saved := (step .native 1 (unitStacker command command')).2
      (step .native 1 (saved.holding saved.cpu.registers (some other))).2.cpu.fpu
    restored 0xE003 0xD0C0 =
        some ((other.setData 0 (signalling.get 0)).setData 1 (signalling.get 1)) ∧
      restored 0xE820 0xD830 =
        some ((other.setData 0 (signalling.get 0)).setData 2 (signalling.get 2)) ∧
      restored 0xB400 0x9400 =
        some { other with control := 0x40, instructionAddress := 0x1234 } := by
  intro other restored
  have comesBack {command command' : BitVec 16} {list : UnitList}
      (saves : SavesUnit command stacking list)
      (restores : ∀ top, RestoresUnit command' (stacking.setAddress 7 top).advanced list)
      (size : list.size = 2 ∨ list.size = 6)
      (program : (unitStacker command command').Streams
        [saveUnitRegisters 7, command, restoreUnitRegisters 7, command']) :
      restored command command' = some (list.takenFrom signalling other) := by
    let saved := (step .native 1 (unitStacker command command')).2
    obtain ⟨-, registers, -, loads⟩ := unit_registers_restored .native 1
      (m := unitStacker command command') rfl 7 rfl saves program (stacking_apart size)
    have next : saved.cpu.registers.pc = stacking.pc + 4 := by
      rw [registers]
      exact Registers.pc_advanced (stacking.aside_setAddress 7 _)
    have top : saved.cpu.registers.address 7 = _ :=
      (congrArg (Registers.address · 7) registers).trans (Registers.address_setAddress_self _ 7 _)
    obtain ⟨-, -, -, unit⟩ := loads saved.cpu.registers other next top
      (registers ▸ restores _)
    exact unit ⟨by decide, by decide⟩
  have static : restored 0xE003 0xD0C0 =
      some ((UnitList.data [0, 1]).takenFrom signalling other) := by
    have saves : SavesUnit 0xE003 stacking (.data [0, 1]) :=
      @SavesUnit.data _ _ 0x03 rfl rfl (.static rfl)
    have restores (top : BitVec 32) :
        RestoresUnit 0xD0C0 (stacking.setAddress 7 top).advanced (.data [0, 1]) :=
      @RestoresUnit.data _ _ 0xC0 rfl rfl (.static rfl)
    exact comesBack saves restores (.inr rfl) (by decide +kernel)
  have dynamic : restored 0xE820 0xD830 =
      some ((UnitList.data [0, 2]).takenFrom signalling other) := by
    have saves : SavesUnit 0xE820 stacking (.data [0, 2]) :=
      @SavesUnit.data _ _ 0x05 rfl rfl (.dynamic 2 rfl rfl)
    have restores (top : BitVec 32) :
        RestoresUnit 0xD830 (stacking.setAddress 7 top).advanced (.data [0, 2]) := by
      have listed : ((stacking.setAddress 7 top).advanced.data 3).extractLsb' 0 8 = 0xA0 :=
        congrArg (BitVec.extractLsb' 0 8) (stacking.data_setAddress 7 3 top)
      exact @RestoresUnit.data _ _ 0xA0 rfl rfl (listed ▸ .dynamic 3 rfl rfl)
    exact comesBack saves restores (.inr rfl) (by decide +kernel)
  have controls : restored 0xB400 0x9400 =
      some ((UnitList.controls [.control, .instructionAddress]).takenFrom signalling other) := by
    have saves : SavesUnit 0xB400 stacking (.controls [.control, .instructionAddress]) :=
      .controls rfl (by decide)
    have restores (top : BitVec 32) : RestoresUnit 0x9400 (stacking.setAddress 7 top).advanced
        (.controls [.control, .instructionAddress]) := .controls rfl (by decide)
    exact comesBack saves restores (.inl rfl) (by decide +kernel)
  rw [static, dynamic, controls]
  decide +kernel

end M68k
