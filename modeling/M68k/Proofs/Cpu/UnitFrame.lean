import M68k.Proofs.Cpu.CallCourse
import M68k.Proofs.Cpu.InstructionStart
import M68k.Proofs.Cpu.LongWords

/-!
# Saving and restoring the floating-point unit

A frame that is saved on a stack and restored from there brings the unit back, unless it is a null
frame: that resets the unit.  So nothing is lost as long as the mark of a reset means that nothing
has happened since, and the only instructions that break this are those that load registers of the
unit without using it.

* `save_restore` — what a frame that is saved and restored makes of the unit;
* `save_restore_of_run` — nothing is lost after a run without such loads.
-/

namespace M68k

open MachineM

variable {β : Type} [RamBus β]

/-- Only late models have a floating-point unit. -/
theorem Model.takesLongs_of_unit {model : Model} (unit : model.capabilities.fpu.isSome) :
    model.TakesLongs := by
  cases model with
  | m68000 | m68010 => exact nomatch unit
  | m68020 | m68030 | m68040 => exact ⟨rfl, rfl⟩

namespace Fpu

/-- The frame of a unit: at most sixteen long words, of which the first tells what it is. -/
theorem save_eq (fpu : Fpu) : ∃ header body, fpu.save = header :: body ∧ body.length < 16 ∧
    fpu.restore header =
      .ok (4 * body.length, if fpu.justReset then fpu.reset else fpu) := by
  cases reset : fpu.justReset with
  | true =>
    refine ⟨0, [], by rw [save, if_pos reset], by decide, ?_⟩
    rfl
  | false =>
    obtain ⟨header, body, saves, restores⟩ := restore_save fpu reset
    refine ⟨header, body, saves, ?_, restores⟩
    rw [save, if_neg (by simp [reset])] at saves
    obtain ⟨-, rfl⟩ := List.cons.inj saves
    rw [List.length_replicate]
    cases fpu.model <;> decide

end Fpu

/-- A machine in supervisor mode with a unit, on a model that has one. -/
structure Machine.HasUnit (m : Machine β) (fpu : Fpu) : Prop where
  takes : m.cpu.model.TakesLongs
  unit : m.cpu.fpu = some fpu
  supervisor : m.cpu.registers.isSupervisor = true

/-- A machine that differs from another only in what has become of the unit and of an address
register, and perhaps in its bytes. -/
structure Machine.UnitMoved (m : Machine β) (r : RegisterNumber) (top : BitVec 32) (fpu : Fpu)
    (m' : Machine β) : Prop where
  model : m'.cpu.model = m.cpu.model
  registers : m'.cpu.registers = m.cpu.registers.setAddress r top
  fpu : m'.cpu.fpu = some fpu
  flow : m'.cpu.flowChanged = m.cpu.flowChanged

namespace Execution

/-- The opcode that saves the unit on the stack of an address register. -/
def saveOpcode (r : RegisterNumber) : BitVec 16 := 0xF320#16 + BitVec.ofNat 16 r.val

/-- The opcode that restores the unit from there. -/
def restoreOpcode (r : RegisterNumber) : BitVec 16 := 0xF358#16 + BitVec.ofNat 16 r.val

theorem ofOpcode?_save (r : RegisterNumber) :
    AddressMode.ofOpcode? (saveOpcode r) = some (.preDecrement r) := by
  revert r
  decide

theorem ofOpcode?_restore (r : RegisterNumber) :
    AddressMode.ofOpcode? (restoreOpcode r) = some (.postIncrement r) := by
  revert r
  decide

theorem ofOpcode_save (model : Model) (r : RegisterNumber) :
    Instruction.ofOpcode model.capabilities (saveOpcode r) = .lineF := by
  revert r
  cases model <;> decide

theorem ofOpcode_restore (model : Model) (r : RegisterNumber) :
    Instruction.ofOpcode model.capabilities (restoreOpcode r) = .lineF := by
  revert r
  cases model <;> decide

/-- Both opcodes are of coprocessor 1. -/
theorem fields_save (r : RegisterNumber) : ((saveOpcode r).extractLsb' 9 3).toNat = 1 ∧
    ((saveOpcode r).extractLsb' 6 3).toNat = 4 := by
  revert r
  decide

theorem fields_restore (r : RegisterNumber) : ((restoreOpcode r).extractLsb' 9 3).toNat = 1 ∧
    ((restoreOpcode r).extractLsb' 6 3).toNat = 5 := by
  revert r
  decide

variable {m : Machine β} {fpu : Fpu} {r : RegisterNumber}

theorem lineF_save (host : Fpu.HostMath) (had : m.cpu.fpu = some fpu)
    (opcode : m.cpu.opcode = saveOpcode r) : lineF host m = saveUnit m := by
  unfold lineF
  rw [bind_ok (cpu_apply m)]
  dsimp only
  rw [if_neg (by simp [had, opcode, fields_save r]), opcode, (fields_save r).2]
  rfl

theorem lineF_restore (host : Fpu.HostMath) (had : m.cpu.fpu = some fpu)
    (opcode : m.cpu.opcode = restoreOpcode r) : lineF host m = restoreUnit m := by
  unfold lineF
  rw [bind_ok (cpu_apply m)]
  dsimp only
  rw [if_neg (by simp [had, opcode, fields_restore r]), opcode, (fields_restore r).2]
  rfl

omit [RamBus β]

theorem unit_of_some (had : m.cpu.fpu = some fpu) : unit m = (.ok fpu, m) := by
  rw [unit_apply, had]

theorem opcodeMode_of_some {mode : AddressMode}
    (decodes : AddressMode.ofOpcode? m.cpu.opcode = some mode) :
    opcodeMode m = (.ok mode, m) := by
  unfold opcodeMode
  rw [bind_ok (cpu_apply m), decodes]
  rfl

theorem requireSupervisor_of (supervisor : m.cpu.registers.isSupervisor = true) :
    requireSupervisor m = (.ok (), m) := by
  rw [requireSupervisor_apply, if_pos supervisor]

variable [RamBus β]

/-- Saving the unit below an address register leaves the register at the frame. -/
theorem saveUnit_ram (has : m.HasUnit fpu) (opcode : m.cpu.opcode = saveOpcode r)
    {header : BitVec 32} {body : List (BitVec 32)} (saves : fpu.save = header :: body)
    (short : body.length < 16) {top : BitVec 32}
    (place : m.cpu.registers.address r - BitVec.ofNat 32 (4 * (body.length + 1)) = top) :
    ∃ m', saveUnit m = (.ok (), m') ∧ m.UnitMoved r top fpu m' ∧
      (RamBus.bytes m'.bus).long top = header := by
  have few : (header :: body).length < 4194304 := by
    rw [List.length_cons]
    omega
  obtain ⟨m₁, bytes, writes, waited, holds, -⟩ :=
    Machine.waits_writeBelow r (header :: body) few (has.takes.aligned _)
  rw [List.length_cons, place] at waited holds
  refine ⟨m₁, ?_, ?_, ?_⟩
  · unfold saveUnit
    rw [bind_ok (requireSupervisor_of has.supervisor), bind_ok (unit_of_some has.unit),
      bind_ok (opcodeMode_of_some (opcode ▸ ofOpcode?_save r)), saves]
    exact writes
  · refine ⟨?_, ?_, ?_, ?_⟩ <;> rw [waited.cpu]
    · rfl
    · rfl
    · exact has.unit
    · rfl
  · rw [waited.bytes, ← Model.place_of_lines has.takes.lines top]
    exact holds.1

/-- Restoring the unit from where an address register points takes the register past the frame. -/
theorem restoreUnit_ram (has : m.HasUnit fpu) (opcode : m.cpu.opcode = restoreOpcode r)
    {header : BitVec 32} (found : (RamBus.bytes m.bus).long (m.cpu.registers.address r) = header)
    {size : Nat} {fpu' : Fpu} (restores : fpu.restore header = .ok (size, fpu')) :
    ∃ m', restoreUnit m = (.ok (), m') ∧
      m.UnitMoved r (m.cpu.registers.address r + BitVec.ofNat 32 (4 + size)) fpu' m' := by
  obtain ⟨m₁, reads, waited⟩ := Machine.waits_read (has.takes.aligned (m.cpu.registers.address r))
  rw [Model.place_of_lines has.takes.lines, found] at reads
  have had₁ : m₁.cpu.fpu = some fpu := by
    rw [waited.cpu]
    exact has.unit
  refine ⟨⟨{ m₁.cpu with
      registers := m₁.cpu.registers.setAddress r
        (m.cpu.registers.address r + BitVec.ofNat 32 (4 + size))
      fpu := some fpu' }, m₁.bus⟩, ?_, ?_⟩
  · unfold restoreUnit
    rw [bind_ok (requireSupervisor_of has.supervisor),
      bind_ok (opcodeMode_of_some (opcode ▸ ofOpcode?_restore r))]
    refine (bind_ok (show address r m = (.ok (m.cpu.registers.address r), m) from rfl) _).trans ?_
    dsimp only
    rw [bind_ok reads, bind_ok (unit_of_some had₁), restores]
    rfl
  · refine ⟨?_, ?_, rfl, ?_⟩ <;> (dsimp only; rw [waited.cpu])

end Execution

namespace Machine

/-- The opcode of the instruction that the next call performs, if it performs one. -/
def upcoming (m : Machine β) : Option (BitVec 16) :=
  match opening m with
  | (.ok (.perform _ _), m₁) => some m₁.cpu.opcode
  | _ => none

/-- The next call performs the instruction of an opcode. -/
def ComesTo (m : Machine β) (opcode : BitVec 16) : Prop :=
  m.cpu.runState ≠ .halted ∧ m.upcoming = some opcode

instance (m : Machine β) (opcode : BitVec 16) : Decidable (m.ComesTo opcode) :=
  inferInstanceAs (Decidable (_ ∧ _))

theorem ComesTo.opens {m : Machine β} {opcode : BitVec 16} (comes : m.ComesTo opcode) :
    ∃ before instruction m₁, opening m = (.ok (.perform before instruction), m₁) ∧
      m₁.cpu.opcode = opcode := by
  have upcoming := comes.2
  unfold Machine.upcoming at upcoming
  split at upcoming
  next before instruction m₁ opens =>
    exact ⟨before, instruction, m₁, opens, Option.some.inj upcoming⟩
  · exact nomatch upcoming

variable {m : Machine β} {fpu : Fpu} {r : RegisterNumber}

omit [RamBus β] in
theorem HasUnit.begun (has : m.HasUnit fpu) {m₁ : Machine β} (begun : m.cpu.BegunTo m₁.cpu) :
    m₁.HasUnit fpu := by
  refine ⟨?_, ?_, ?_⟩ <;> rw [begun]
  · exact has.takes
  · exact has.unit
  · exact has.supervisor

/-- What a call makes of the unit, an address register and the bytes, if its instruction belongs to
the unit and is not traced. -/
theorem execute_unit (host : Fpu.HostMath) (holds : Bytes → Prop) {opcode : BitVec 16} {fpu' : Fpu}
    {top : BitVec 32} (comes : m.ComesTo opcode) (untraced : m.cpu.registers.sr.has .t1 = false)
    (line : Instruction.ofOpcode m.cpu.model.capabilities opcode = .lineF)
    (performs : ∀ m₁ : Machine β, m.cpu.BegunTo m₁.cpu → m₁.cpu.opcode = opcode →
      RamBus.bytes m₁.bus = RamBus.bytes m.bus →
      ∃ m₂, Execution.lineF host m₁ = (.ok (), m₂) ∧ m₁.UnitMoved r top fpu' m₂ ∧
        holds (RamBus.bytes m₂.bus)) :
    let m' := (m.execute host).2
    m'.cpu.model = m.cpu.model ∧ m'.cpu.registers.sr = m.cpu.registers.sr ∧
      m'.cpu.fpu = some fpu' ∧ m'.cpu.registers.address r = top ∧ holds (RamBus.bytes m'.bus) := by
  have active := comes.1
  obtain ⟨before, instruction, m₁, opens, known⟩ := comes.opens
  obtain ⟨rfl, rfl, begun⟩ := opening_perform opens
  have bytes : RamBus.bytes m₁.bus = RamBus.bytes m.bus := by
    have same := bytes_opening m
    rwa [opens] at same
  obtain ⟨m₂, done, moved, kept⟩ := performs m₁ begun known bytes
  obtain ⟨registers, unit, model, flow, -⟩ := m₂.cpu.fields_settled
  have worked : work host frameLimit m = (.ok (), { m₂ with cpu := m₂.cpu.settled }) := by
    have performed : Execution.perform host frameLimit
        (.ofOpcode m.cpu.capabilities m₁.cpu.opcode) m₁ = (.ok (), m₂) := by
      rw [known, Cpu.capabilities_eq, line]
      exact done
    have quiet : isTraced m.cpu.registers.sr m₂.cpu.settled = false := by
      rw [isTraced, untraced, flow, moved.flow, begun]
      simp
    rw [work_eq, bind_ok opens]
    exact bind_settle performed quiet
  rw [execute, executeWithin_ok active worked]
  refine ⟨?_, ?_, unit.trans moved.fpu, ?_, kept⟩
  · show m₂.cpu.settled.model = _
    rw [model, moved.model, begun]
  · show m₂.cpu.settled.registers.sr = _
    rw [registers, moved.registers, begun]
    exact Registers.sr_setAddress _ r _
  · show m₂.cpu.settled.registers.address r = _
    rw [registers, moved.registers]
    exact Registers.address_setAddress_self _ r _

end Machine

/-- **What saving and restoring make of the floating-point unit.**  When one call saves the unit on
the stack of an address register and the next one restores it from there, the address register is
back where it was, and so is the unit, unless it counts as just reset: then it is reset. -/
theorem save_restore (host : Fpu.HostMath) {m : Machine β} {fpu : Fpu} (had : m.cpu.fpu = some fpu)
    (kind : m.cpu.model.capabilities.fpu.isSome)
    (supervisor : m.cpu.registers.isSupervisor = true)
    (untraced : m.cpu.registers.sr.has .t1 = false) (r : RegisterNumber)
    (saves : m.ComesTo (Execution.saveOpcode r))
    (restores : (m.execute host).2.ComesTo (Execution.restoreOpcode r)) :
    let m' := ((m.execute host).2.execute host).2
    m'.cpu.fpu = some (if fpu.justReset then fpu.reset else fpu) ∧
      m'.cpu.registers.address r = m.cpu.registers.address r := by
  have has : m.HasUnit fpu := ⟨Model.takesLongs_of_unit kind, had, supervisor⟩
  obtain ⟨header, body, frame, short, back⟩ := fpu.save_eq
  generalize place : m.cpu.registers.address r - BitVec.ofNat 32 (4 * (body.length + 1)) = top
  -- the first call leaves a header that the unit accepts, whatever is below it
  have savesIt (m₁ : Machine β) (begun : m.cpu.BegunTo m₁.cpu)
      (opcode : m₁.cpu.opcode = Execution.saveOpcode r)
      (_ : RamBus.bytes m₁.bus = RamBus.bytes m.bus) :
      ∃ m₂, Execution.lineF host m₁ = (.ok (), m₂) ∧ m₁.UnitMoved r top fpu m₂ ∧
        (RamBus.bytes m₂.bus).long top = header := by
    have there : m₁.cpu.registers.address r = m.cpu.registers.address r := by
      rw [begun]
      rfl
    obtain ⟨m₂, done, moved, found⟩ :=
      Execution.saveUnit_ram (has.begun begun) opcode frame short (there ▸ place)
    exact ⟨m₂, (Execution.lineF_save host (has.begun begun).unit opcode).trans done, moved, found⟩
  obtain ⟨model, sr, unit, address, found⟩ :=
    Machine.execute_unit host (·.long top = header) saves untraced (Execution.ofOpcode_save _ r)
      savesIt
  generalize (m.execute host).2 = m' at restores model sr unit address found
  have has' : m'.HasUnit fpu :=
    ⟨model ▸ has.takes, unit, by rw [Registers.isSupervisor, sr]; exact supervisor⟩
  have restoresIt (m₁ : Machine β) (begun : m'.cpu.BegunTo m₁.cpu)
      (opcode : m₁.cpu.opcode = Execution.restoreOpcode r)
      (same : RamBus.bytes m₁.bus = RamBus.bytes m'.bus) :
      ∃ m₂, Execution.lineF host m₁ = (.ok (), m₂) ∧
        m₁.UnitMoved r (top + BitVec.ofNat 32 (4 + 4 * body.length))
          (if fpu.justReset then fpu.reset else fpu) m₂ ∧ True := by
    have there : m₁.cpu.registers.address r = top := by
      rw [begun, ← address]
      rfl
    obtain ⟨m₂, done, moved⟩ := Execution.restoreUnit_ram (has'.begun begun) opcode
      (by rw [same, there]; exact found) back
    rw [there] at moved
    exact ⟨m₂, (Execution.lineF_restore host (has'.begun begun).unit opcode).trans done, moved,
      trivial⟩
  obtain ⟨-, -, unit', address', -⟩ :=
    Machine.execute_unit host (fun _ => True) restores (sr ▸ untraced)
      (Execution.ofOpcode_restore _ r) restoresIt
  refine ⟨unit', address'.trans ?_⟩
  rw [← place, show 4 * (body.length + 1) = 4 + 4 * body.length by omega, BitVec.sub_add_cancel]

namespace Machine

variable {β : Type} [Bus β]

/-- The next call loads registers of the unit: control registers, or data registers bit for bit. -/
def LoadsUnit (m : Machine β) : Prop :=
  ∃ before m₁ command m₂, opening m = (.ok (.perform before .lineF), m₁) ∧
    (m₁.cpu.opcode.extractLsb' 6 3).toNat = 0 ∧ fetch m₁ = (.ok command, m₂) ∧
    ((command.extractLsb' 13 3).toNat = 4 ∨ (command.extractLsb' 13 3).toNat = 6)

/-- The machines to which calls lead that do not load registers of the unit. -/
inductive RunsUnloaded (host : Fpu.HostMath) (start : Machine β) : Machine β → Prop where
  | start : RunsUnloaded host start start
  | call {m : Machine β} (run : RunsUnloaded host start m) (unloaded : ¬m.LoadsUnit) :
      RunsUnloaded host start (m.execute host).2

/-- A general instruction of the unit whose second word is not one of a load. -/
theorem course_general (host : Fpu.HostMath) (m : Machine β)
    (unloaded : ∀ command m₁, fetch m = (.ok command, m₁) →
      (command.extractLsb' 13 3).toNat ≠ 4 ∧ (command.extractLsb' 13 3).toNat ≠ 6) :
    m.cpu.Course false true (Execution.general host m).2.cpu := by
  have fetched : m.cpu.Course false true (fetch m).2.cpu := Course.fetch m
  unfold Execution.general
  rcases found : fetch m with ⟨fault | command, m₁⟩
  · rw [found] at fetched
    rw [bind_error found]
    exact fetched
  · rw [found] at fetched
    rw [bind_ok found]
    refine fetched.trans ?_
    have course {x : Action Unit}
        (composed : Composed m₁.cpu.model ⟨false, false, false, true⟩ x) :
        m₁.cpu.Course false true (x β m₁).2.cpu := composed.course m₁ rfl
    obtain ⟨four, six⟩ := unloaded command m₁ found
    generalize (command.extractLsb' 13 3).toNat = kind at four six
    match kind with
    | 0 => exact course (.computeRegister host command)
    | 2 => exact course (.ite (.loadConstant command) (.computeOperand host command))
    | 3 => exact course (.moveOut command)
    | 4 => exact absurd rfl four
    | 5 => exact course (.moveControls command true (.inl rfl))
    | 6 => exact absurd rfl six
    | 1 => exact course (.moveDataRegisters command true (.inl rfl))
    | _ + 7 => exact course (.moveDataRegisters command true (.inl rfl))

/-- An instruction of the unit that does not load its registers. -/
theorem course_lineF (host : Fpu.HostMath) (m : Machine β)
    (unloaded : (m.cpu.opcode.extractLsb' 6 3).toNat = 0 → ∀ command m₁,
      fetch m = (.ok command, m₁) →
        (command.extractLsb' 13 3).toNat ≠ 4 ∧ (command.extractLsb' 13 3).toNat ≠ 6) :
    m.cpu.Course false true (Execution.lineF host m).2.cpu := by
  have course {m : Machine β} {x : Action Unit}
      (composed : Composed m.cpu.model ⟨false, false, false, true⟩ x) :
      m.cpu.Course false true (x β m).2.cpu := composed.course m rfl
  unfold Execution.lineF
  rw [bind_ok (cpu_apply m)]
  dsimp only
  split
  · rw [bind_error (show Execution.undefined m = (.error (.exception .lineF), m) from rfl)]
    exact .refl m.cpu
  · generalize (m.cpu.opcode.extractLsb' 6 3).toNat = kind at unloaded
    match kind with
    | 0 =>
      -- only here does the instruction depend on a second word
      exact course_general host m (unloaded rfl)
    | 1 => exact course .conditional
    | 2 => exact course (.branchOnUnit false)
    | 3 => exact course (.branchOnUnit true)
    | 4 => exact course .saveUnit
    | 5 => exact course .restoreUnit
    | _ + 6 => exact course .undefined

/-- A call that does not load registers of the unit. -/
theorem course_unloaded (host : Fpu.HostMath) {m : Machine β} (unloaded : ¬m.LoadsUnit) :
    m.cpu.Course false true (m.execute host).2.cpu := by
  refine course_executeWithin_of host frameLimit m ?_
  have course {m : Machine β} {α : Type} {x : Action α}
      (composed : Composed m.cpu.model ⟨true, false, true, true⟩ x) :
      m.cpu.Course false true (x β m).2.cpu := composed.course m rfl
  have opened : m.cpu.Course false true (opening m).2.cpu := course (.opening rfl)
  rw [work_eq]
  rcases opens : opening m with ⟨fault | activity, m₁⟩
  · rw [opens] at opened
    rw [bind_error opens]
    exact opened
  · rw [opens] at opened
    rw [bind_ok opens]
    refine opened.trans ?_
    by_cases line : ∃ before, activity = .perform before .lineF
    · obtain ⟨before, rfl⟩ := line
      refine Course.bind m₁ (course_lineF host m₁ fun kind command m₂ found => ?_) fun _ =>
        course (.settle rfl before)
      exact ⟨fun four => unloaded ⟨before, m₁, command, m₂, opens, kind, found, .inl four⟩,
        fun six => unloaded ⟨before, m₁, command, m₂, opens, kind, found, .inr six⟩⟩
    · exact course (.carryOut rfl host frameLimit activity rfl rfl fun before same =>
        absurd ⟨before, same⟩ line)

/-- Nor does a run of them lose the meaning of the mark of a reset. -/
theorem RunsUnloaded.fresh {host : Fpu.HostMath} {start m : Machine β}
    (run : RunsUnloaded host start m) (begins : ∀ fpu, start.cpu.fpu = some fpu → fpu.Fresh) :
    ∀ fpu, m.cpu.fpu = some fpu → fpu.Fresh := by
  induction run with
  | start => exact begins
  | @call m _ unloaded ih =>
    intro fpu' had'
    have changes := (course_unloaded host unloaded).fpu
    rw [had'] at changes
    cases had : m.cpu.fpu with
    | none =>
      rw [had] at changes
      cases changes
    | some fpu =>
      rw [had] at changes
      exact changes.fresh (ih fpu had)

end Machine

/-- **Saving and restoring the floating-point unit loses nothing** as long as no instruction since
the reset has loaded registers of the unit. -/
theorem save_restore_of_run (host : Fpu.HostMath) {c : Cpu} {stack pc : BitVec 32} {bus : β}
    {m : Machine β} (run : Machine.RunsUnloaded host ⟨c.resetTo stack pc, bus⟩ m) {fpu : Fpu}
    (had : m.cpu.fpu = some fpu) (kind : m.cpu.model.capabilities.fpu.isSome)
    (supervisor : m.cpu.registers.isSupervisor = true)
    (untraced : m.cpu.registers.sr.has .t1 = false) (r : RegisterNumber)
    (saves : m.ComesTo (Execution.saveOpcode r))
    (restores : (m.execute host).2.ComesTo (Execution.restoreOpcode r)) :
    let m' := ((m.execute host).2.execute host).2
    (fpu.justReset = true → fpu = fpu.reset) ∧ m'.cpu.fpu = some fpu ∧
      m'.cpu.registers.address r = m.cpu.registers.address r := by
  have fresh : fpu.Fresh := by
    refine run.fresh (fun fpu had => ?_) fpu had
    obtain ⟨unit, -, rfl⟩ := Option.map_eq_some_iff.mp had
    exact Fpu.fresh_new _
  obtain ⟨unit, address⟩ := save_restore host had kind supervisor untraced r saves restores
  refine ⟨fresh, unit.trans ?_, address⟩
  cases reset : fpu.justReset with
  | false => rfl
  | true => exact congrArg some (fresh reset).symm

/-- A 68020 with a program that goes on with saving the unit on its stack and restoring it. -/
def saver (program : List (BitVec 16)) : Machine Bytes where
  cpu := (Cpu.new .m68020).resetTo 0x2000 0x1000
  bus address :=
    let words := program ++ [Execution.saveOpcode 7, Execution.restoreOpcode 7]
    let word := words.getD ((address - 0x1000).toNat / 2) 0
    if address.getLsbD 0 then word.extractLsb' 0 8 else word.extractLsb' 8 8

/-- A constant that was moved to a register is still there in the end. -/
theorem save_restore_constant :
    ¬(saver [0xF200, 0x5C00]).LoadsUnit ∧
      let m := ((saver [0xF200, 0x5C00]).execute .native).2
      ∃ fpu, m.cpu.fpu = some fpu ∧
        ((m.execute .native).2.execute .native).2.cpu.fpu = some fpu := by
  have unloaded : ¬(saver [0xF200, 0x5C00]).LoadsUnit := by
    rintro ⟨before, m₁, command, m₂, opens, -, fetched, loads⟩
    have second : (MachineM.fetch (MachineM.opening (saver [0xF200, 0x5C00])).2).1 =
        .ok 0x5C00 := by rfl
    rw [opens, fetched] at second
    obtain rfl := Except.ok.inj second
    revert loads
    decide
  refine ⟨unloaded, ?_⟩
  intro m
  have run : Machine.RunsUnloaded .native (saver [0xF200, 0x5C00]) m := .call .start unloaded
  obtain ⟨fpu, had⟩ : ∃ fpu, m.cpu.fpu = some fpu :=
    Option.isSome_iff_exists.mp (by decide +kernel)
  have kind : m.cpu.model.capabilities.fpu.isSome := by decide +kernel
  have supervisor : m.cpu.registers.isSupervisor = true := by decide +kernel
  have untraced : m.cpu.registers.sr.has .t1 = false := by decide +kernel
  have saves : m.ComesTo (Execution.saveOpcode 7) := by decide +kernel
  have restores : (m.execute .native).2.ComesTo (Execution.restoreOpcode 7) := by decide +kernel
  -- nothing below is to look into the machine
  clear_value m
  exact ⟨fpu, had,
    (save_restore_of_run .native run had kind supervisor untraced 7 saves restores).2.1⟩

/-- A control register that was loaded is not, if the unit has done nothing else since. -/
theorem saver_loses :
    let loaded := (saver [0x7010, 0xF200, 0x9000]).called .native Machine.frameLimit 2
    loaded.ComesTo (Execution.saveOpcode 7) ∧
      (loaded.execute .native).2.ComesTo (Execution.restoreOpcode 7) ∧
      loaded.cpu.fpu.map (·.control) = some 0x10 ∧
      (loaded.called .native Machine.frameLimit 2).cpu.fpu.map (·.control) = some 0 := by
  decide +kernel

end M68k
