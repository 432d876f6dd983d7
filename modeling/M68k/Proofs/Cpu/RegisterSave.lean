import M68k.Proofs.Cpu.ProgramInMemory

/-!
# Saving and restoring registers

A move of several registers stores them downward in memory below an address register, and loads them
from there upward.  The two name registers by opposite ends of their lists and go through them in
opposite orders, so each register gets back what was stored of it.  The address register itself may
be listed; what is stored of it depends on the model, but what is loaded to it is replaced by where
the move has ended.

* `storeDownward_ram`, `loadUpward_ram` — what the two moves do in a memory;
* `loaded_of_lost` — what was stored brings back registers that were lost in between;
* `registers_restored` — one step that saves registers and one that restores them.
-/

namespace M68k

open MachineM

variable {β : Type} [RamBus β]

namespace Execution

/-- The opcode that saves registers below an address register. -/
def saveRegisters (r : RegisterNumber) : BitVec 16 := 0x48E0#16 + BitVec.ofNat 16 r.val

/-- The opcode that restores registers from where an address register points. -/
def restoreRegisters (r : RegisterNumber) : BitVec 16 := 0x4CD8#16 + BitVec.ofNat 16 r.val

theorem ofOpcode_saveRegisters (model : Model) (r : RegisterNumber) :
    Instruction.ofOpcode model.capabilities (saveRegisters r) =
      .movem .long true (.preDecrement r) := by
  revert r
  cases model <;> decide

theorem ofOpcode_restoreRegisters (model : Model) (r : RegisterNumber) :
    Instruction.ofOpcode model.capabilities (restoreRegisters r) =
      .movem .long false (.postIncrement r) := by
  revert r
  cases model <;> decide

/-- The list that counts from the other end names the same registers, in the other order. -/
theorem downward_eq (list : BitVec 16) : downward list = (upward list.reverse).reverse := by
  unfold downward upward
  rw [List.filter_reverse]
  congr 1
  refine List.filter_congr fun n _ => ?_
  have := n.isLt
  rw [BitVec.getLsbD_reverse, BitVec.getMsbD_eq_getLsbD, decide_eq_true n.isLt, Bool.true_and]

theorem length_downward_le (list : BitVec 16) : (downward list).length ≤ 16 := by
  unfold downward
  refine (List.length_filter_le _ _).trans ?_
  rw [List.length_reverse, List.length_finRange]

/-! ## Storing -/

theorem storeBelow_ram {m : Machine β} {place : BitVec 32} (aligned : m.cpu.model.Aligned place)
    (value : BitVec 32) :
    ∃ m', storeBelow .long place value m = (.ok (place - 4), m') ∧
      m.Waited ((RamBus.bytes m.bus).store (m.cpu.model.place (place - 4)) value .long) m' := by
  obtain ⟨m', writes, waited⟩ := Machine.waits_write (aligned.sub 1) value
  exact ⟨_, (bind_ok writes _).trans rfl, waited.spend _⟩

/-- What is stored of a register, with `own` for the one that counts down. -/
def stored (r : RegisterNumber) (own : BitVec 32) (rs : Registers) (n : GeneralRegister) :
    BitVec 32 :=
  if n = .address r then own else rs.general n

/-- Stores a register below a place. -/
def storeOne (r : RegisterNumber) (own place : BitVec 32) (n : GeneralRegister) :
    MachineM β (BitVec 32) := do
  let rs ← registers
  storeBelow .long place (stored r own rs n)

/-- Registers are stored below a place, and below what was stored there before. -/
theorem storeOne_list (r : RegisterNumber) (own : BitVec 32) (list : List GeneralRegister)
    {m : Machine β} {place : BitVec 32} (aligned : m.cpu.model.Aligned place)
    {before : List (BitVec 32)} (few : before.length + list.length < 4194304)
    (holds : (RamBus.bytes m.bus).HoldsLongs m.cpu.model place before) :
    let last := place - BitVec.ofNat 32 (4 * list.length)
    ∃ m' bytes, list.foldlM (storeOne r own) place m = (.ok last, m') ∧ m.Waited bytes m' ∧
      bytes.HoldsLongs m.cpu.model last
        ((list.map (stored r own m.cpu.registers)).reverse ++ before) ∧
      ∀ byte, ¬m.cpu.model.CoversLongs last list.length byte →
        bytes byte = RamBus.bytes m.bus byte := by
  induction list generalizing m place before with
  | nil =>
    refine ⟨m, _, ?_, ⟨rfl, rfl⟩, ?_, fun _ _ => rfl⟩
    · exact Prod.ext (congrArg Except.ok (BitVec.sub_zero place).symm) rfl
    · exact (BitVec.sub_zero place).symm ▸ holds
  | cons n rest ih =>
    intro last
    let value := stored r own m.cpu.registers n
    obtain ⟨m₁, stores, waited⟩ := storeBelow_ram aligned value
    have aligned₁ : m₁.cpu.model.Aligned (place - 4) := waited.model ▸ aligned.sub 1
    have holds₁ : (RamBus.bytes m₁.bus).HoldsLongs m₁.cpu.model (place - 4) (value :: before) := by
      rw [waited.bytes, waited.model]
      refine Bytes.HoldsLongs.store ?_ (by omega) value
      rwa [BitVec.sub_add_cancel]
    rw [List.length_cons] at few
    have few₁ : (value :: before).length + rest.length < 4194304 := by
      rw [List.length_cons]
      omega
    obtain ⟨m₂, bytes, goesOn, later, holds₂, outside⟩ := ih aligned₁ few₁ holds₁
    have registers : m₁.cpu.registers = m.cpu.registers := by rw [waited.cpu]
    have end_ : place - 4 - BitVec.ofNat 32 (4 * rest.length) = last := by
      show _ = place - BitVec.ofNat 32 (4 * (rest.length + 1))
      rw [BitVec.sub_sub, Nat.mul_succ, Nat.add_comm, BitVec.ofNat_add]
      rfl
    rw [end_] at goesOn holds₂ outside
    rw [waited.model] at holds₂ outside
    refine ⟨m₂, bytes, ?_, waited.trans later, ?_, fun byte apart => ?_⟩
    · rw [List.foldlM_cons]
      exact (bind_ok stores _).trans goesOn
    · rw [registers] at holds₂
      simpa using holds₂
    · have top : last + BitVec.ofNat 32 (4 * rest.length) = place - 4 := by
        rw [← end_, BitVec.sub_add_cancel]
      rw [List.length_cons, Model.coversLongs_succ_last, not_or, top] at apart
      rw [outside byte apart.1, waited.bytes]
      exact Bytes.store_long_of_outside _ value (Nat.le_of_not_lt apart.2)

/-- The registers of a list are stored below an address register, which is lowered by four for
each. -/
theorem storeDownward_ram (r : RegisterNumber) (list : BitVec 16) {m : Machine β}
    (aligned : m.cpu.model.Aligned (m.cpu.registers.address r)) :
    let top := m.cpu.registers.address r - BitVec.ofNat 32 (4 * (downward list).length)
    ∃ m' bytes own, storeDownward .long r list m = (.ok (), m') ∧
      (m.withRegisters (m.cpu.registers.setAddress r top)).Waited bytes m' ∧
      bytes.HoldsLongs m.cpu.model top
        ((upward list.reverse).map (stored r own m.cpu.registers)) ∧
      ∀ byte, ¬m.cpu.model.CoversLongs top (downward list).length byte →
        bytes byte = RamBus.bytes m.bus byte := by
  intro top
  let start := m.cpu.registers.address r
  let own := if m.cpu.model.isEarly then start else start - BitVec.ofNat 32 Size.long.bytes
  have few : ([] : List (BitVec 32)).length + (downward list).length < 4194304 := by
    have := length_downward_le list
    rw [List.length_nil]
    omega
  obtain ⟨m', bytes, stores, waited, holds, outside⟩ :=
    storeOne_list r own (downward list) aligned few trivial
  refine ⟨m'.withRegisters (m.cpu.registers.setAddress r top), bytes, own, ?_,
    waited.withRegisters _, ?_, outside⟩
  · have registers : m'.cpu.registers = m.cpu.registers := by rw [waited.cpu]
    have lowers : setAddress r top m' =
        (.ok (), m'.withRegisters (m.cpu.registers.setAddress r top)) := by
      rw [setAddress_apply, registers]
    unfold storeDownward
    rw [bind_ok (address_apply m r), bind_ok (cpu_apply m)]
    exact (bind_ok stores _).trans lowers
  · rw [List.append_nil, ← List.map_reverse] at holds
    have upwards : (downward list).reverse = upward list.reverse := by
      rw [downward_eq, List.reverse_reverse]
    rwa [upwards] at holds

/-! ## Loading -/

/-- A register is loaded from a place. -/
theorem loadRegister_ram {m : Machine β} {place : BitVec 32} (aligned : m.cpu.model.Aligned place)
    (n : GeneralRegister) {value : BitVec 32}
    (found : (RamBus.bytes m.bus).long (m.cpu.model.place place) = value) :
    ∃ m', loadRegister .long place n m = (.ok (place + 4), m') ∧
      (m.withRegisters (m.cpu.registers.setGeneral n value)).Waited (RamBus.bytes m.bus) m' := by
  obtain ⟨m', reads, waited⟩ := Machine.waits_read aligned
  rw [found] at reads
  have whole : Size.long.signExtend value = value := by
    show (value.setWidth 32).signExtend 32 = value
    rw [BitVec.setWidth_eq, BitVec.signExtend_eq]
  have registers : m'.cpu.registers = m.cpu.registers := by rw [waited.cpu]
  have loads : modifyRegisters (·.setGeneral n (Size.long.signExtend value)) m' =
      (.ok (), m'.withRegisters (m.cpu.registers.setGeneral n value)) := by
    rw [whole, ← registers]
    rfl
  unfold loadRegister
  rw [bind_ok reads, bind_ok loads]
  exact ⟨_, rfl, (waited.withRegisters _).spend _⟩

/-- Registers are loaded from a place on. -/
theorem loadRegister_list (values : GeneralRegister → BitVec 32) (list : List GeneralRegister)
    {m : Machine β} {place : BitVec 32} (aligned : m.cpu.model.Aligned place)
    (holds : (RamBus.bytes m.bus).HoldsLongs m.cpu.model place (list.map values)) :
    ∃ m', list.foldlM (loadRegister .long) place m =
        (.ok (place + BitVec.ofNat 32 (4 * list.length)), m') ∧
      (m.withRegisters (m.cpu.registers.loaded values list)).Waited (RamBus.bytes m.bus) m' := by
  induction list generalizing m place with
  | nil =>
    exact ⟨m, Prod.ext (congrArg Except.ok (BitVec.add_zero place).symm) rfl, rfl, rfl⟩
  | cons n rest ih =>
    obtain ⟨m₁, loads, waited⟩ := loadRegister_ram aligned n holds.1
    have model : m₁.cpu.model = m.cpu.model := waited.model
    have registers : m₁.cpu.registers = m.cpu.registers.setGeneral n (values n) := by
      rw [waited.cpu]
      rfl
    have aligned₁ : m₁.cpu.model.Aligned (place + 4) := model ▸ aligned.add 1
    have holds₁ : (RamBus.bytes m₁.bus).HoldsLongs m₁.cpu.model (place + 4) (rest.map values) := by
      rw [waited.bytes, model]
      exact holds.2
    obtain ⟨m₂, goesOn, later⟩ := ih aligned₁ holds₁
    rw [waited.bytes, registers] at later
    refine ⟨m₂, ?_, (waited.withRegisters _).trans later⟩
    rw [List.foldlM_cons, bind_ok loads, goesOn, Model.add_succ]
    rfl

/-- The registers of a list are loaded from where an address register points, which is raised by
four for each. -/
theorem loadUpward_ram (r : RegisterNumber) (list : BitVec 16)
    (values : GeneralRegister → BitVec 32) {m : Machine β}
    (aligned : m.cpu.model.Aligned (m.cpu.registers.address r))
    (holds : (RamBus.bytes m.bus).HoldsLongs m.cpu.model (m.cpu.registers.address r)
      ((upward list).map values)) :
    let top := m.cpu.registers.address r + BitVec.ofNat 32 (4 * (upward list).length)
    ∃ m', (do setAddress r (← (upward list).foldlM (loadRegister .long) (← address r))) m =
        (.ok (), m') ∧
      (m.withRegisters ((m.cpu.registers.loaded values (upward list)).setAddress r top)).Waited
        (RamBus.bytes m.bus) m' := by
  intro top
  obtain ⟨m', loads, waited⟩ := loadRegister_list values (upward list) aligned holds
  have registers : m'.cpu.registers = m.cpu.registers.loaded values (upward list) := by
    rw [waited.cpu]
    rfl
  rw [bind_ok (address_apply m r), bind_ok loads, setAddress_apply, registers]
  exact ⟨_, rfl, waited.withRegisters _⟩

/-! ## Registers that were lost in between -/

section Lost

variable {r : RegisterNumber} {list : BitVec 16} {rs rs' : Registers} {top : BitVec 32}
  (lost : (rs.setAddress r top).advanced.SameBut (fun n => n ∈ downward list ∧ n ≠ .address r) rs')
include lost

theorem general_of_lost {n : GeneralRegister} (kept : ¬(n ∈ downward list ∧ n ≠ .address r)) :
    rs'.general n = if n = .address r then top else rs.general n := by
  rw [lost.general n kept, Registers.general_advanced, ← Registers.general_setGeneral,
    Registers.setGeneral_address]

theorem address_of_lost : rs'.address r = top := by
  rw [← Registers.general_address, general_of_lost lost fun listed => listed.2 rfl, if_pos rfl]

theorem aside_of_lost : rs'.aside = rs.advanced.aside := by
  rw [lost.aside, Registers.aside_advanced, Registers.aside_setAddress]
  rfl

/-- Loading what was stored of the registers of the list brings them back, whatever was stored of
the address register. -/
theorem loaded_of_lost (own : BitVec 32) :
    (rs'.advanced.loaded (stored r own rs) (upward list.reverse)).setAddress r (rs.address r) =
      rs.advanced.advanced := by
  refine Registers.ext_general ?_ fun n => ?_
  · rw [Registers.aside_setAddress, Registers.aside_loaded, Registers.aside_advanced,
      aside_of_lost lost]
    rfl
  · have listed : n ∈ upward list.reverse ↔ n ∈ downward list := by
      rw [downward_eq, List.mem_reverse]
    rw [← Registers.setGeneral_address, Registers.general_setGeneral, Registers.general_loaded]
    by_cases counts : n = .address r
    · rw [if_pos counts, counts]
      exact (rs.general_address r).symm
    · rw [if_neg counts]
      by_cases member : n ∈ upward list.reverse
      · rw [if_pos member]
        exact if_neg counts
      · rw [if_neg member]
        have kept : ¬(n ∈ downward list ∧ n ≠ .address r) := fun both => member (listed.mpr both.1)
        exact (general_of_lost lost kept).trans (if_neg counts)

end Lost

end Execution

open Execution

variable (host : Fpu.HostMath) (limit : Nat) {m : Machine β} (r : RegisterNumber)
  (list : BitVec 16) {rest : List (BitVec 16)}

/-- A step that saves registers. -/
theorem step_saveRegisters (aligned : m.cpu.model.Aligned (m.cpu.registers.address r))
    (program : m.Streams (saveRegisters r :: list :: rest)) :
    let rs := m.cpu.registers
    let top := rs.address r - BitVec.ofNat 32 (4 * (downward list).length)
    ∃ m' bytes own, step host limit m = (plainEnd rs.sr, m') ∧
      m.StepsTo (rs.setAddress r top).advanced m.cpu.fpu bytes rest m' ∧
      bytes.HoldsLongs m.cpu.model top ((upward list.reverse).map (stored r own rs)) ∧
      ∀ byte, ¬m.cpu.model.CoversLongs top (downward list).length byte →
        bytes byte = RamBus.bytes m.bus byte := by
  intro rs top
  obtain ⟨m₁, performs, steps⟩ := program.step host limit
  have there : m₁.cpu.registers.address r = rs.address r := by
    rw [performs.registers, Registers.address_advanced]
  obtain ⟨m₂, bytes, own, saves, waited, holds, outside⟩ :=
    storeDownward_ram r list (m := m₁) (by rw [performs.model, there]; exact aligned)
  have same : stored r own m₁.cpu.registers = stored r own rs := by
    rw [performs.registers]
    rfl
  rw [there, performs.model, same] at holds
  rw [there, performs.model, performs.bytes] at outside
  rw [there, performs.registers, Registers.setAddress_advanced] at waited
  obtain ⟨m', stepped, left⟩ := steps m₂ _ m.cpu.fpu bytes
    (fun m₀ _ _ fetched => by
      rw [Cpu.capabilities_eq, ofOpcode_saveRegisters]
      exact (bind_ok fetched _).trans saves)
    (by rw [← performs.fpu]; exact waited) (Registers.pc_advanced (rs.aside_setAddress r _))
  exact ⟨m', bytes, own, stepped, left, holds, outside⟩

/-- A step that restores registers. -/
theorem step_restoreRegisters (values : GeneralRegister → BitVec 32)
    (aligned : m.cpu.model.Aligned (m.cpu.registers.address r))
    (program : m.Streams (restoreRegisters r :: list :: rest))
    (holds : (RamBus.bytes m.bus).HoldsLongs m.cpu.model (m.cpu.registers.address r)
      ((upward list).map values)) :
    let rs := m.cpu.registers
    let top := rs.address r + BitVec.ofNat 32 (4 * (upward list).length)
    ∃ m', step host limit m = (plainEnd rs.sr, m') ∧
      m.StepsTo ((rs.advanced.loaded values (upward list)).setAddress r top) m.cpu.fpu
        (RamBus.bytes m.bus) rest m' := by
  intro rs top
  obtain ⟨m₁, performs, steps⟩ := program.step host limit
  have there : m₁.cpu.registers.address r = rs.address r := by
    rw [performs.registers, Registers.address_advanced]
  obtain ⟨m₂, loads, waited⟩ := loadUpward_ram r list values (m := m₁)
    (by rw [performs.model, there]; exact aligned)
    (by rw [performs.bytes, performs.model, there]; exact holds)
  rw [there, performs.registers, performs.bytes] at waited
  refine steps m₂ _ m.cpu.fpu _ (fun m₀ _ _ fetched => ?_)
    (by rw [← performs.fpu]; exact waited) ?_
  · rw [Cpu.capabilities_eq, ofOpcode_restoreRegisters]
    exact (bind_ok fetched _).trans loads
  · have aside : ((rs.advanced.loaded values (upward list)).setAddress r top).aside =
        rs.advanced.aside := by
      rw [Registers.aside_setAddress, Registers.aside_loaded]
    exact (Registers.of_aside aside).1

/-- **Registers are restored.**  One step saves the registers of a list below an address register,
which it lowers by four for each.  Then a step with the reversed list restores them: whatever
becomes of the listed registers in between, that address register apart, all registers are as they
were before, and only the program counters have gone on.

The program is where the processor fetches it, and what the second step fetches of it is not where
registers are saved.  Models that need operands at even addresses find one in the address
register. -/
theorem registers_restored (aligned : m.cpu.model.Aligned (m.cpu.registers.address r))
    (program : m.Streams [saveRegisters r, list, restoreRegisters r, list.reverse])
    (apart : ∀ byte, m.cpu.model.Covers (m.cpu.registers.pc + 4) 2 byte →
      ¬m.cpu.model.CoversLongs
        (m.cpu.registers.address r - BitVec.ofNat 32 (4 * (downward list).length))
        (downward list).length byte) :
    let rs := m.cpu.registers
    let saved := step host limit m
    saved.1 = plainEnd rs.sr ∧
      saved.2.cpu.registers =
        (rs.setAddress r
          (rs.address r - BitVec.ofNat 32 (4 * (downward list).length))).advanced ∧
      ∀ rs', saved.2.cpu.registers.SameBut (fun n => n ∈ downward list ∧ n ≠ .address r) rs' →
        let restored := step host limit (saved.2.withRegisters rs')
        restored.1 = plainEnd rs.sr ∧ restored.2.cpu.registers = rs.advanced.advanced := by
  intro rs saved
  obtain ⟨m', bytes, own, stepped, left, holds, outside⟩ :=
    step_saveRegisters host limit r list aligned program
  obtain rfl : m' = saved.2 := (congrArg Prod.snd stepped).symm
  refine ⟨congrArg Prod.fst stepped, left.registers, fun rs' same => ?_⟩
  let top := rs.address r - BitVec.ofNat 32 (4 * (downward list).length)
  have lost : (rs.setAddress r top).advanced.SameBut _ rs' := left.registers ▸ same
  have there : rs'.address r = top := address_of_lost lost
  -- what the first step has saved is what the second one finds
  have goesOn : (saved.2.withRegisters rs').Streams [restoreRegisters r, list.reverse] := by
    have pc := Registers.pc_advanced (rs.aside_setAddress r top)
    have streams := left.streams fun byte covered => outside byte (apart byte (pc ▸ covered))
    exact streams.kept rfl (Registers.of_aside same.aside).1 rfl fun _ _ => rfl
  have found : (RamBus.bytes (saved.2.withRegisters rs').bus).HoldsLongs saved.2.cpu.model
      (rs'.address r) ((upward list.reverse).map (stored r own rs)) := by
    rw [there, left.model]
    exact left.bytes ▸ holds
  have aligned' : saved.2.cpu.model.Aligned (rs'.address r) := by
    rw [there, left.model]
    exact aligned.sub _
  obtain ⟨m'', stepped', left'⟩ := step_restoreRegisters host limit r list.reverse
    (stored r own rs) (m := saved.2.withRegisters rs') aligned' goesOn found
  obtain rfl : m'' = (step host limit (saved.2.withRegisters rs')).2 :=
    (congrArg Prod.snd stepped').symm
  have back : rs'.address r + BitVec.ofNat 32 (4 * (upward list.reverse).length) =
      rs.address r := by
    rw [there, ← List.length_reverse, ← downward_eq]
    exact BitVec.sub_add_cancel _ _
  refine ⟨(congrArg Prod.fst stepped').trans
    (congrArg plainEnd (Registers.of_aside (aside_of_lost lost)).2), left'.registers.trans ?_⟩
  show (rs'.advanced.loaded _ _).setAddress r (rs'.address r + _) = _
  rw [back]
  exact loaded_of_lost lost own

/-- A 68000 that saves D0, D1 and its stack pointer on the stack and restores them. -/
def stacker : Machine Bytes where
  cpu := (Cpu.new .m68000).resetTo 0x4000 0x1000
  bus := .program 0x1000 [0x48E7, 0xC001, 0x4CDF, 0x8003]

/-- The stack pointer is back although it was loaded, and so is D1 although it was overwritten. -/
theorem registers_restored_stacker :
    let saved := (step .native 1 stacker).2
    saved.cpu.registers.sp = 0x3FF4 ∧
      (step .native 1 (saved.withRegisters (saved.cpu.registers.setGeneral 1 5))).2.cpu.registers =
        stacker.cpu.registers.advanced.advanced := by
  have apart (byte : BitVec 32) (covered : Model.m68000.Covers 0x1004 2 byte) :
      ¬Model.m68000.CoversLongs 0x3FF4 3 byte := by
    obtain ⟨i, few, here⟩ := covered
    obtain rfl | rfl : i = 0 ∨ i = 1 := by omega
    all_goals
      obtain rfl | rfl := here
      all_goals decide
  have count : (downward 0xC001).length = 3 := by decide +kernel
  obtain ⟨-, -, restores⟩ := registers_restored .native 1 (m := stacker) 7 0xC001
    (fun _ => by decide) (by decide +kernel) (by rw [count]; exact apart)
  have lowered : (step .native 1 stacker).2.cpu.registers.sp = 0x3FF4 := by decide +kernel
  -- nothing below is to look into the machine
  generalize step .native 1 stacker = saved at lowered restores ⊢
  refine ⟨lowered, (restores _ ⟨Registers.aside_setGeneral _ 1 5, fun n unlisted => ?_⟩).2⟩
  rw [Registers.general_setGeneral, if_neg]
  rintro rfl
  exact unlisted (by decide +kernel)

end M68k
