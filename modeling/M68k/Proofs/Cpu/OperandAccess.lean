import M68k.Proofs.Cpu.Composition
import M68k.Proofs.Cpu.Inquiry

/-!
# How operands are reached

Between fetches an instruction finds addresses, reads operands and writes them.  Finding an address
may itself read memory, where a pointer is; that is part of the addressing mode and apart from the
operand.  `Machine.Reaches` says that one machine comes from another by such uses of the bus, each
made in the mode that the processor is in at that moment, and `KeepsTo` that an action does nothing
else.  By which modes an instruction finds addresses, and whether it reads its operands as parts of
the program, is its `Usage`.

* `KeepsTo.bind` — one action after the other;
* `KeepsTo.locateThen`, `KeepsTo.operand` — operands are found and read in the space of their mode;
* `Machine.Reaches.shows` — what the bus sees of it.
-/

namespace M68k

open MachineM

/-- A change of the program counter, a reset or a question about an opcode. -/
def BusEvent.IsSignal : BusEvent → Prop
  | pcChanged _ | reset | illegal _ => True
  | _ => False

/-- How an instruction uses the bus. -/
structure Usage where
  /-- The opcode, which names the operand of instructions of line F. -/
  opcode : BitVec 16
  /-- The modes by which addresses are found. -/
  modes : List AddressMode
  /-- Operands are read as parts of the program. -/
  program : Bool
  /-- Operands are in spaces that registers name. -/
  named : Bool
  /-- The status register may be replaced. -/
  switches : Bool

/-- An operand in a mode is read as the usage has it. -/
structure Usage.Reads (u : Usage) (mode : AddressMode) : Prop where
  listed : mode ∈ u.modes
  space : u.program = mode.isPcRelative

/-- The processor in the same mode, at the same instruction. -/
structure Cpu.SameSetting (c c' : Cpu) : Prop where
  model : c'.model = c.model
  opcode : c'.opcode = c.opcode
  isSupervisor : c'.registers.isSupervisor = c.registers.isSupervisor

theorem Cpu.SameSetting.refl (c : Cpu) : c.SameSetting c := ⟨rfl, rfl, rfl⟩

theorem Cpu.SameSetting.trans {c c' c'' : Cpu} (h : c.SameSetting c') (h' : c'.SameSetting c'') :
    c.SameSetting c'' :=
  ⟨h'.model.trans h.model, h'.opcode.trans h.opcode, h'.isSupervisor.trans h.isSupervisor⟩

/-- An operand that is in memory is in the space of programs or of data. -/
def Location.IsIn (program : Bool) : Location → Prop
  | .memory _ space => space = program
  | _ => True

variable {β : Type} [Bus β]

namespace Machine

/-- A machine that comes from another by fetches, by finding addresses, and by reading and writing
operands, as it is usual. -/
inductive Reaches (u : Usage) : Machine β → Machine β → Prop where
  | refl (m : Machine β) : Reaches u m m
  | trans {m m' m'' : Machine β} (first : Reaches u m m') (rest : Reaches u m' m'') :
      Reaches u m m''
  | within {m : Machine β} {cpu : Cpu} (same : m.cpu.SameSetting cpu) : Reaches u m ⟨cpu, m.bus⟩
  | signal {m : Machine β} (event : BusEvent) (signals : event.IsSignal) :
      Reaches u m ⟨m.cpu, event.apply m.bus⟩
  | fetch (m : Machine β) : Reaches u m (MachineM.fetch m).2
  | find (m : Machine β) {mode : AddressMode} (listed : mode ∈ u.modes) (bytes : Nat) :
      Reaches u m (MachineM.memoryAddress mode bytes m).2
  | read (m : Machine β) (size : Size) (address : BitVec 32) :
      Reaches u m (MachineM.load size (.memory address u.program) m).2
  | write (m : Machine β) (size : Size) (address value : BitVec 32) :
      Reaches u m (MachineM.write size address value m).2
  | readIn (m : Machine β) (may : u.named = true) (space : FunctionCode) (size : Size)
      (address : BitVec 32) : Reaches u m (MachineM.readIn space size address m).2
  | writeIn (m : Machine β) (may : u.named = true) (space : FunctionCode) (size : Size)
      (address value : BitVec 32) : Reaches u m (MachineM.writeIn space size address value m).2
  | setStatus (m : Machine β) (may : u.switches = true) (value : StatusRegister) :
      Reaches u m (MachineM.setStatus value m).2

end Machine

/-! ## What the bus sees -/

/-- Between two machines in the same mode the bus was used in ways that are allowed in that mode. -/
structure Machine.Shows (allowed : Bool → BusEvent → Prop) (m m' : Machine β) : Prop where
  setting : m.cpu.SameSetting m'.cpu
  uses : m.Uses (allowed m.cpu.registers.isSupervisor) m'

namespace Machine.Shows

variable {allowed : Bool → BusEvent → Prop} {m m' m'' : Machine β}

theorem within {cpu : Cpu} (same : m.cpu.SameSetting cpu) : m.Shows allowed ⟨cpu, m.bus⟩ :=
  ⟨same, .of_bus_eq rfl⟩

theorem refl (m : Machine β) : m.Shows allowed m := within (.refl m.cpu)

theorem trans (first : m.Shows allowed m') (rest : m'.Shows allowed m'') :
    m.Shows allowed m'' := by
  refine ⟨first.setting.trans rest.setting, first.uses.trans ?_⟩
  rw [← first.setting.isSupervisor]
  exact rest.uses

/-- One use of the bus that takes some time. -/
theorem of_event (event : BusEvent) (may : allowed m.cpu.registers.isSupervisor event) {cpu : Cpu}
    (same : m.cpu.SameSetting cpu) : m.Shows allowed ⟨cpu, event.apply m.bus⟩ :=
  ⟨same, .of_event event may⟩

theorem readIn (space : FunctionCode) (size : Size) (address : BitVec 32)
    (may : ∀ place, allowed m.cpu.registers.isSupervisor (.read size place space)) :
    m.Shows allowed (MachineM.readIn space size address m).2 := by
  rw [readIn_apply]
  dsimp only
  split
  · exact .refl m
  · split <;> exact .of_event (.read size _ space) (may _) ⟨rfl, rfl, rfl⟩

theorem writeIn (space : FunctionCode) (size : Size) (address value : BitVec 32)
    (may : ∀ place value, allowed m.cpu.registers.isSupervisor (.write size place value space)) :
    m.Shows allowed (MachineM.writeIn space size address value m).2 := by
  rw [writeIn_apply]
  dsimp only
  split
  · exact .refl m
  · split <;> exact .of_event (.write size _ _ space) (may _ _) ⟨rfl, rfl, rfl⟩

end Machine.Shows

/-- However an action ends, the bus was used in ways that are allowed. -/
abbrev Shown {α : Type} (allowed : Bool → BusEvent → Prop) (x : MachineM β α) : Prop :=
  Leads (Machine.Shows allowed) x

namespace Shown

variable {α γ : Type} {allowed : Bool → BusEvent → Prop}

theorem bind {x : MachineM β α} {f : α → MachineM β γ} (first : Shown allowed x)
    (rest : ∀ a, Shown allowed (f a)) : Shown allowed (x >>= f) := by
  refine Leads.bind ?_ first rest
  exact Machine.Shows.trans

/-- Whatever only looks at the processor. -/
theorem of_same {x : MachineM β α} (same : ∀ m, (x m).2 = m) : Shown allowed x := by
  intro m
  rw [same m]
  exact .refl m

theorem ite {c : Prop} [Decidable c] {x y : MachineM β α} (yes : Shown allowed x)
    (no : Shown allowed y) : Shown allowed (if c then x else y) := by
  split
  · exact yes
  · exact no

theorem counts (change : Registers → Registers) (same : ∀ r : Registers, r.SameSystem (change r)) :
    Shown (β := β) allowed (modifyRegisters change) :=
  fun m => .within ⟨rfl, rfl, (same m.cpu.registers).has .s (by decide)⟩

/-- Words of the instruction stream are in program space. -/
theorem fetch (fetches : ∀ s place, allowed s (.fetch place (.ofMode s true))) :
    Shown (β := β) allowed MachineM.fetch := by
  refine leads_fetch .refl ?_ (fun m => .within ⟨rfl, rfl, rfl⟩) ?_ ?_
  · exact Machine.Shows.trans
  · intro m access space
    rw [fetchFromBus_apply]
    dsimp only
    have may := fetches m.cpu.registers.isSupervisor access.address
    rw [← Cpu.programCode, ← space] at may
    split <;> exact .of_event (.fetch _ _) may ⟨rfl, rfl, rfl⟩
  · intro m address
    rw [readAhead_apply]
    refine .of_event (.fetch address m.cpu.programCode) (fetches _ _) ?_
    split <;> exact ⟨rfl, rfl, rfl⟩

theorem fetchSigned (fetches : ∀ s place, allowed s (.fetch place (.ofMode s true))) :
    Shown (β := β) allowed MachineM.fetchSigned :=
  .bind (.fetch fetches) fun _ => .of_same fun _ => rfl

theorem fetchLong (fetches : ∀ s place, allowed s (.fetch place (.ofMode s true))) :
    Shown (β := β) allowed MachineM.fetchLong :=
  .bind (.fetch fetches) fun _ => .bind (.fetch fetches) fun _ => .of_same fun _ => rfl

theorem fetchDisplacement (fetches : ∀ s place, allowed s (.fetch place (.ofMode s true)))
    (code : Nat) : Shown (β := β) allowed (MachineM.fetchDisplacement code) := by
  unfold MachineM.fetchDisplacement
  split
  · exact .fetchSigned fetches
  · exact .fetchLong fetches
  · exact .of_same fun _ => rfl

/-- Pointers are read as data, also where the operand is part of the program. -/
theorem indexed (fetches : ∀ s place, allowed s (.fetch place (.ofMode s true)))
    (pointers : ∀ s place, allowed s (.read .long place (.ofMode s false))) (base : BitVec 32) :
    Shown (β := β) allowed (MachineM.indexed base) := by
  have reads (address : BitVec 32) : Shown (β := β) allowed (MachineM.read .long address) := by
    intro m
    rw [read_apply]
    exact .readIn _ .long address (pointers _)
  refine .bind (.fetch fetches) fun extension => .bind (.of_same fun _ => rfl) fun caps =>
    .ite ?_ (.bind (.of_same fun _ => rfl) fun _ => .of_same fun _ => rfl)
  refine .bind (.of_same fun _ => rfl) fun caps => .bind (.of_same fun _ => rfl) fun rs => ?_
  refine .ite (.bind (.of_same fun _ => rfl) fun _ => ?_) ?_
  all_goals
    refine .bind (.fetchDisplacement fetches _) fun displacement =>
      .ite (.of_same fun _ => rfl) ?_
    refine .ite (.bind (.of_same fun _ => rfl) fun _ => ?_) ?_
    all_goals
      refine .bind (.fetchDisplacement fetches _) fun outer =>
        .bind (fun m => .within ⟨rfl, rfl, rfl⟩) fun _ => .ite ?_ ?_
      all_goals exact .bind (reads _) fun _ => .of_same fun _ => rfl

theorem memoryAddress (fetches : ∀ s place, allowed s (.fetch place (.ofMode s true)))
    {mode : AddressMode}
    (pointers : mode.isIndexed = true → ∀ s place, allowed s (.read .long place (.ofMode s false)))
    (bytes : Nat) : Shown (β := β) allowed (MachineM.memoryAddress mode bytes) := by
  cases mode with
  | indirect r => exact .of_same fun _ => rfl
  | postIncrement r | preDecrement r =>
    exact .bind (.of_same fun _ => rfl) fun _ =>
      .bind (.counts _ fun rs => rs.sameSystem_setAddress r _) fun _ => .of_same fun _ => rfl
  | displacement r =>
    exact .bind (.fetchSigned fetches) fun _ => .bind (.of_same fun _ => rfl) fun _ =>
      .of_same fun _ => rfl
  | index r => exact .bind (.of_same fun _ => rfl) fun base => .indexed fetches (pointers rfl) base
  | absShort => exact .fetchSigned fetches
  | absLong => exact .fetchLong fetches
  | pcDisplacement =>
    exact .bind (.of_same fun _ => rfl) fun _ => .bind (.fetchSigned fetches) fun _ =>
      .of_same fun _ => rfl
  | pcIndex => exact .bind (.of_same fun _ => rfl) fun base => .indexed fetches (pointers rfl) base
  | dataReg r => exact .of_same fun _ => rfl
  | addrReg r => exact .of_same fun _ => rfl
  | immediate => exact .of_same fun _ => rfl

end Shown

/-- An operand in memory is read in the space of programs or of data, in the mode of the machine. -/
theorem MachineM.load_memory (size : Size) (address : BitVec 32) (program : Bool) (m : Machine β) :
    load size (.memory address program) m =
      readIn (.ofMode m.cpu.registers.isSupervisor program) size address m := by
  cases program with
  | false => exact read_apply m size address
  | true => exact bind_ok (cpu_apply m) _

/-- The uses of the bus in a usage that names no spaces and keeps the mode: pointers, which only
indexed modes have, and what is written are data. -/
def Usage.Shows (u : Usage) (supervisor : Bool) : BusEvent → Prop
  | .read size _ space =>
    space = .ofMode supervisor u.program ∨
      size = .long ∧ space = .ofMode supervisor false ∧ ∃ mode ∈ u.modes, mode.isIndexed
  | .write _ _ _ space => space = .ofMode supervisor false
  | .fetch _ space => space = .ofMode supervisor true
  | event => event.IsSignal

namespace Machine.Reaches

variable {u : Usage} {m m' : Machine β}

/-- What the bus sees of it. -/
theorem shows (h : m.Reaches u m') (unnamed : u.named = false) (steady : u.switches = false) :
    m.Shows u.Shows m' := by
  induction h with
  | refl m => exact .refl m
  | trans _ _ ih ih' => exact ih.trans ih'
  | within same => exact .within same
  | signal event signals =>
    refine .of_event event ?_ (.refl _)
    cases event <;> first | exact signals | exact signals.elim
  | fetch m => exact Shown.fetch (fun _ _ => rfl) m
  | find m listed bytes =>
    exact Shown.memoryAddress (fun _ _ => rfl)
      (fun indexed _ _ => .inr ⟨rfl, rfl, _, listed, indexed⟩) bytes m
  | read m size address =>
    rw [load_memory]
    exact .readIn _ size address fun _ => .inl rfl
  | write m size address value =>
    rw [write_apply]
    exact .writeIn _ size address value fun _ _ => rfl
  | readIn m may | writeIn m may => exact absurd (unnamed.symm.trans may) Bool.false_ne_true
  | setStatus m may => exact absurd (steady.symm.trans may) Bool.false_ne_true

/-- An instruction does not change its opcode. -/
theorem opcode_eq (h : m.Reaches u m') : m'.cpu.opcode = m.cpu.opcode := by
  have kept {m m' : Machine β} (h : m.Shows (fun _ _ => True) m') : m'.cpu.opcode = m.cpu.opcode :=
    h.setting.opcode
  induction h with
  | refl m => rfl
  | trans _ _ ih ih' => exact ih'.trans ih
  | within same => exact same.opcode
  | signal event signals => rfl
  | fetch m => exact kept (Shown.fetch (fun _ _ => trivial) m)
  | find m listed bytes =>
    exact kept (Shown.memoryAddress (fun _ _ => trivial) (fun _ _ _ => trivial) bytes m)
  | read m size address =>
    rw [load_memory]
    exact kept (.readIn _ size address fun _ => trivial)
  | readIn m may space size address => exact kept (.readIn space size address fun _ => trivial)
  | write m size address value =>
    rw [write_apply]
    exact kept (.writeIn _ size address value fun _ _ => trivial)
  | writeIn m may space size address value =>
    exact kept (.writeIn space size address value fun _ _ => trivial)
  | setStatus m may value => rfl

end Machine.Reaches

/-! ## Actions -/

/-- An action of the instruction with the opcode uses the bus as it is usual. -/
def KeepsTo {α : Type} (u : Usage) (x : MachineM β α) : Prop :=
  ∀ m : Machine β, m.cpu.opcode = u.opcode → m.Reaches u (x m).2

namespace KeepsTo

variable {α γ : Type} {u : Usage}

theorem bind {x : MachineM β α} {f : α → MachineM β γ} (first : KeepsTo u x)
    (rest : ∀ a, KeepsTo u (f a)) : KeepsTo u (x >>= f) := by
  intro m known
  have reaches := first m known
  rw [bind_apply]
  generalize x m = outcome at reaches
  obtain ⟨fault | a, m'⟩ := outcome
  · exact reaches
  · exact reaches.trans (rest a m' (reaches.opcode_eq.trans known))

theorem ite {c : Prop} [Decidable c] {x y : MachineM β α} (yes : KeepsTo u x)
    (no : KeepsTo u y) : KeepsTo u (if c then x else y) := by
  split
  · exact yes
  · exact no

/-- Whatever only looks at the processor. -/
theorem look {x : MachineM β α} (same : ∀ m, (x m).2 = m) : KeepsTo u x := by
  intro m _
  rw [same m]
  exact .refl m

theorem pure (a : α) : KeepsTo u (Pure.pure a : MachineM β α) := look fun _ => rfl

theorem raise (fault : Fault) : KeepsTo u (throw fault : MachineM β α) := look fun _ => rfl

theorem map {x : MachineM β α} (f : α → γ) (h : KeepsTo u x) : KeepsTo u (f <$> x) := by
  rw [map_eq_pure_bind]
  exact bind h fun a => pure (f a)

theorem foldlM {f : γ → α → MachineM β γ} (step : ∀ c a, KeepsTo u (f c a)) (list : List α)
    (start : γ) : KeepsTo u (list.foldlM f start) := by
  induction list generalizing start with
  | nil => exact pure start
  | cons a rest ih => exact bind (step start a) fun next => ih next

theorem forM {f : α → MachineM β Unit} (step : ∀ a, KeepsTo u (f a)) (list : List α) :
    KeepsTo u (list.forM f) := by
  induction list with
  | nil => exact pure ()
  | cons a rest ih => exact bind (step a) fun _ => ih

/-! ### Within the processor -/

theorem modifyCpu {change : Cpu → Cpu} (same : ∀ c : Cpu, c.SameSetting (change c)) :
    KeepsTo (β := β) u (MachineM.modifyCpu change) :=
  fun m _ => .within (same m.cpu)

theorem modifyRegisters {change : Registers → Registers}
    (same : ∀ r : Registers, r.SameSystem (change r)) :
    KeepsTo (β := β) u (MachineM.modifyRegisters change) :=
  modifyCpu fun c => ⟨rfl, rfl, (same c.registers).has .s (by decide)⟩

theorem setData (r : RegisterNumber) (value : BitVec 32) :
    KeepsTo (β := β) u (MachineM.setData r value) :=
  modifyRegisters fun rs => rs.sameSystem_setData r value

theorem setAddress (r : RegisterNumber) (value : BitVec 32) :
    KeepsTo (β := β) u (MachineM.setAddress r value) :=
  modifyRegisters fun rs => rs.sameSystem_setAddress r value

theorem setSp (value : BitVec 32) : KeepsTo (β := β) u (MachineM.setSp value) :=
  modifyRegisters fun rs => rs.sameSystem_setSp value

theorem setCodes (codes : StatusRegister) : KeepsTo (β := β) u (MachineM.setCodes codes) :=
  modifyRegisters fun rs => rs.sameSystem_setCodes codes

theorem setStatus (may : u.switches = true) (value : StatusRegister) :
    KeepsTo (β := β) u (MachineM.setStatus value) :=
  fun m _ => .setStatus m may value

theorem spend (cycles : Nat) : KeepsTo (β := β) u (MachineM.spend cycles) :=
  modifyCpu fun _ => ⟨rfl, rfl, rfl⟩

theorem setUnit (fpu : Fpu) : KeepsTo (β := β) u (Execution.setUnit fpu) :=
  modifyCpu fun _ => ⟨rfl, rfl, rfl⟩

theorem preDecrement (r : RegisterNumber) (bytes : Nat) :
    KeepsTo (β := β) u (MachineM.preDecrement r bytes) :=
  bind (look fun _ => rfl) fun _ => bind (setAddress r _) fun _ => pure _

theorem postIncrement (r : RegisterNumber) (bytes : Nat) :
    KeepsTo (β := β) u (MachineM.postIncrement r bytes) :=
  bind (look fun _ => rfl) fun _ => bind (setAddress r _) fun _ => pure _

/-! ### The instruction stream and memory -/

theorem fetch : KeepsTo (β := β) u MachineM.fetch := fun m _ => .fetch m

theorem fetchSigned : KeepsTo (β := β) u MachineM.fetchSigned := bind fetch fun _ => pure _

theorem fetchLong : KeepsTo (β := β) u MachineM.fetchLong :=
  bind fetch fun _ => bind fetch fun _ => pure _

theorem fetchConstant (size : Size) : KeepsTo (β := β) u (MachineM.fetchConstant size) := by
  cases size with
  | byte => exact bind fetch fun _ => pure _
  | word => exact bind fetch fun _ => pure _
  | long => exact fetchLong

theorem read (data : u.program = false) (size : Size) (address : BitVec 32) :
    KeepsTo (β := β) u (MachineM.read size address) := by
  intro m _
  have reads := Machine.Reaches.read (u := u) m size address
  rwa [data] at reads

theorem write (size : Size) (address value : BitVec 32) :
    KeepsTo (β := β) u (MachineM.write size address value) :=
  fun m _ => .write m size address value

theorem push (size : Size) (value : BitVec 32) : KeepsTo (β := β) u (MachineM.push size value) :=
  bind (look fun _ => rfl) fun _ => bind (write size _ value) fun _ => setSp _

theorem pop (data : u.program = false) (size : Size) : KeepsTo (β := β) u (MachineM.pop size) :=
  bind (look fun _ => rfl) fun _ => bind (read data size _) fun _ => bind (setSp _) fun _ => pure _

theorem jump (target : BitVec 32) : KeepsTo (β := β) u (MachineM.jump target) := by
  intro m _
  rw [jump_apply]
  split
  · exact .refl m
  · exact (Machine.Reaches.signal (.pcChanged target) trivial).trans (.within ⟨rfl, rfl, rfl⟩)

/-! ### Operands -/

theorem memoryAddress {mode : AddressMode} (listed : mode ∈ u.modes) (bytes : Nat) :
    KeepsTo (β := β) u (MachineM.memoryAddress mode bytes) :=
  fun m _ => .find m listed bytes

theorem controlAddress {mode : AddressMode} (listed : mode ∈ u.modes) :
    KeepsTo (β := β) u (MachineM.controlAddress mode) :=
  memoryAddress listed _

/-- What is found is in the space of its mode. -/
theorem locateThen {mode : AddressMode} (listed : mode ∈ u.modes) (size : Size)
    {f : Location → MachineM β α}
    (rest : ∀ location : Location, location.IsIn mode.isPcRelative → KeepsTo u (f location)) :
    KeepsTo u (MachineM.locate mode size >>= f) := by
  unfold MachineM.locate
  simp only [bind_assoc]
  refine bind (look fun _ => rfl) fun c => bind (spend _) fun _ => ?_
  cases mode with
  | dataReg r => exact rest (.dataReg r) trivial
  | addrReg r => exact rest (.addrReg r) trivial
  | immediate =>
    simp only [bind_assoc]
    exact bind (fetchConstant size) fun value => rest (.constant value) trivial
  | _ =>
    simp only [bind_assoc]
    exact bind (memoryAddress listed _) fun place => rest (.memory place _) rfl

theorem load (size : Size) {location : Location} (space : location.IsIn u.program) :
    KeepsTo (β := β) u (MachineM.load size location) := by
  cases location with
  | dataReg r => exact bind (look fun _ => rfl) fun _ => pure _
  | addrReg r => exact bind (look fun _ => rfl) fun _ => pure _
  | constant value => exact pure _
  | memory place program =>
    obtain rfl : program = u.program := space
    exact fun m _ => .read m size place

theorem store (size : Size) (location : Location) (value : BitVec 32) :
    KeepsTo (β := β) u (MachineM.store size location value) := by
  cases location with
  | dataReg r => exact modifyRegisters fun rs => rs.sameSystem_setData r _
  | addrReg r => exact setAddress r value
  | memory place program => exact write size place value
  | constant value => exact raise _

/-- An operand that is only written. -/
theorem storeThen {mode : AddressMode} (listed : mode ∈ u.modes) (size : Size)
    {f : Location → MachineM β α} (rest : ∀ location, KeepsTo u (f location)) :
    KeepsTo u (MachineM.locate mode size >>= f) :=
  locateThen listed size fun location _ => rest location

/-- An operand that is read, and perhaps written after that. -/
theorem loadThen {mode : AddressMode} (reads : u.Reads mode) (size : Size)
    {f : Location → BitVec 32 → MachineM β α}
    (rest : ∀ location value, KeepsTo u (f location value)) :
    KeepsTo u (do
      let location ← MachineM.locate mode size
      let value ← MachineM.load size location
      f location value) :=
  locateThen reads.listed size fun location space =>
    bind (load size (reads.space ▸ space)) fun value => rest location value

theorem operand {mode : AddressMode} (reads : u.Reads mode) (size : Size) :
    KeepsTo (β := β) u (MachineM.operand mode size) :=
  locateThen reads.listed size fun _ space => load size (reads.space ▸ space)

/-- A constant is in the instruction stream, whatever the usage of other operands. -/
theorem constant (size : Size) : KeepsTo (β := β) u (MachineM.operand .immediate size) := by
  unfold MachineM.operand MachineM.locate
  simp only [bind_assoc]
  refine bind (look fun _ => rfl) fun c => bind (spend _) fun _ =>
    bind (fetchConstant size) fun value => ?_
  exact (load size trivial : KeepsTo (β := β) u (MachineM.load size (.constant value)))

end KeepsTo

end M68k
