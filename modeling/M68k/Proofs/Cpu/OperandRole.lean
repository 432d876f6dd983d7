import M68k.Proofs.Cpu.Composition
import M68k.Proofs.Cpu.Inquiry
import M68k.Proofs.Cpu.InstructionStream

/-!
# What instructions do with the operands that they find

An instruction plays one of three roles.  It reads its operands, which may be anywhere, and writes
nothing to memory; or it pushes addresses on the stack; or it writes memory.  In the last role it
finds places in memory in alterable modes only, and does not see where in the program it is, so
that nothing it writes to is relative to the program counter.  In no role does it ask for the
address of a register or of a constant.

`Conforms` says that an action plays a role, by the elementary actions that it is put together
from.  The exception of illegal instructions is not among them, except for instructions that are to
raise it, so that where it is raised there is a reason.

* `Conforms.locate`, `Conforms.locateToWrite` — operands that are only read are found in any mode,
  those that are written in alterable ones;
* `Conforms.accounted` — the reason of every exception of illegal instructions.
-/

namespace M68k

/-- What an action does with memory besides finding and reading operands. -/
inductive Role where
  /-- It pushes addresses on the stack, and changes no register besides. -/
  | pushing
  /-- It changes registers, and may or may not write memory. -/
  | working (writes : Bool)
  deriving DecidableEq

/-- The modes in which an action may find a place in memory. -/
def Role.mayFind : Role → AddressMode → Bool
  | pushing => AddressMode.isControl
  | working true => AddressMode.isMemoryAlterable
  | working false => AddressMode.isMemory

/-- No role finds registers or constants. -/
theorem Role.isMemory_of_mayFind {role : Role} {mode : AddressMode}
    (may : role.mayFind mode = true) : mode.isMemory = true := by
  match role with
  | pushing => exact AddressMode.isMemory_of_isControl may
  | working true => exact (Bool.and_eq_true_iff.mp may).1
  | working false => exact may

/-- What writes memory finds it in alterable modes. -/
theorem Role.working_mayFind {writes : Bool} {mode : AddressMode} (isMemory : mode.isMemory = true)
    (alterable : writes = true → mode.isAlterable = true) :
    (Role.working writes).mayFind mode = true := by
  cases writes with
  | false => exact isMemory
  | true => exact Bool.and_eq_true_iff.mpr ⟨isMemory, alterable rfl⟩

/-- The registers with another program counter. -/
def Registers.withPc (rs : Registers) (pc : BitVec 32) : Registers := { rs with pc }

namespace Cpu

/-- The processor at another place of the program. -/
def elsewhere (c : Cpu) (pc : BitVec 32) (prefetched : Option Prefetched) : Cpu :=
  { c with registers := c.registers.withPc pc, prefetched }

/-- A change in the course of an instruction, which has nothing to do with the place of the
instruction in the program. -/
structure Steady (change : Cpu → Cpu) : Prop where
  blind : ∀ c pc prefetched,
    change (c.elsewhere pc prefetched) = (change c).elsewhere pc prefetched
  model : ∀ c, (change c).model = c.model
  opcode : ∀ c, (change c).opcode = c.opcode
  ppc : ∀ c, (change c).registers.ppc = c.registers.ppc
  prefetch : ∀ c, (change c).prefetch = c.prefetch

end Cpu

/-- A fault that leads to the exception of illegal instructions. -/
def Fault.IsIllegal : Fault → Prop
  | exception vector | trap vector => vector = .illegalInstruction
  | bus _ | address _ | unfinished => False

instance : (fault : Fault) → Decidable fault.IsIllegal
  | .exception vector | .trap vector =>
    inferInstanceAs (Decidable (vector = VectorNumber.illegalInstruction))
  | .bus _ | .address _ | .unfinished => .isFalse id

theorem Fault.IsAccess.not_isIllegal {fault : Fault} (access : fault.IsAccess) :
    ¬fault.IsIllegal := by
  cases access <;> exact id

/-- What an action can result in, on some machine. -/
def CanYield {α : Type} (x : Action α) (a : α) : Prop :=
  ∃ (β : Type) (_ : Bus β) (m m' : Machine β), x β m = (.ok a, m')

/-- An action that plays a role in an instruction. -/
inductive Conforms (instruction : Instruction) : Role → {α : Type} → Action α → Prop where
  | pure (a : α) : Conforms instruction role fun _ _ => Pure.pure a
  | sequence {x : Action α} {f : α → Action γ} (first : Conforms instruction role x)
      (rest : ∀ a, CanYield x a → Conforms instruction role (f a)) :
      Conforms instruction role fun β _ => x β >>= fun a => f a β
  | raise (fault : Fault) (other : ¬fault.IsIllegal) :
      Conforms instruction role fun β _ => (throw fault : MachineM β α)
  /-- What writes memory does not look at its place in the program. -/
  | cpu {f : Cpu → Action α}
      (blind : role = .working true → ∀ c pc prefetched (β : Type) [Bus β],
        f (c.elsewhere pc prefetched) β = f c β)
      (rest : ∀ c, Conforms instruction role (f c)) :
      Conforms instruction role fun β _ => MachineM.cpu >>= fun c => f c β
  | fetch : Conforms instruction role fun _ _ => MachineM.fetch
  | find (mode : AddressMode) (bytes : Nat) (may : role.mayFind mode = true) :
      Conforms instruction role fun _ _ => MachineM.memoryAddress mode bytes
  /-- What writes memory may see the value of any operand, but not where it is. -/
  | view (mode : AddressMode) (size : Size)
      (reads : Conforms instruction (.working false) fun _ _ => MachineM.operand mode size) :
      Conforms instruction (.working true) fun _ _ => MachineM.operand mode size
  | readIn (space : FunctionCode) (size : Size) (address : BitVec 32) :
      Conforms instruction role fun _ _ => MachineM.readIn space size address
  | jump (target : BitVec 32) : Conforms instruction role fun _ _ => MachineM.jump target
  | resetLine : Conforms instruction role fun _ _ => MachineM.onBus fun b => ((), Bus.reset b)
  | change {change : Cpu → Cpu} (steady : Cpu.Steady change) :
      Conforms instruction (.working writes) fun _ _ => MachineM.modifyCpu change
  | writeIn (space : FunctionCode) (size : Size) (address value : BitVec 32) :
      Conforms instruction (.working true) fun _ _ => MachineM.writeIn space size address value
  | push (size : Size) (value : BitVec 32) :
      Conforms instruction .pushing fun _ _ => MachineM.push size value
  -- what is to raise the exception of illegal instructions
  | illegal (is : instruction = .illegal ∨ instruction = .bkpt) :
      Conforms instruction role fun _ _ => Execution.illegal
  | movec (toControl : Bool) (is : instruction = .movec toControl) :
      Conforms instruction role fun _ _ => Execution.movec toControl

/-- An action that plays one role.  It may find out which one by what it sees in any of them. -/
inductive Agrees (instruction : Instruction) : {α : Type} → Action α → Prop where
  | plays (role : Role) {x : Action α} (h : Conforms instruction role x) : Agrees instruction x
  | bind {x : Action α} {f : α → Action γ} (first : ∀ role, Conforms instruction role x)
      (rest : ∀ a, Agrees instruction (f a)) :
      Agrees instruction fun β _ => x β >>= fun a => f a β
  | cpu {f : Cpu → Action α}
      (blind : ∀ c pc prefetched (β : Type) [Bus β], f (c.elsewhere pc prefetched) β = f c β)
      (rest : ∀ c, Agrees instruction (f c)) :
      Agrees instruction fun β _ => MachineM.cpu >>= fun c => f c β

/-! ## Reasons for the exception -/

namespace Machine

variable {β : Type} [Bus β]

/-- The same instruction goes on. -/
structure GoesOn (m m' : Machine β) : Prop where
  model : m'.cpu.model = m.cpu.model
  opcode : m'.cpu.opcode = m.cpu.opcode
  ppc : m'.cpu.registers.ppc = m.cpu.registers.ppc
  bus : m.Uses (fun _ => True) m'

namespace GoesOn

variable {m m' m'' : Machine β}

theorem refl (m : Machine β) : m.GoesOn m := ⟨rfl, rfl, rfl, .refl m⟩

theorem trans (h : m.GoesOn m') (h' : m'.GoesOn m'') : m.GoesOn m'' where
  model := h'.model.trans h.model
  opcode := h'.opcode.trans h.opcode
  ppc := h'.ppc.trans h.ppc
  bus := h.bus.trans h'.bus

theorem capabilities (h : m.GoesOn m') : m'.cpu.capabilities = m.cpu.capabilities :=
  Cpu.capabilities_congr h.model

theorem of_staysWith {allowed : BusEvent → Prop} {rs : Registers}
    (stays : m.StaysWith allowed rs m') (ppc : rs.ppc = m.cpu.registers.ppc) : m.GoesOn m' := by
  refine ⟨?_, ?_, ?_, stays.bus.mono fun _ _ => trivial⟩
  · rw [stays.cpu]
  · rw [stays.cpu]
  · rw [stays.cpu]
    exact ppc

theorem of_stays {allowed : BusEvent → Prop} (stays : m.Stays allowed m') : m.GoesOn m' :=
  of_staysWith stays rfl

/-- A change of registers. -/
theorem of_registers {rs : Registers} (ppc : rs.ppc = m.cpu.registers.ppc) :
    m.GoesOn (m.withRegisters rs) :=
  ⟨rfl, rfl, ppc, .refl m⟩

/-- One use of the bus that takes some time. -/
theorem of_event (event : BusEvent) (cycles : Nat) :
    m.GoesOn ⟨{ m.cpu with cycles }, event.apply m.bus⟩ :=
  ⟨rfl, rfl, rfl, .of_event event trivial⟩

end GoesOn

/-- Why an instruction that has begun on one machine has ended, on another, in the exception of
illegal instructions. -/
inductive RaisesIllegal (instruction : Instruction) (m m' : Machine β) : Prop where
  /-- It is not an instruction of the model, and the bus does not know it either. -/
  | unknown {m₁ : Machine β} (is : instruction = .illegal ∨ instruction = .bkpt)
      (course : m.GoesOn m₁) (asked : (Bus.illegal m.cpu.opcode m₁.bus).1 = false)
  /-- It has an extension word of the full format that is reserved. -/
  | reserved {m₁ m₂ : Machine β} {base : BitVec 32} {extension : BitVec 16} (course : m.GoesOn m₁)
      (fetched : MachineM.fetch m₁ = (.ok extension, m₂))
      (reserved : reservedFormat m.cpu.capabilities extension = true)
      (ends : MachineM.fullIndex base extension m₂ = (.error (.exception .illegalInstruction), m'))
  /-- It moves a control register that the model does not have. -/
  | control {m₁ : Machine β} {toControl : Bool} {extension : BitVec 16}
      (is : instruction = .movec toControl) (course : m.GoesOn m₁)
      (fetched : MachineM.fetch m₁ = (.ok extension, m'))
      (lacks : ControlRegister.ofCode? m.cpu.capabilities m.cpu.model (extension.toNat % 0x1000) =
        none)

/-- The reason is the same from an earlier point of the instruction on. -/
theorem RaisesIllegal.earlier {instruction : Instruction} {m m₁ m' : Machine β}
    (before : m.GoesOn m₁) (h : m₁.RaisesIllegal instruction m') :
    m.RaisesIllegal instruction m' := by
  cases h with
  | unknown is course asked =>
    rw [before.opcode] at asked
    exact .unknown is (before.trans course) asked
  | reserved course fetched reserved ends =>
    rw [before.capabilities] at reserved
    exact .reserved (before.trans course) fetched reserved ends
  | control is course fetched lacks =>
    rw [before.capabilities, before.model] at lacks
    exact .control is (before.trans course) fetched lacks

/-- The instruction has gone on, and if it has ended in the exception of illegal instructions there
is a reason. -/
structure Accounts (instruction : Instruction) {α : Type} (m : Machine β)
    (outcome : Except Fault α × Machine β) : Prop where
  course : m.GoesOn outcome.2
  reason : ∀ fault, outcome.1 = .error fault → fault.IsIllegal →
    m.RaisesIllegal instruction outcome.2

end Machine

namespace Machine.Accounts

open MachineM

variable {β α γ : Type} [Bus β] {instruction : Instruction}

theorem bind {m : Machine β} {x : MachineM β α} {f : α → MachineM β γ}
    (first : m.Accounts instruction (x m))
    (rest : ∀ a m', x m = (.ok a, m') → m'.Accounts instruction (f a m')) :
    m.Accounts instruction ((x >>= f) m) := by
  rcases done : x m with ⟨fault | a, m'⟩
  · rw [bind_error done]
    rw [done] at first
    exact ⟨first.course, fun _ same => first.reason _ (congrArg _ (Except.error.inj same))⟩
  · rw [bind_ok done]
    rw [done] at first
    obtain ⟨course, reason⟩ := rest a m' done
    exact ⟨first.course.trans course, fun fault fails illegal =>
      .earlier first.course (reason fault fails illegal)⟩

/-- What only looks at the machine. -/
theorem looks {x : MachineM β α} {a : α} {m : Machine β} (done : x m = (.ok a, m)) :
    m.Accounts instruction (x m) := by
  rw [done]
  exact ⟨.refl m, nofun⟩

/-- What can only fail by an access needs no reason. -/
theorem of_failsByAccess {x : MachineM β α} (fails : FailsByAccess x) {m : Machine β}
    (course : m.GoesOn (x m).2) : m.Accounts instruction (x m) := by
  refine ⟨course, fun fault failed illegal => ?_⟩
  have access := fails (Prod.ext failed rfl : x m = (.error fault, (x m).2))
  exact absurd illegal access.not_isIllegal

theorem fetch (m : Machine β) : m.Accounts instruction (MachineM.fetch m) :=
  of_failsByAccess .fetch (.of_stays (Quiet.asks m))

/-- What follows an extension word may give it as the reason. -/
theorem afterFetch {f : BitVec 16 → MachineM β α} {m : Machine β}
    (rest : ∀ extension m₁, MachineM.fetch m = (.ok extension, m₁) → m.GoesOn m₁ →
      m.Accounts instruction (f extension m₁)) :
    m.Accounts instruction ((MachineM.fetch >>= f) m) := by
  have first : m.Accounts instruction (MachineM.fetch m) := fetch m
  rcases fetched : MachineM.fetch m with ⟨fault | extension, m₁⟩
  · rw [fetched] at first
    rw [bind_error fetched]
    exact ⟨first.course, fun _ same => first.reason _ (congrArg _ (Except.error.inj same))⟩
  · rw [fetched] at first
    rw [bind_ok fetched]
    exact rest extension m₁ fetched first.course

/-- An index that is not found, and not for a failed access, has a reserved extension word. -/
theorem indexed (base : BitVec 32) (m : Machine β) :
    m.Accounts instruction (MachineM.indexed base m) := by
  refine afterFetch fun extension m₁ fetched course => ?_
  rw [bind_ok (capabilities_apply m₁), course.capabilities]
  split
  · next full =>
    have found : m₁.GoesOn (MachineM.fullIndex base extension m₁).2 :=
      .of_stays (Quiet.fullIndex base extension m₁)
    refine ⟨course.trans found, fun fault fails illegal => ?_⟩
    have tells := Tells.fullIndex base full m₁
    rw [fails] at tells
    rcases tells with access | ⟨reserved, rfl⟩
    · exact absurd illegal access.not_isIllegal
    · exact .reserved (.refl m) fetched reserved (Prod.ext fails rfl)
  · exact ⟨course, nofun⟩

/-- The search for a place in memory goes on, unless its extension word is reserved. -/
theorem memoryAddress {mode : AddressMode} (isMemory : mode.isMemory = true) (bytes : Nat)
    (m : Machine β) : m.Accounts instruction (MachineM.memoryAddress mode bytes m) := by
  have steady (steady : mode.steps = false) : m.GoesOn (MachineM.memoryAddress mode bytes m).2 :=
    .of_stays (Quiet.memoryAddress steady bytes m)
  cases mode with
  | indirect r => exact looks rfl
  | postIncrement r => exact ⟨.of_registers (m.cpu.registers.sameSystem_setAddress r _).ppc, nofun⟩
  | preDecrement r => exact ⟨.of_registers (m.cpu.registers.sameSystem_setAddress r _).ppc, nofun⟩
  | displacement r =>
    refine of_failsByAccess (.bind .fetchSigned fun offset => ?_) (steady rfl)
    exact .bind (.of_ok fun m => ⟨_, m, rfl⟩) fun base => .of_ok fun m => ⟨_, m, rfl⟩
  | index r => exact bind (looks rfl) fun base m' _ => indexed base m'
  | absShort => exact of_failsByAccess .fetchSigned (steady rfl)
  | absLong => exact of_failsByAccess .fetchLong (steady rfl)
  | pcDisplacement =>
    refine of_failsByAccess (.bind (.of_ok fun m => ⟨_, m, rfl⟩) fun base => ?_) (steady rfl)
    exact .bind .fetchSigned fun offset => .of_ok fun m => ⟨_, m, rfl⟩
  | pcIndex => exact bind (looks rfl) fun base m' _ => indexed base m'
  | dataReg r => cases isMemory
  | addrReg r => cases isMemory
  | immediate => cases isMemory

theorem readIn (space : FunctionCode) (size : Size) (address : BitVec 32) (m : Machine β) :
    m.Accounts instruction (MachineM.readIn space size address m) :=
  of_failsByAccess (.readIn space size address) (.of_stays (Quiet.readIn space size address m))

theorem writeIn (space : FunctionCode) (size : Size) (address value : BitVec 32) (m : Machine β) :
    m.Accounts instruction (MachineM.writeIn space size address value m) := by
  refine of_failsByAccess (.writeIn space size address value) ?_
  rw [writeIn_apply]
  dsimp only
  split
  · exact .refl m
  · split
    all_goals exact .of_event (.write size _ (size.truncate value) space) _

theorem jump (target : BitVec 32) (m : Machine β) :
    m.Accounts instruction (MachineM.jump target m) := by
  refine of_failsByAccess (.jump target) ?_
  rw [jump_apply]
  split
  · exact .refl m
  · exact ⟨rfl, rfl, rfl, .of_event (.pcChanged target) trivial⟩

theorem push (size : Size) (value : BitVec 32) (m : Machine β) :
    m.Accounts instruction (MachineM.push size value m) := by
  refine bind (looks (sp_apply m)) fun top m₁ _ => bind ?_ fun _ m₂ _ => ?_
  · rw [write_apply]
    exact writeIn _ size _ value m₁
  · rw [setSp_apply]
    exact ⟨.of_registers (m₂.cpu.registers.sameSystem_setSp _).ppc, nofun⟩

theorem requireSupervisor (m : Machine β) :
    m.Accounts instruction (MachineM.requireSupervisor m) := by
  rw [requireSupervisor_apply]
  refine ⟨.refl m, fun fault fails illegal => ?_⟩
  dsimp only at fails
  split at fails
  · cases fails
  · cases fails
    cases illegal

/-- What is to raise the exception does so for its own reason. -/
theorem illegal (is : instruction = .illegal ∨ instruction = .bkpt) (m : Machine β) :
    m.Accounts instruction (Execution.illegal m) := by
  unfold Execution.illegal
  rw [bind_ok (cpu_apply m), bind_ok (onBus_apply m _)]
  have course : m.GoesOn ⟨m.cpu, (Bus.illegal m.cpu.opcode m.bus).2⟩ :=
    ⟨rfl, rfl, rfl, .of_event (.illegal m.cpu.opcode) trivial⟩
  cases asked : (Bus.illegal m.cpu.opcode m.bus).1 with
  | true => exact ⟨course, nofun⟩
  | false => exact ⟨course, fun _ _ _ => .unknown is (.refl m) asked⟩

theorem movec {toControl : Bool} (is : instruction = .movec toControl) (m : Machine β) :
    m.Accounts instruction (Execution.movec toControl m) := by
  refine bind (requireSupervisor m) fun _ m₀ _ => afterFetch fun extension m₁ fetched course => ?_
  rw [bind_ok (cpu_apply m₁)]
  rcases found : ControlRegister.ofCode? m₁.cpu.capabilities m₁.cpu.model
    (extension.toNat % 0x1000) with _ | control
  · rw [course.capabilities, course.model] at found
    exact ⟨course, fun _ _ _ => .control is (.refl m₀) fetched found⟩
  · refine ⟨course.trans (.of_registers ?_), nofun⟩
    cases toControl with
    | true => cases control <;> rfl
    | false => exact (Registers.sameSystem_setGeneral _ _ _).ppc

end Machine.Accounts

/-- **An action that plays a role raises the exception of illegal instructions for a reason
only.** -/
theorem Conforms.accounted {β α : Type} [Bus β] {instruction : Instruction} {role : Role}
    {x : Action α} (h : Conforms instruction role x) (m : Machine β) :
    m.Accounts instruction (x β m) := by
  induction h generalizing m with
  | pure a => exact .looks rfl
  | sequence _ _ ihx ihf =>
    exact .bind (ihx m) fun a m' done => ihf a ⟨β, inferInstance, m, m', done⟩ m'
  | raise fault other =>
    refine ⟨.refl m, fun fault' fails illegal => ?_⟩
    cases fails
    exact absurd illegal other
  | cpu _ _ ih => exact ih m.cpu m
  | fetch => exact .fetch m
  | find mode bytes may => exact .memoryAddress (Role.isMemory_of_mayFind may) bytes m
  | view _ _ _ ih => exact ih m
  | readIn space size address => exact .readIn space size address m
  | jump target => exact .jump target m
  | resetLine => exact ⟨⟨rfl, rfl, rfl, .of_event .reset trivial⟩, nofun⟩
  | change steady => exact ⟨⟨steady.model _, steady.opcode _, steady.ppc _, .of_bus_eq rfl⟩, nofun⟩
  | writeIn space size address value => exact .writeIn space size address value m
  | push size value => exact .push size value m
  | illegal is => exact .illegal is m
  | movec toControl is => exact .movec is m

theorem Agrees.accounted {β α : Type} [Bus β] {instruction : Instruction} {x : Action α}
    (h : Agrees instruction x) (m : Machine β) : m.Accounts instruction (x β m) := by
  induction h generalizing m with
  | plays role h => exact h.accounted m
  | bind first _ ih => exact .bind ((first .pushing).accounted m) fun a m' _ => ih a m'
  | cpu _ _ ih => exact ih m.cpu m

/-! ## Changes of the registers -/

namespace Registers

/-- A change of the registers that has nothing to do with the place in the program. -/
structure Steady (change : Registers → Registers) : Prop where
  blind : ∀ rs pc, change (rs.withPc pc) = (change rs).withPc pc
  ppc : ∀ rs, (change rs).ppc = rs.ppc

namespace Steady

theorem setData (n : RegisterNumber) (value : BitVec 32) : Steady (·.setData n value) :=
  ⟨fun _ _ => rfl, fun _ => rfl⟩

theorem setCodes (codes : StatusRegister) : Steady (·.setCodes codes) :=
  ⟨fun _ _ => rfl, fun _ => rfl⟩

theorem setSp (value : BitVec 32) : Steady (·.setSp value) := by
  refine ⟨fun rs pc => ?_, fun rs => (rs.sameSystem_setSp value).ppc⟩
  show Registers.setStack _ (stackOf rs.sr) value = _
  unfold Registers.setSp
  cases stackOf rs.sr <;> rfl

theorem setAddress (n : RegisterNumber) (value : BitVec 32) : Steady (·.setAddress n value) := by
  refine ⟨fun rs pc => ?_, fun rs => (rs.sameSystem_setAddress n value).ppc⟩
  unfold Registers.setAddress
  split
  · rfl
  · exact (setSp value).blind rs pc

theorem setGeneral (n : GeneralRegister) (value : BitVec 32) : Steady (·.setGeneral n value) := by
  refine ⟨fun rs pc => ?_, fun rs => (rs.sameSystem_setGeneral n value).ppc⟩
  unfold Registers.setGeneral
  split
  · rfl
  · exact (setAddress _ value).blind rs pc

theorem general_withPc (rs : Registers) (pc : BitVec 32) (n : GeneralRegister) :
    (rs.withPc pc).general n = rs.general n := by
  unfold Registers.general
  split <;> rfl

theorem exchange (rx ry : GeneralRegister) :
    Steady fun rs => (rs.setGeneral rx (rs.general ry)).setGeneral ry (rs.general rx) := by
  refine ⟨fun rs pc => ?_, fun rs => ?_⟩
  · rw [general_withPc, general_withPc, (setGeneral rx _).blind, (setGeneral ry _).blind]
  · exact ((setGeneral ry _).ppc _).trans ((setGeneral rx _).ppc rs)

end Steady

end Registers

namespace Cpu.Steady

theorem registers {change : Registers → Registers} (steady : Registers.Steady change) :
    Steady fun c => { c with registers := change c.registers } where
  blind c pc prefetched :=
    congrArg (fun registers => { c with registers, prefetched }) (steady.blind c.registers pc)
  model _ := rfl
  opcode _ := rfl
  ppc c := steady.ppc c.registers
  prefetch _ := rfl

theorem spend (cycles : Nat) : Steady fun c => { c with cycles := c.cycles + cycles } :=
  ⟨fun _ _ _ => rfl, fun _ => rfl, fun _ => rfl, fun _ => rfl, fun _ => rfl⟩

end Cpu.Steady

namespace Conforms

variable {α γ : Type} {instruction : Instruction} {role : Role} {writes : Bool}

theorem bind {x : Action α} {f : α → Action γ} (first : Conforms instruction role x)
    (rest : ∀ a, Conforms instruction role (f a)) :
    Conforms instruction role fun β _ => x β >>= fun a => f a β :=
  .sequence first fun a _ => rest a

/-- A test may tell something about what follows. -/
theorem test {c : Prop} [Decidable c] {x y : Action α} (yes : c → Conforms instruction role x)
    (no : ¬c → Conforms instruction role y) :
    Conforms instruction role fun β _ => if c then x β else y β := by
  split
  · next h => exact yes h
  · next h => exact no h

theorem ite {c : Prop} [Decidable c] {x y : Action α} (yes : Conforms instruction role x)
    (no : Conforms instruction role y) :
    Conforms instruction role fun β _ => if c then x β else y β :=
  test (fun _ => yes) fun _ => no

theorem map {x : Action α} (f : α → γ) (h : Conforms instruction role x) :
    Conforms instruction role fun β _ => f <$> x β := by
  simp only [map_eq_pure_bind]
  exact .bind h fun a => .pure (f a)

theorem foldlM {f : γ → α → Action γ} (step : ∀ c a, Conforms instruction role (f c a))
    (list : List α) (start : γ) :
    Conforms instruction role fun β _ => list.foldlM (fun c a => f c a β) start := by
  induction list generalizing start with
  | nil => exact .pure start
  | cons a rest ih => exact .bind (step start a) fun next => ih next

theorem forM {f : α → Action Unit} (step : ∀ a, Conforms instruction role (f a)) (list : List α) :
    Conforms instruction role fun β _ => list.forM fun a => f a β := by
  induction list with
  | nil => exact .pure ()
  | cons a rest ih => exact .bind (step a) fun _ => ih

/-- What follows a fault does not matter. -/
theorem raiseThen (fault : Fault) (other : ¬fault.IsIllegal) {f : α → Action γ} :
    Conforms instruction role fun β _ => (throw fault : MachineM β α) >>= fun a => f a β :=
  .raise fault other

/-! ## Reading and writing registers -/

/-- A look at the registers, but not at the program counter. -/
theorem registers {f : Registers → Action α}
    (blind : role = .working true → ∀ (rs : Registers) pc (β : Type) [Bus β],
      f (rs.withPc pc) β = f rs β)
    (rest : ∀ rs, Conforms instruction role (f rs)) :
    Conforms instruction role fun β _ => MachineM.registers >>= fun rs => f rs β :=
  .cpu (f := fun c => f c.registers) (fun is c pc _ β _ => blind is c.registers pc β)
    fun c => rest c.registers

theorem status : Conforms instruction role fun _ _ => MachineM.status :=
  .registers (fun _ _ _ _ _ => rfl) fun rs => .pure rs.sr

theorem data (r : RegisterNumber) : Conforms instruction role fun _ _ => MachineM.data r :=
  .registers (fun _ _ _ _ _ => rfl) fun rs => .pure (rs.data r)

theorem address (r : RegisterNumber) : Conforms instruction role fun _ _ => MachineM.address r :=
  .registers (fun _ _ _ _ _ => rfl) fun rs => .pure (rs.address r)

theorem sp : Conforms instruction role fun _ _ => MachineM.sp :=
  .registers (fun _ _ _ _ _ => rfl) fun rs => .pure rs.sp

theorem capabilities : Conforms instruction role fun _ _ => MachineM.capabilities :=
  .cpu (fun _ _ _ _ _ _ => rfl) fun c => .pure c.capabilities

/-- Only what does not write memory looks at the program counter. -/
theorem pc (other : role ≠ .working true) :
    Conforms instruction role fun _ _ => MachineM.pc :=
  .registers (fun is => absurd is other) fun rs => .pure rs.pc

theorem modifyRegisters {change : Registers → Registers} (steady : Registers.Steady change) :
    Conforms instruction (.working writes) fun _ _ => MachineM.modifyRegisters change :=
  .change (.registers steady)

theorem spend (cycles : Nat) :
    Conforms instruction (.working writes) fun _ _ => MachineM.spend cycles :=
  .change (.spend cycles)

theorem setData (r : RegisterNumber) (value : BitVec 32) :
    Conforms instruction (.working writes) fun _ _ => MachineM.setData r value :=
  modifyRegisters (.setData r value)

theorem setAddress (r : RegisterNumber) (value : BitVec 32) :
    Conforms instruction (.working writes) fun _ _ => MachineM.setAddress r value :=
  modifyRegisters (.setAddress r value)

theorem setSp (value : BitVec 32) :
    Conforms instruction (.working writes) fun _ _ => MachineM.setSp value :=
  modifyRegisters (.setSp value)

theorem setCodes (codes : StatusRegister) :
    Conforms instruction (.working writes) fun _ _ => MachineM.setCodes codes :=
  modifyRegisters (.setCodes codes)

/-- The condition codes are made from what they are. -/
theorem updateCodes (codes : StatusRegister → StatusRegister) :
    Conforms instruction (.working writes) fun _ _ =>
      MachineM.status >>= fun sr => MachineM.setCodes (codes sr) :=
  .bind status fun sr => setCodes (codes sr)

theorem updateCodesThen (codes : StatusRegister → StatusRegister) {x : Action α}
    (rest : Conforms instruction (.working writes) x) :
    Conforms instruction (.working writes) fun β _ =>
      MachineM.status >>= fun sr => MachineM.setCodes (codes sr) >>= fun _ => x β := by
  refine .bind status fun sr => ?_
  exact .bind (setCodes (codes sr)) fun _ => rest

theorem setStatus (value : StatusRegister) :
    Conforms instruction (.working writes) fun _ _ => MachineM.setStatus value :=
  .change ⟨fun _ _ _ => rfl, fun _ => rfl, fun _ => rfl, fun _ => rfl, fun _ => rfl⟩

theorem requireSupervisor :
    Conforms instruction role fun _ _ => MachineM.requireSupervisor :=
  .registers (fun _ _ _ _ _ => rfl) fun _ => .ite (.pure ()) (.raise _ (by decide))

/-! ## Memory -/

theorem read (size : Size) (address : BitVec 32) :
    Conforms instruction role fun _ _ => MachineM.read size address :=
  .cpu (fun _ _ _ _ _ _ => rfl) fun c => .readIn c.dataCode size address

theorem write (size : Size) (address value : BitVec 32) :
    Conforms instruction (.working true) fun _ _ => MachineM.write size address value :=
  .cpu (fun _ _ _ _ _ _ => rfl) fun c => .writeIn c.dataCode size address value

theorem pop (size : Size) :
    Conforms instruction (.working writes) fun _ _ => MachineM.pop size := by
  refine .bind sp fun top => ?_
  refine .bind (read size top) fun value => ?_
  exact .bind (setSp _) fun _ => .pure value

/-! ## Operands -/

theorem fetchSigned : Conforms instruction role fun _ _ => MachineM.fetchSigned :=
  .bind .fetch fun _ => .pure _

theorem fetchLong : Conforms instruction role fun _ _ => MachineM.fetchLong := by
  refine .bind .fetch fun high => ?_
  exact .bind .fetch fun low => .pure _

theorem fetchConstant (size : Size) :
    Conforms instruction role fun _ _ => MachineM.fetchConstant size := by
  cases size with
  | byte => exact .bind .fetch fun _ => .pure _
  | word => exact .bind .fetch fun _ => .pure _
  | long => exact fetchLong

theorem postIncrement (r : RegisterNumber) (bytes : Nat) :
    Conforms instruction (.working writes) fun _ _ => MachineM.postIncrement r bytes := by
  refine .bind (address r) fun start => ?_
  exact .bind (setAddress r _) fun _ => .pure start

theorem preDecrement (r : RegisterNumber) (bytes : Nat) :
    Conforms instruction (.working writes) fun _ _ => MachineM.preDecrement r bytes := by
  refine .bind (address r) fun start => ?_
  exact .bind (setAddress r _) fun _ => .pure _

theorem controlAddress {mode : AddressMode} (may : role.mayFind mode = true) :
    Conforms instruction role fun _ _ => MachineM.controlAddress mode :=
  .find mode _ may

/-- An operand that is only read may have any mode; one that is found by what writes memory must be
alterable. -/
theorem locate {mode : AddressMode} (may : writes = true → mode.isAlterable = true) (size : Size) :
    Conforms instruction (.working writes) fun _ _ => MachineM.locate mode size := by
  refine .cpu (fun _ _ _ _ _ _ => rfl) fun c => .bind (.spend _) fun _ => ?_
  have find (isMemory : mode.isMemory = true) :
      Conforms instruction (.working writes) fun _ _ =>
        MachineM.memoryAddress mode size.bytes :=
    .find mode _ (Role.working_mayFind isMemory may)
  cases mode with
  | dataReg r => exact .pure _
  | addrReg r => exact .pure _
  | immediate => exact .bind (fetchConstant size) fun _ => .pure _
  | _ => exact .bind (find rfl) fun _ => .pure _

theorem load (size : Size) (location : Location) :
    Conforms instruction role fun _ _ => MachineM.load size location := by
  cases location with
  | dataReg r => exact .bind (data r) fun _ => .pure _
  | addrReg r => exact .bind (address r) fun _ => .pure _
  | constant value => exact .pure _
  | memory place program =>
    cases program with
    | false => exact read size place
    | true => exact .cpu (fun _ _ _ _ _ _ => rfl) fun c => .readIn c.programCode size place

/-- What writes memory can view operands in any mode. -/
theorem operand (mode : AddressMode) (size : Size) :
    Conforms instruction (.working writes) fun _ _ => MachineM.operand mode size := by
  have finds : Conforms instruction (.working false) fun _ _ => MachineM.locate mode size :=
    locate (fun is => absurd is Bool.false_ne_true) size
  have reads : Conforms instruction (.working false) fun _ _ => MachineM.operand mode size :=
    .bind finds fun location => load size location
  cases writes with
  | false => exact reads
  | true => exact .view mode size reads

theorem storeData (size : Size) (r : RegisterNumber) (value : BitVec 32) :
    Conforms instruction (.working writes) fun _ _ => MachineM.store size (.dataReg r) value := by
  unfold MachineM.store
  exact modifyRegisters ⟨fun _ _ => rfl, fun _ => rfl⟩

end Conforms

/-! ## Operands that are written -/

/-- A location that can be written: no constant, and not relative to the program counter. -/
def Location.CanBeWritten : Location → Prop
  | dataReg _ | addrReg _ => True
  | memory _ program => program = false
  | constant _ => False

namespace CanYield

variable {α γ : Type}

theorem of_bind {x : Action α} {f : α → Action γ} {c : γ}
    (found : CanYield (fun β _ => x β >>= fun a => f a β) c) : ∃ a, CanYield (f a) c := by
  obtain ⟨β, _, m, m', done⟩ := found
  rcases first : x β m with ⟨fault | a, m₁⟩
  · cases (MachineM.bind_error first _).symm.trans done
  · exact ⟨a, β, _, m₁, m', (MachineM.bind_ok first _).symm.trans done⟩

theorem of_pure {a b : α} (found : CanYield (fun _ _ => Pure.pure a) b) : b = a := by
  obtain ⟨β, _, m, m', done⟩ := found
  exact (Except.ok.inj (congrArg Prod.fst done)).symm

end CanYield

/-- An alterable mode leads to a location that can be written. -/
theorem CanYield.canBeWritten {mode : AddressMode} {size : Size} {location : Location}
    (found : CanYield (fun _ _ => MachineM.locate mode size) location)
    (alterable : mode.isAlterable = true) : location.CanBeWritten := by
  obtain ⟨c, found⟩ := found.of_bind
  obtain ⟨_, found⟩ := found.of_bind
  cases mode with
  | dataReg r =>
    rw [found.of_pure]
    trivial
  | addrReg r =>
    rw [found.of_pure]
    trivial
  | pcDisplacement | pcIndex | immediate => cases alterable
  | _ =>
    obtain ⟨place, found⟩ := found.of_bind
    rw [found.of_pure]
    rfl

namespace Conforms

variable {α : Type} {instruction : Instruction}

/-- Finds an operand that is written. -/
theorem locateThen {mode : AddressMode} (alterable : mode.isAlterable = true) (size : Size)
    {f : Location → Action α}
    (rest : ∀ location, location.CanBeWritten → Conforms instruction (.working true) (f location)) :
    Conforms instruction (.working true) fun β _ =>
      MachineM.locate mode size >>= fun location => f location β :=
  .sequence (locate (fun _ => alterable) size) fun location found =>
    rest location (found.canBeWritten alterable)

theorem store (size : Size) {location : Location} (can : location.CanBeWritten)
    (value : BitVec 32) :
    Conforms instruction (.working true) fun _ _ => MachineM.store size location value := by
  cases location with
  | dataReg r => exact storeData size r value
  | addrReg r => exact setAddress r value
  | constant _ => cases can
  | memory place _ => exact write size place value

end Conforms

end M68k
