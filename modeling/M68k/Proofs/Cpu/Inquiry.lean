import M68k.Cpu.Operand
import M68k.Proofs.Cpu.BusTrace

/-!
# What finding an operand leaves as it is

Before an instruction changes anything it fetches its words and finds its operands.  So far the
machine stays as it was, apart from the program counter, what was read ahead and the cycles, and
the bus is asked but not told anything.  There is one exception: the modes that count an address
register up or down have counted it as soon as the operand is found.

* `Machine.StaysWith` — the machine has other registers and is else as it was;
* `locate_ok`, `locate_error` — the machine when an operand was found, and when it was not.
-/

namespace M68k

namespace BusEvent

/-- The bus is asked for a word of the instruction stream. -/
def IsFetch : BusEvent → Prop
  | fetch .. => True
  | _ => False

/-- The bus is asked for something, and told nothing. -/
def IsInquiry : BusEvent → Prop
  | read .. | fetch .. | illegal _ => True
  | _ => False

theorem IsFetch.isInquiry {event : BusEvent} (h : event.IsFetch) : event.IsInquiry := by
  cases event <;> trivial

end BusEvent

namespace AddressMode

/-- Whether the mode counts its address register. -/
def steps (mode : AddressMode) : Bool := mode.isPostIncrement || mode.isPreDecrement

/-- Whether the mode has an index register. -/
def isIndexed : AddressMode → Bool
  | index _ | pcIndex => true
  | _ => false

/-- The registers when an operand of so many bytes was found. -/
def stepped (mode : AddressMode) (bytes : Nat) (rs : Registers) : Registers :=
  match mode with
  | postIncrement r => rs.setAddress r (rs.address r + MachineM.stride r bytes)
  | preDecrement r => rs.setAddress r (rs.address r - MachineM.stride r bytes)
  | _ => rs

/-- Most modes count nothing. -/
theorem stepped_of_steady {mode : AddressMode} (steady : mode.steps = false) (bytes : Nat)
    (rs : Registers) : mode.stepped bytes rs = rs := by
  cases mode <;> first | rfl | cases steady

end AddressMode

namespace Machine

variable {β : Type} [Bus β]

/-- The machine has these registers, apart from the program counter, and is else as it was, apart
from what was read ahead and the cycles.  The bus was used in these ways only. -/
structure StaysWith (allowed : BusEvent → Prop) (registers : Registers) (m m' : Machine β) :
    Prop where
  cpu : m'.cpu = { m.cpu with
    registers := { registers with pc := m'.cpu.registers.pc }
    prefetched := m'.cpu.prefetched
    cycles := m'.cpu.cycles }
  bus : m.Uses allowed m'

/-- The machine keeps its registers, too. -/
abbrev Stays (allowed : BusEvent → Prop) (m m' : Machine β) : Prop :=
  m.StaysWith allowed m.cpu.registers m'

variable {allowed : BusEvent → Prop} {rs : Registers} {m m' m'' : Machine β}

theorem Stays.refl (m : Machine β) : m.Stays allowed m := ⟨rfl, .refl m⟩

/-- What stays does so from any registers on. -/
theorem StaysWith.trans (first : m.StaysWith allowed rs m') (second : m'.Stays allowed m'') :
    m.StaysWith allowed rs m'' := by
  refine ⟨?_, first.bus.trans second.bus⟩
  rw [second.cpu, first.cpu]

theorem Stays.trans (first : m.Stays allowed m') (second : m'.Stays allowed m'') :
    m.Stays allowed m'' :=
  StaysWith.trans first second

theorem StaysWith.mono {more : BusEvent → Prop} (h : m.StaysWith allowed rs m')
    (weaker : ∀ e, allowed e → more e) : m.StaysWith more rs m' :=
  ⟨h.cpu, h.bus.mono weaker⟩

theorem StaysWith.capabilities (h : m.StaysWith allowed rs m') :
    m'.cpu.capabilities = m.cpu.capabilities := by
  rw [h.cpu]

/-- One use of the bus that takes some time. -/
theorem Stays.of_event (event : BusEvent) (may : allowed event) (cycles : Nat) :
    m.Stays allowed ⟨{ m.cpu with cycles }, event.apply m.bus⟩ :=
  ⟨rfl, .of_event event may⟩

end Machine

/-- However an action ends, the machine stays. -/
abbrev Quiet {β α : Type} [Bus β] (allowed : BusEvent → Prop) (x : MachineM β α) : Prop :=
  MachineM.Leads (Machine.Stays allowed) x

namespace Quiet

open MachineM

variable {β α γ : Type} [Bus β] {allowed : BusEvent → Prop}

theorem bind {x : MachineM β α} {f : α → MachineM β γ} (first : Quiet allowed x)
    (rest : ∀ a, Quiet allowed (f a)) : Quiet allowed (x >>= f) := by
  refine Leads.bind ?_ first rest
  exact Machine.Stays.trans

theorem ite {c : Prop} [Decidable c] {x y : MachineM β α} (yes : Quiet allowed x)
    (no : Quiet allowed y) : Quiet allowed (if c then x else y) := by
  split
  · exact yes
  · exact no

/-- Whatever only looks at the processor. -/
theorem of_same {x : MachineM β α} (same : ∀ m, (x m).2 = m) : Quiet allowed x := by
  intro m
  rw [same m]
  exact .refl m

theorem pure (a : α) : Quiet allowed (Pure.pure a : MachineM β α) := .of_same fun _ => rfl

theorem throw (fault : Fault) : Quiet allowed (throw fault : MachineM β α) :=
  .of_same fun _ => rfl

theorem spend (cycles : Nat) : Quiet (β := β) allowed (MachineM.spend cycles) :=
  fun m => ⟨rfl, .refl m⟩

theorem requireSupervisor : Quiet (β := β) allowed MachineM.requireSupervisor := by
  refine .of_same fun m => ?_
  rw [requireSupervisor_apply]

/-- A fetch moves the program counter. -/
theorem fetch (fetches : ∀ address space, allowed (.fetch address space)) :
    Quiet (β := β) allowed MachineM.fetch := by
  refine leads_fetch .refl ?_ (fun m => ⟨rfl, .refl m⟩) ?_ ?_
  · exact Machine.Stays.trans
  · intro m access _
    rw [fetchFromBus_apply]
    dsimp only
    split
    all_goals exact .of_event (.fetch access.address access.functionCode) (fetches _ _) _
  · intro m address
    rw [readAhead_apply]
    refine ⟨?_, .of_event (.fetch address m.cpu.programCode) (fetches _ _)⟩
    dsimp only
    split <;> rfl

/-! ## Finding an operand asks only -/

theorem asks : Quiet (β := β) BusEvent.IsInquiry MachineM.fetch := .fetch fun _ _ => trivial

theorem readIn (space : FunctionCode) (size : Size) (address : BitVec 32) :
    Quiet (β := β) BusEvent.IsInquiry (MachineM.readIn space size address) := by
  intro m
  rw [readIn_apply]
  dsimp only
  split
  · exact .refl m
  · split
    all_goals exact .of_event (.read size (m.cpu.model.place address) space) trivial _

theorem read (size : Size) (address : BitVec 32) :
    Quiet (β := β) BusEvent.IsInquiry (MachineM.read size address) :=
  fun m => readIn m.cpu.dataCode size address m

theorem fetchSigned : Quiet (β := β) BusEvent.IsInquiry MachineM.fetchSigned :=
  .bind asks fun _ => .pure _

theorem fetchLong : Quiet (β := β) BusEvent.IsInquiry MachineM.fetchLong :=
  .bind asks fun _ => .bind asks fun _ => .pure _

theorem fetchDisplacement (code : Nat) :
    Quiet (β := β) BusEvent.IsInquiry (MachineM.fetchDisplacement code) := by
  unfold MachineM.fetchDisplacement
  split
  · exact fetchSigned
  · exact fetchLong
  · exact .pure 0

theorem fullIndex (base : BitVec 32) (extension : BitVec 16) :
    Quiet (β := β) BusEvent.IsInquiry (MachineM.fullIndex base extension) := by
  refine .bind (.of_same fun _ => rfl) fun caps => .bind (.of_same fun _ => rfl) fun rs => ?_
  refine .ite (.bind (.throw _) fun _ => ?_) ?_
  all_goals
    refine .bind (fetchDisplacement _) fun displacement => .ite (.pure _) ?_
    refine .ite (.bind (.throw _) fun _ => ?_) ?_
    all_goals
      refine .bind (fetchDisplacement _) fun outer => .bind (.spend 6) fun _ => .ite ?_ ?_
      · exact .bind (read .long _) fun _ => .pure _
      · exact .bind (read .long _) fun _ => .pure _

theorem indexed (base : BitVec 32) :
    Quiet (β := β) BusEvent.IsInquiry (MachineM.indexed base) := by
  refine .bind asks fun extension => .bind (.of_same fun _ => rfl) fun caps => .ite ?_ ?_
  · exact fullIndex base extension
  · exact .bind (.of_same fun _ => rfl) fun _ => .pure _

/-- Modes that do not count find their operand quietly. -/
theorem memoryAddress {mode : AddressMode} (steady : mode.steps = false) (bytes : Nat) :
    Quiet (β := β) BusEvent.IsInquiry (MachineM.memoryAddress mode bytes) := by
  cases mode with
  | indirect r => exact .of_same fun _ => rfl
  | postIncrement r => cases steady
  | preDecrement r => cases steady
  | displacement r =>
    exact .bind fetchSigned fun _ => .bind (.of_same fun _ => rfl) fun _ => .pure _
  | index r => exact .bind (.of_same fun _ => rfl) fun base => indexed base
  | absShort => exact fetchSigned
  | absLong => exact fetchLong
  | pcDisplacement =>
    exact .bind (.of_same fun _ => rfl) fun _ => .bind fetchSigned fun _ => .pure _
  | pcIndex => exact .bind (.of_same fun _ => rfl) fun base => indexed base
  | dataReg r => exact .throw _
  | addrReg r => exact .throw _
  | immediate => exact .throw _

theorem fetchConstant (size : Size) :
    Quiet (β := β) BusEvent.IsInquiry (MachineM.fetchConstant size) := by
  cases size with
  | byte => exact .bind asks fun _ => .pure _
  | word => exact .bind asks fun _ => .pure _
  | long => exact fetchLong

theorem locate {mode : AddressMode} (steady : mode.steps = false) (size : Size) :
    Quiet (β := β) BusEvent.IsInquiry (MachineM.locate mode size) := by
  refine .bind (.of_same fun _ => rfl) fun c => .bind (.spend _) fun _ => ?_
  cases mode with
  | dataReg r => exact .pure _
  | addrReg r => exact .pure _
  | immediate => exact .bind (fetchConstant size) fun _ => .pure _
  | _ => exact .bind (memoryAddress steady _) fun _ => .pure _

theorem load (size : Size) (location : Location) :
    Quiet (β := β) BusEvent.IsInquiry (MachineM.load size location) := by
  cases location with
  | dataReg r => exact .bind (.of_same fun _ => rfl) fun _ => .pure _
  | addrReg r => exact .bind (.of_same fun _ => rfl) fun _ => .pure _
  | constant value => exact .pure _
  | memory place program =>
    cases program with
    | false => exact read size place
    | true => exact .bind (.of_same fun _ => rfl) fun c => readIn c.programCode size place

theorem operand {mode : AddressMode} (steady : mode.steps = false) (size : Size) :
    Quiet (β := β) BusEvent.IsInquiry (MachineM.operand mode size) :=
  .bind (locate steady size) fun location => load size location

end Quiet

namespace MachineM

variable {β : Type} [Bus β] {m m' : Machine β} {mode : AddressMode}

/-- Modes that count find their operand in any case, and have counted then. -/
theorem locate_of_steps (steps : mode.steps = true) (size : Size) (m : Machine β) :
    ∃ place cycles, locate mode size m = (.ok (.memory place false),
      { m with cpu := { m.cpu with
        registers := mode.stepped size.bytes m.cpu.registers, cycles } }) := by
  cases mode with
  | postIncrement r => exact ⟨_, _, rfl⟩
  | preDecrement r => exact ⟨_, _, rfl⟩
  | _ => cases steps

/-- When an operand was found its mode has counted, and nothing else has changed. -/
theorem locate_ok {size : Size} {location : Location}
    (found : locate mode size m = (.ok location, m')) :
    m.StaysWith BusEvent.IsInquiry (mode.stepped size.bytes m.cpu.registers) m' := by
  cases steps : mode.steps with
  | false =>
    rw [AddressMode.stepped_of_steady steps]
    have stays := Quiet.locate steps size m
    rwa [found] at stays
  | true =>
    obtain ⟨place, cycles, counts⟩ := locate_of_steps steps size m
    obtain rfl := congrArg Prod.snd (counts.symm.trans found)
    exact ⟨rfl, .refl m⟩

/-- When an operand was not found nothing has changed. -/
theorem locate_error {size : Size} {fault : Fault}
    (fails : locate mode size m = (.error fault, m')) :
    mode.steps = false ∧ m.Stays BusEvent.IsInquiry m' := by
  cases steps : mode.steps with
  | false =>
    have stays := Quiet.locate steps size m
    rw [fails] at stays
    exact ⟨rfl, stays⟩
  | true =>
    obtain ⟨place, cycles, counts⟩ := locate_of_steps steps size m
    cases counts.symm.trans fails

/-- The same holds when it was read. -/
theorem operand_ok {size : Size} {value : BitVec 32}
    (reads : operand mode size m = (.ok value, m')) :
    m.StaysWith BusEvent.IsInquiry (mode.stepped size.bytes m.cpu.registers) m' := by
  rcases found : locate mode size m with ⟨fault | location, m₁⟩
  · cases (bind_error found _).symm.trans reads
  · have loaded := Quiet.load size location m₁
    rw [(bind_ok found _).symm.trans reads] at loaded
    exact (locate_ok found).trans loaded

end MachineM

end M68k
