import M68k.Proofs.Cpu.Action

/-!
# What a bus is asked

A `BusEvent` is one use of the bus, and `replay` is what a sequence of them makes of a bus.  How the
processor has used the bus is said by a sequence whose replay leads from the bus before to the bus
after.  On a bus that keeps a log there is no other sequence than the one in its log.

* `Machine.Uses` — in which ways the bus was used between two machines;
* `Logged.log_replay` — a log takes down just the events.
-/

namespace M68k

/-- One use of the bus. -/
inductive BusEvent where
  | read (size : Size) (address : BitVec 32) (space : FunctionCode)
  | write (size : Size) (address value : BitVec 32) (space : FunctionCode)
  | fetch (address : BitVec 32) (space : FunctionCode)
  | interruptLevel
  | acknowledge (level : BitVec 3)
  | reset
  | illegal (opcode : BitVec 16)
  | pcChanged (target : BitVec 32)
  deriving DecidableEq, Repr

namespace BusEvent

/-- An access in one of these spaces, or news of an opcode or of the program counter.  Levels,
acknowledgements and resets are not among them. -/
def IsIn (spaces : List FunctionCode) : BusEvent → Prop
  | read _ _ space | write _ _ _ space | fetch _ space => space ∈ spaces
  | illegal _ | pcChanged _ => True
  | interruptLevel | acknowledge _ | reset => False

variable {β : Type} [Bus β]

/-- What an event makes of a bus. -/
def apply (bus : β) : BusEvent → β
  | read size address space => (Bus.read size address space bus).2
  | write size address value space => (Bus.write size address value space bus).2
  | fetch address space => (Bus.fetch address space bus).2
  | interruptLevel => (Bus.interruptLevel bus).2
  | acknowledge level => (Bus.acknowledge level bus).2
  | reset => Bus.reset bus
  | illegal opcode => (Bus.illegal opcode bus).2
  | pcChanged target => Bus.pcChanged target bus

end BusEvent

/-- What a sequence of events makes of a bus. -/
def replay {β : Type} [Bus β] (events : List BusEvent) (bus : β) : β :=
  events.foldl BusEvent.apply bus

theorem replay_append {β : Type} [Bus β] (events later : List BusEvent) (bus : β) :
    replay (events ++ later) bus = replay later (replay events bus) :=
  List.foldl_append ..

/-- Between two machines the bus was used in these ways only. -/
def Machine.Uses {β : Type} [Bus β] (allowed : BusEvent → Prop) (m m' : Machine β) : Prop :=
  ∃ events, (∀ e ∈ events, allowed e) ∧ m'.bus = replay events m.bus

namespace Machine.Uses

variable {β : Type} [Bus β] {allowed : BusEvent → Prop} {m m' m'' : Machine β}

/-- Whatever happens within the processor. -/
theorem of_bus_eq (same : m'.bus = m.bus) : m.Uses allowed m' := ⟨[], by simp, same⟩

theorem refl (m : Machine β) : m.Uses allowed m := of_bus_eq rfl

theorem trans (h : m.Uses allowed m') (h' : m'.Uses allowed m'') : m.Uses allowed m'' := by
  obtain ⟨events, first, bus⟩ := h
  obtain ⟨later, second, bus'⟩ := h'
  refine ⟨events ++ later, ?_, ?_⟩
  · intro e member
    rcases List.mem_append.mp member with early | late
    · exact first e early
    · exact second e late
  · rw [bus', bus, replay_append]

/-- One use of the bus, with whatever becomes of the processor. -/
theorem of_event {cpu : Cpu} (event : BusEvent) (may : allowed event) :
    m.Uses allowed ⟨cpu, event.apply m.bus⟩ :=
  ⟨[event], by simpa, rfl⟩

theorem mono {more : BusEvent → Prop} (h : m.Uses allowed m')
    (weaker : ∀ e, allowed e → more e) : m.Uses more m' := by
  obtain ⟨events, used, bus⟩ := h
  exact ⟨events, fun e member => weaker e (used e member), bus⟩

end Machine.Uses

/-- A bus with a log of what it is asked. -/
structure Logged (β : Type) where
  bus : β
  log : List BusEvent

namespace Logged

variable {β : Type} [Bus β]

/-- The bus after an event, which the log takes down. -/
def note (event : BusEvent) (b : Logged β) : Logged β := ⟨event.apply b.bus, b.log ++ [event]⟩

instance : Bus (Logged β) where
  read size address space b :=
    ((Bus.read size address space b.bus).1, b.note (.read size address space))
  write size address value space b :=
    ((Bus.write size address value space b.bus).1, b.note (.write size address value space))
  fetch address space b := ((Bus.fetch address space b.bus).1, b.note (.fetch address space))
  interruptLevel b := ((Bus.interruptLevel b.bus).1, b.note .interruptLevel)
  acknowledge level b := ((Bus.acknowledge level b.bus).1, b.note (.acknowledge level))
  reset b := b.note .reset
  illegal opcode b := ((Bus.illegal opcode b.bus).1, b.note (.illegal opcode))
  pcChanged target b := b.note (.pcChanged target)

/-- A log takes down just the events. -/
theorem log_replay (events : List BusEvent) (b : Logged β) :
    (replay events b).log = b.log ++ events := by
  induction events generalizing b with
  | nil => exact (List.append_nil _).symm
  | cons event rest ih =>
    have noted : (BusEvent.apply b event) = b.note event := by cases event <;> rfl
    show (replay rest (BusEvent.apply b event)).log = _
    rw [ih, noted]
    exact List.append_assoc _ [event] rest

/-- What the log of a machine holds of what was done to it. -/
theorem mem_log_of_uses {allowed : BusEvent → Prop} {m m' : Machine (Logged β)}
    (h : m.Uses allowed m') (empty : m.bus.log = []) : ∀ e ∈ m'.bus.log, allowed e := by
  obtain ⟨events, used, bus⟩ := h
  rw [bus, log_replay, empty]
  exact used

end Logged

end M68k
