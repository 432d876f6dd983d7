import M68k.Proofs.Cpu.Call
import M68k.Proofs.Cpu.Ram

/-!
# Where an instruction starts

A call that performs an instruction has fetched its opcode before.  This changes the program
counters and what the processor has noted, and nothing else.

* `fetch_cpu` — what a fetch that succeeds makes of the processor;
* `opening_perform` — the machine at which an instruction is performed.
-/

namespace M68k

/-- The processor when it has fetched a word. -/
def Cpu.FetchedTo (c c' : Cpu) : Prop :=
  c' = { c with
    registers := { c.registers with pc := c.registers.pc + 2 }
    prefetched := c'.prefetched
    cycles := c'.cycles }

/-- The processor when it has fetched the opcode of its next instruction. -/
def Cpu.BegunTo (c c' : Cpu) : Prop :=
  c' = { c with
    registers := { c.registers with pc := c.registers.pc + 2, ppc := c.registers.pc }
    opcode := c'.opcode
    lastLevel := c'.lastLevel
    flowChanged := false
    prefetched := c'.prefetched
    cycles := c'.cycles }

theorem Cpu.BegunTo.capabilities {c c' : Cpu} (h : c.BegunTo c') :
    c'.capabilities = c.capabilities := by
  rw [h]

/-- Settling after an instruction is about the handling of faults only. -/
theorem Cpu.fields_settled (c : Cpu) : c.settled.registers = c.registers ∧
    c.settled.fpu = c.fpu ∧ c.settled.model = c.model ∧
    c.settled.flowChanged = c.flowChanged ∧ c.settled.prefetched = c.prefetched := by
  unfold settled
  split <;> exact ⟨rfl, rfl, rfl, rfl, rfl⟩

namespace MachineM

section AnyBus

variable {β : Type} [Bus β]

/-- A fetch that succeeds moves the program counter. -/
theorem fetch_cpu {m m' : Machine β} {word : BitVec 16} (fetches : fetch m = (.ok word, m')) :
    m.cpu.FetchedTo m'.cpu := by
  -- reading ahead comes after the word was found, in what was read ahead or on the bus
  have ahead (outcome : Except Fault (BitVec 16) × Machine β)
      (moved : m.cpu.FetchedTo outcome.2.cpu) (next : BitVec 32)
      (ends : afterFetch m next outcome = (.ok word, m')) : m.cpu.FetchedTo m'.cpu := by
    obtain ⟨fault | found, m₁⟩ := outcome
    · cases ends
    · obtain rfl := congrArg Prod.snd ends
      dsimp only [afterFetch]
      split
      · rw [readAhead_apply]
        dsimp only
        split
        · exact moved
        · unfold Cpu.FetchedTo at *
          rw [moved]
      · exact moved
  rw [fetch_apply] at fetches
  dsimp only at fetches
  split at fetches
  · cases congrArg Prod.fst fetches
  · refine ahead _ ?_ _ fetches
    cases prefetchedAt? m.cpu (m.cpu.registers.pc &&& m.cpu.model.addressMask) with
    | some found => rfl
    | none =>
      dsimp only
      rw [fetchFromBus_apply]
      dsimp only
      split <;> rfl

/-- What begins is the instruction of the opcode that was fetched. -/
theorem begin_perform {m m' : Machine β} {activity : Activity}
    (begins : begin m = (.ok activity, m')) :
    activity = .perform m.cpu.registers.sr (.ofOpcode m.cpu.capabilities m'.cpu.opcode) ∧
      m.cpu.BegunTo m'.cpu := by
  rw [begin_apply] at begins
  rcases fetches : fetch m.started with ⟨fault | opcode, m₁⟩
  · rw [fetches] at begins
    exact nomatch congrArg Prod.fst begins
  · rw [fetches] at begins
    have fetched := fetch_cpu fetches
    obtain ⟨same, rfl⟩ := Prod.mk.inj begins
    obtain rfl := Except.ok.inj same
    constructor
    · show Activity.perform _ (Instruction.ofOpcode m₁.cpu.capabilities opcode) = _
      rw [fetched]
      rfl
    · unfold Cpu.BegunTo Machine.decoded
      rw [fetched]
      rfl

/-- A call that performs an instruction has fetched its opcode. -/
theorem opening_perform {m m' : Machine β} {before : StatusRegister} {instruction : Instruction}
    (opens : opening m = (.ok (.perform before instruction), m')) :
    before = m.cpu.registers.sr ∧
      instruction = .ofOpcode m.cpu.capabilities m'.cpu.opcode ∧ m.cpu.BegunTo m'.cpu := by
  rw [opening_apply] at opens
  split at opens
  · exact nomatch Except.ok.inj (congrArg Prod.fst opens)
  · split at opens
    · exact nomatch Except.ok.inj (congrArg Prod.fst opens)
    · obtain ⟨same, begun⟩ := begin_perform opens
      obtain ⟨rfl, rfl⟩ := Activity.perform.inj same
      exact ⟨rfl, rfl, begun⟩

end AnyBus

section Ram

variable {β : Type} [RamBus β]

/-- Fetching leaves a memory as it is. -/
theorem bytes_fetch (m : Machine β) :
    RamBus.bytes (fetch m).2.bus = RamBus.bytes m.bus := by
  have led : Leads (fun m m' : Machine β => RamBus.bytes m'.bus = RamBus.bytes m.bus) fetch := by
    refine leads_fetch (fun _ => rfl) (fun h h' => h'.trans h) (fun _ => rfl) ?_ ?_
    · intro m access _
      rw [fetchFromBus_apply]
      dsimp only
      split <;> exact RamBus.bytes_fetch _ _ m.bus
    · intro m address
      rw [readAhead_apply]
      exact RamBus.bytes_fetch address _ m.bus
  exact led m

theorem bytes_opening (m : Machine β) :
    RamBus.bytes (opening m).2.bus = RamBus.bytes m.bus := by
  have polled : RamBus.bytes m.polled.bus = RamBus.bytes m.bus := RamBus.bytes_interruptLevel m.bus
  rw [opening_apply]
  split
  · exact polled
  · split
    · exact polled
    · have fetched := bytes_fetch m.polled.started
      rw [begin_apply]
      generalize fetch m.polled.started = outcome at fetched
      obtain ⟨fault | opcode, m'⟩ := outcome <;> exact fetched.trans polled

end Ram

end MachineM

end M68k
