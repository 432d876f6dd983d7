import M68k.Proofs.Cpu.GeneralRegisters
import M68k.Proofs.Cpu.InstructionStart
import M68k.Proofs.Cpu.LongWords

/-!
# Programs in memory

Words at the program counter of a processor on a memory are what it fetches, one after the other,
whether it reads ahead or not.  What was read ahead must be what the memory holds there; this is so
from the beginning on, if only other bytes are written.

* `Streams.fetch`, `Streams.begins` — the next word, and the instruction that it stands for;
* `Streams.kept` — writing elsewhere changes nothing about what comes;
* `Streams.step` — a step, if its instruction has two words and ends well.
-/

namespace M68k

open MachineM

/-- A memory in which only a program is, from an address on. -/
def Bytes.program (start : BitVec 32) (words : List (BitVec 16)) : Bytes := fun address =>
  let word := words.getD ((address - start).toNat / 2) 0
  if address.getLsbD 0 then word.extractLsb' 0 8 else word.extractLsb' 8 8

/-- How a step ends whose instruction ends well and does not change the flow: with a trace exception
if every instruction is traced. -/
def MachineM.plainEnd (before : StatusRegister) : Except Fault Unit :=
  if before.has .t1 then .error (.trap .trace) else .ok ()

variable {β : Type} [RamBus β]

namespace Machine

/-- A word is at an address of the instruction stream, in memory and where it was read ahead. -/
def Holds (m : Machine β) (address : BitVec 32) (word : BitVec 16) : Prop :=
  (RamBus.bytes m.bus).word (m.cpu.model.place address) = word ∧
    (prefetchedAt? m.cpu (m.cpu.model.place address)).getD word = word

/-- These are the next words of the instruction stream. -/
def Streams (m : Machine β) (words : List (BitVec 16)) : Prop :=
  m.cpu.registers.pc.toNat % 2 = 0 ∧
    ∀ i (hi : i < words.length), m.Holds (m.cpu.registers.pc + BitVec.ofNat 32 (2 * i)) words[i]

instance (m : Machine β) (address : BitVec 32) (word : BitVec 16) :
    Decidable (m.Holds address word) :=
  inferInstanceAs (Decidable (_ ∧ _))

instance (m : Machine β) (words : List (BitVec 16)) : Decidable (m.Streams words) :=
  inferInstanceAs (Decidable (_ ∧ ∀ i (hi : i < words.length), m.Holds _ words[i]))

/-- What a machine has read ahead was so in another one, or is what its memory holds. -/
structure ReadsAhead (m m' : Machine β) : Prop where
  bytes : RamBus.bytes m'.bus = RamBus.bytes m.bus
  ahead : ∀ place word, prefetchedAt? m'.cpu place = some word →
    word = (RamBus.bytes m.bus).word place ∨ prefetchedAt? m.cpu place = some word

theorem ReadsAhead.trans {m m' m'' : Machine β} (first : m.ReadsAhead m')
    (rest : m'.ReadsAhead m'') : m.ReadsAhead m'' := by
  refine ⟨rest.bytes.trans first.bytes, fun place word found => ?_⟩
  rcases rest.ahead place word found with read | before
  · exact .inl (first.bytes ▸ read)
  · exact first.ahead place word before

theorem readsAhead_fetch (m : Machine β) : m.ReadsAhead (fetch m).2 := by
  have same {m : Machine β} {cpu : Cpu} {bus : β} (bytes : RamBus.bytes bus = RamBus.bytes m.bus)
      (ahead : cpu.prefetched = m.cpu.prefetched) : m.ReadsAhead ⟨cpu, bus⟩ := by
    refine ⟨bytes, fun place word found => .inr ?_⟩
    rwa [prefetchedAt?, ahead] at found
  have led : Leads (β := β) ReadsAhead MachineM.fetch := by
    refine leads_fetch (fun m => same rfl rfl) (fun h h' => h.trans h') ?_ ?_ ?_
    · exact fun m => ⟨rfl, fun place word found => absurd found.symm (Option.some_ne_none word)⟩
    · intro m access _
      rw [fetchFromBus_apply]
      dsimp only
      split <;> exact same (RamBus.bytes_fetch _ _ m.bus) rfl
    · intro m place
      have reply := RamBus.fetch_reply place m.cpu.programCode m.bus
      rw [readAhead_apply]
      dsimp only
      rw [if_neg (by simp [reply.1]), reply.2]
      refine ⟨RamBus.bytes_fetch _ _ m.bus, fun place' word found => .inl ?_⟩
      simp only [prefetchedAt?, Option.bind_some] at found
      split at found
      next here => exact here ▸ (Option.some.inj found).symm
      next => exact absurd found.symm (Option.some_ne_none word)
  exact led m

/-- Reading ahead keeps to what the memory holds. -/
theorem Holds.readsAhead {m m' : Machine β} {address : BitVec 32} {word : BitVec 16}
    (h : m.Holds address word) (model : m'.cpu.model = m.cpu.model) (reads : m.ReadsAhead m') :
    m'.Holds address word := by
  rw [Holds, model, reads.bytes]
  refine ⟨h.1, ?_⟩
  cases found : prefetchedAt? m'.cpu (m.cpu.model.place address) with
  | none => rfl
  | some ahead =>
    rcases reads.ahead _ _ found with read | before
    · exact read.trans h.1
    · have agreed := h.2
      rw [before] at agreed
      exact agreed

namespace Streams

variable {m : Machine β} {word : BitVec 16} {words : List (BitVec 16)}

theorem head (h : m.Streams (word :: words)) : m.Holds m.cpu.registers.pc word := by
  have first := h.2 0 (Nat.succ_pos _)
  rw [show BitVec.ofNat 32 (2 * 0) = 0#32 from rfl, BitVec.add_zero] at first
  exact first

/-- The next word is fetched. -/
theorem fetches (h : m.Streams (word :: words)) : ∃ m', fetch m = (.ok word, m') := by
  have low := getLsbD_place m.cpu.model h.1
  have reply := RamBus.fetch_reply (m.cpu.model.place m.cpu.registers.pc) m.cpu.programCode m.bus
  obtain ⟨found, agreed⟩ := h.head
  rw [fetch_apply]
  dsimp only
  rw [if_neg (by rw [low]; exact Bool.false_ne_true)]
  cases ahead : prefetchedAt? m.cpu (m.cpu.model.place m.cpu.registers.pc) with
  | some word' =>
    rw [ahead] at agreed
    obtain rfl : word' = word := agreed
    exact ⟨_, rfl⟩
  | none =>
    dsimp only
    rw [fetchFromBus_apply]
    dsimp only
    rw [if_neg (by simp [reply.1]), reply.2, found]
    exact ⟨_, rfl⟩

/-- Fetching the next word leaves those that follow. -/
theorem fetch (h : m.Streams (word :: words)) :
    ∃ m', MachineM.fetch m = (.ok word, m') ∧ m.cpu.FetchedTo m'.cpu ∧
      RamBus.bytes m'.bus = RamBus.bytes m.bus ∧ m'.Streams words := by
  obtain ⟨m', fetched⟩ := h.fetches
  have reads := m.readsAhead_fetch
  rw [fetched] at reads
  have moved := fetch_cpu fetched
  have model : m'.cpu.model = m.cpu.model := by rw [moved]
  have pc : m'.cpu.registers.pc = m.cpu.registers.pc + 2 := by rw [moved]
  refine ⟨m', fetched, moved, reads.bytes, ?_, fun i hi => ?_⟩
  · have even := h.1
    rw [pc, BitVec.toNat_add, show (2 : BitVec 32).toNat = 2 from rfl]
    omega
  · rw [pc, Bytes.succ_offset]
    exact (h.2 (i + 1) (Nat.succ_lt_succ hi)).readsAhead model reads

/-- The next word is the opcode of the instruction that begins. -/
theorem begins {opcode : BitVec 16} (h : m.Streams (opcode :: words)) :
    ∃ m', begin m =
        (.ok (.perform m.cpu.registers.sr (.ofOpcode m.cpu.capabilities opcode)), m') ∧
      m.cpu.BegunTo m'.cpu ∧ m'.cpu.opcode = opcode ∧
      RamBus.bytes m'.bus = RamBus.bytes m.bus ∧ m'.Streams words := by
  have started : m.started.Streams (opcode :: words) := h
  obtain ⟨m₁, fetched, -, bytes, streams⟩ := started.fetch
  have begun : begin m = (.ok (.perform m.cpu.registers.sr
      (.ofOpcode m₁.cpu.capabilities opcode)), m₁.decoded opcode) := by
    rw [begin_apply, fetched]
  obtain ⟨same, cpu⟩ := begin_perform begun
  exact ⟨m₁.decoded opcode, begun.trans (by rw [same]; rfl), cpu, rfl, bytes, streams⟩

/-- Writing elsewhere changes nothing about what comes. -/
theorem kept (h : m.Streams words) {m' : Machine β} (model : m'.cpu.model = m.cpu.model)
    (pc : m'.cpu.registers.pc = m.cpu.registers.pc)
    (ahead : m'.cpu.prefetched = m.cpu.prefetched)
    (bytes : ∀ byte, m.cpu.model.Covers m.cpu.registers.pc words.length byte →
      RamBus.bytes m'.bus byte = RamBus.bytes m.bus byte) : m'.Streams words := by
  refine ⟨pc ▸ h.1, fun i hi => ?_⟩
  obtain ⟨found, agreed⟩ := h.2 i hi
  rw [pc]
  refine ⟨?_, ?_⟩
  · rw [model, Bytes.word, bytes _ ⟨i, hi, .inl rfl⟩, bytes _ ⟨i, hi, .inr rfl⟩]
    exact found
  · rw [model, prefetchedAt?, ahead]
    exact agreed

end Streams

/-- The machine with other registers and another unit. -/
def holding (m : Machine β) (registers : Registers) (fpu : Option Fpu) : Machine β :=
  { m with cpu := { m.cpu with registers, fpu } }

theorem Waited.holding {m m' : Machine β} {bytes : Bytes} (h : m.Waited bytes m')
    (registers : Registers) (fpu : Option Fpu) :
    (m.holding registers fpu).Waited bytes (m'.holding registers fpu) :=
  ⟨by unfold Machine.holding; rw [h.cpu], h.bytes⟩

/-- A machine that has fetched the two words of an instruction and is to perform it. -/
structure Performs (m : Machine β) (opcode : BitVec 16) (m' : Machine β) : Prop where
  model : m'.cpu.model = m.cpu.model
  registers : m'.cpu.registers = m.cpu.registers.advanced
  fpu : m'.cpu.fpu = m.cpu.fpu
  opcode : m'.cpu.opcode = opcode
  bytes : RamBus.bytes m'.bus = RamBus.bytes m.bus

/-- A machine after a step, with these registers, this unit and these bytes.  The program goes on
unless it was overwritten. -/
structure StepsTo (m : Machine β) (registers : Registers) (fpu : Option Fpu) (bytes : Bytes)
    (rest : List (BitVec 16)) (m' : Machine β) : Prop where
  streams : (∀ byte, m.cpu.model.Covers registers.pc rest.length byte →
    bytes byte = RamBus.bytes m.bus byte) → m'.Streams rest
  model : m'.cpu.model = m.cpu.model
  registers : m'.cpu.registers = registers
  fpu : m'.cpu.fpu = fpu
  bytes : RamBus.bytes m'.bus = bytes

namespace Streams

variable {m : Machine β} {opcode extension : BitVec 16} {rest : List (BitVec 16)}

/-- A step whose instruction has two words, of which it fetches the second one first, and then goes
on straight. -/
theorem step (host : Fpu.HostMath) (limit : Nat) (h : m.Streams (opcode :: extension :: rest)) :
    ∃ m₁, m.Performs opcode m₁ ∧ ∀ m₂ registers fpu bytes,
      (∀ m₀ : Machine β, m₀.cpu.opcode = opcode → m₀.cpu.fpu = m.cpu.fpu →
        MachineM.fetch m₀ = (.ok extension, m₁) →
        Execution.perform host limit (.ofOpcode m.cpu.capabilities opcode) m₀ = (.ok (), m₂)) →
      (m₁.holding registers fpu).Waited bytes m₂ → registers.pc = m.cpu.registers.pc + 4 →
      ∃ m', MachineM.step host limit m = (plainEnd m.cpu.registers.sr, m') ∧
        m.StepsTo registers fpu bytes rest m' := by
  obtain ⟨m₀, begun, cpu₀, opcode₀, bytes₀, streams₀⟩ := h.begins
  obtain ⟨m₁, fetched, cpu₁, bytes₁, streams₁⟩ := streams₀.fetch
  have cpu : m₁.cpu = { m.cpu with
      registers := m.cpu.registers.advanced
      opcode := m₁.cpu.opcode
      lastLevel := m₁.cpu.lastLevel
      flowChanged := false
      prefetched := m₁.cpu.prefetched
      cycles := m₁.cpu.cycles } := by
    unfold Registers.advanced
    rw [cpu₁, cpu₀, BitVec.add_assoc]
    rfl
  have known : m₁.cpu.opcode = opcode := by rw [cpu₁, opcode₀]
  refine ⟨m₁, ⟨?_, ?_, ?_, known, bytes₁.trans bytes₀⟩, ?_⟩
  any_goals rw [cpu]
  intro m₂ registers fpu bytes performs waited pc
  obtain ⟨settledRegisters, settledFpu, settledModel, settledFlow, settledAhead⟩ :=
    m₂.cpu.fields_settled
  have performed := performs m₀ opcode₀ (by rw [cpu₀]) fetched
  have straight : m₂.cpu.settled.flowChanged = false := by
    rw [settledFlow, waited.cpu]
    show m₁.cpu.flowChanged = false
    rw [cpu]
  have model : m₂.cpu.settled.model = m.cpu.model := by
    rw [settledModel, waited.cpu]
    show m₁.cpu.model = m.cpu.model
    rw [cpu]
  have counts : m₂.cpu.settled.registers = registers := by
    rw [settledRegisters, waited.cpu]
    rfl
  refine ⟨{ m₂ with cpu := m₂.cpu.settled }, ?_, fun same => ?_, model, counts, ?_, waited.bytes⟩
  · rw [step_eq, bind_ok begun]
    show (Execution.perform host limit _ >>= fun _ => settle m.cpu.registers.sr) m₀ = _
    rw [bind_ok performed, settle_apply, isTraced, straight, Bool.and_false, Bool.or_false]
    rfl
  · have pc₁ : m₁.cpu.registers.pc = registers.pc := by
      rw [pc, cpu]
      rfl
    refine streams₁.kept ?_ (by rw [counts, pc₁]) ?_ fun byte covered => ?_
    · rw [model, cpu]
    · rw [settledAhead, waited.cpu]
      rfl
    · rw [waited.bytes, bytes₁, bytes₀]
      refine same byte ?_
      rw [← pc₁]
      rwa [cpu] at covered ⊢
  · show m₂.cpu.settled.fpu = fpu
    rw [settledFpu, waited.cpu]
    rfl

end Streams

end Machine

end M68k
