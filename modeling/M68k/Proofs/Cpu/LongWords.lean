import M68k.Proofs.Cpu.StackFrame

/-!
# Long words in memory

Long words that follow each other in memory are read back as they were written, also where addresses
wrap around and where they are cut to 24 lines: two of them never have a byte in common.  Accesses
to them change nothing of the processor but its cycles.

* `Bytes.HoldsLongs.store` — one more long word before others leaves those alone;
* `Machine.waits_writeLongs`, `Machine.waits_readLongs` — long words are written and read;
* `Machine.waits_writeBelow` — they are written below an address register.
-/

namespace M68k

open MachineM

namespace Bytes

variable (bytes : Bytes)

/-- Bytes that are not among the four that are written stay. -/
theorem store_long_of_outside {address byte : BitVec 32} (value : BitVec 32)
    (outside : 4 ≤ (byte - address).toNat) : bytes.store address value .long byte = bytes byte := by
  have apart (offset : BitVec 32) (small : offset.toNat < 4) : byte ≠ address + offset := by
    rintro rfl
    rw [BitVec.add_comm, BitVec.add_sub_cancel] at outside
    omega
  have first := apart 0#32 (by decide)
  have third := apart 3 (by decide)
  rw [BitVec.add_zero] at first
  rw [show (3 : BitVec 32) = 2 + 1 from rfl, ← BitVec.add_assoc] at third
  show (bytes.putWord address _).putWord (address + 2) _ byte = _
  rw [putWord_of_ne _ _ (apart 2 (by decide)) third, putWord_of_ne _ _ first (apart 1 (by decide))]

/-- A long word is read back. -/
theorem long_store_self (address value : BitVec 32) :
    (bytes.store address value .long).long address = value := by
  have apart (offset offset' : BitVec 32) (ne : offset ≠ offset') :
      address + offset ≠ address + offset' := fun same => ne (by simpa using same)
  have a₀ := apart 0#32 2 (by decide)
  have a₁ := apart 0#32 (2 + 1) (by decide)
  have a₂ := apart 1 2 (by decide)
  have a₃ := apart 1 (2 + 1) (by decide)
  rw [BitVec.add_zero] at a₀ a₁
  rw [← BitVec.add_assoc] at a₁ a₃
  have high : ((bytes.putWord address (value.extractLsb' 16 16)).putWord (address + 2)
      (value.extractLsb' 0 16)).word address = value.extractLsb' 16 16 := by
    rw [word, putWord_of_ne _ _ a₀ a₁, putWord_of_ne _ _ a₂ a₃]
    exact putWord_self bytes address _
  show word ((bytes.putWord address _).putWord (address + 2) _) address ++
    word ((bytes.putWord address _).putWord (address + 2) _) (address + 2) = value
  rw [high, putWord_self]
  exact FrameContext.pair_append value

variable {bytes}

/-- A long word stays whose bytes do. -/
theorem long_congr {bytes' : Bytes} {address : BitVec 32}
    (same : ∀ byte, (byte - address).toNat < 4 → bytes' byte = bytes byte) :
    bytes'.long address = bytes.long address := by
  have at_ (offset : BitVec 32) (small : offset.toNat < 4) :
      bytes' (address + offset) = bytes (address + offset) := by
    refine same _ ?_
    rwa [BitVec.add_comm, BitVec.add_sub_cancel]
  have s₀ := at_ 0#32 (by decide)
  have s₁ := at_ 1 (by decide)
  have s₂ := at_ 2 (by decide)
  have s₃ := at_ (2 + 1) (by decide)
  rw [BitVec.add_zero] at s₀
  rw [← BitVec.add_assoc] at s₃
  simp only [long, word, s₀, s₁, s₂, s₃]

end Bytes

namespace Model

/-- Models that need operands at even addresses find them there. -/
def Aligned (model : Model) (address : BitVec 32) : Prop :=
  model.capabilities.misalignedData = false → address.toNat % 2 = 0

/-- A model that takes long words at every address, and has lines for all of it. -/
structure TakesLongs (model : Model) : Prop where
  lines : model.capabilities.addressBus32 = true
  misaligned : model.capabilities.misalignedData = true

theorem TakesLongs.aligned {model : Model} (takes : model.TakesLongs) (address : BitVec 32) :
    model.Aligned address :=
  fun early => nomatch takes.misaligned.symm.trans early

/-- Whether a byte belongs to one of so many long words from an address on. -/
def CoversLongs (model : Model) (address : BitVec 32) (count : Nat) (byte : BitVec 32) : Prop :=
  ∃ i < count, (byte - model.place (address + BitVec.ofNat 32 (4 * i))).toNat < 4

instance (model : Model) (address : BitVec 32) (count : Nat) (byte : BitVec 32) :
    Decidable (model.CoversLongs address count byte) :=
  inferInstanceAs (Decidable
    (∃ i < count, (byte - model.place (address + BitVec.ofNat 32 (4 * i))).toNat < 4))

variable {model : Model} {address : BitVec 32}

theorem Aligned.add (aligned : model.Aligned address) (i : Nat) :
    model.Aligned (address + BitVec.ofNat 32 (4 * i)) := by
  intro early
  have := aligned early
  rw [BitVec.toNat_add, BitVec.toNat_ofNat]
  omega

theorem Aligned.sub (aligned : model.Aligned address) (i : Nat) :
    model.Aligned (address - BitVec.ofNat 32 (4 * i)) := by
  intro early
  have := aligned early
  rw [BitVec.toNat_sub, BitVec.toNat_ofNat]
  omega

theorem add_succ (address : BitVec 32) (i : Nat) :
    address + 4 + BitVec.ofNat 32 (4 * i) = address + BitVec.ofNat 32 (4 * (i + 1)) := by
  rw [BitVec.add_assoc]
  congr 1
  apply BitVec.eq_of_toNat_eq
  simp [BitVec.toNat_add, Nat.mul_add, Nat.add_comm]

/-- The long words from an address on are the first one and those after it. -/
theorem coversLongs_succ {count : Nat} {byte : BitVec 32} :
    model.CoversLongs address (count + 1) byte ↔
      (byte - model.place address).toNat < 4 ∨ model.CoversLongs (address + 4) count byte := by
  have start : address + BitVec.ofNat 32 (4 * 0) = address := BitVec.add_zero address
  constructor
  · rintro ⟨_ | i, few, covered⟩
    · rw [start] at covered
      exact .inl covered
    · rw [← add_succ] at covered
      exact .inr ⟨i, Nat.lt_of_succ_lt_succ few, covered⟩
  · rintro (covered | ⟨i, few, covered⟩)
    · exact ⟨0, Nat.succ_pos count, by rwa [start]⟩
    · rw [add_succ] at covered
      exact ⟨i + 1, Nat.succ_lt_succ few, covered⟩

/-- The long words from an address on are the last one and those before it. -/
theorem coversLongs_succ_last {count : Nat} {byte : BitVec 32} :
    model.CoversLongs address (count + 1) byte ↔
      model.CoversLongs address count byte ∨
        (byte - model.place (address + BitVec.ofNat 32 (4 * count))).toNat < 4 := by
  constructor
  · rintro ⟨i, few, covered⟩
    rcases Nat.lt_succ_iff_lt_or_eq.mp few with before | rfl
    · exact .inl ⟨i, before, covered⟩
    · exact .inr covered
  · rintro (⟨i, few, covered⟩ | covered)
    · exact ⟨i, Nat.lt_succ_of_lt few, covered⟩
    · exact ⟨count, Nat.lt_succ_self count, covered⟩

/-- A distance of long words that is less than all of memory remains one on the bus. -/
theorem distance_place (model : Model) (address : BitVec 32) {i : Nat} (pos : 0 < i)
    (few : i < 4194304) :
    let distance := (model.place (address + BitVec.ofNat 32 (4 * i)) - model.place address).toNat
    4 ≤ distance ∧ distance ≤ 4294967292 := by
  have sum : (address + BitVec.ofNat 32 (4 * i)).toNat = (address.toNat + 4 * i) % 4294967296 := by
    rw [BitVec.toNat_add, BitVec.toNat_ofNat]
    omega
  have below := address.isLt
  rw [BitVec.toNat_sub]
  cases lines : model.capabilities.addressBus32 with
  | true =>
    rw [place_of_lines lines, place_of_lines lines, sum]
    omega
  | false =>
    rw [toNat_place lines, toNat_place lines, sum]
    omega

/-- The first of some long words has no byte in common with those that follow it. -/
theorem not_coversLongs_next {count : Nat} (few : count < 4194304) {byte : BitVec 32}
    (first : (byte - model.place address).toNat < 4) :
    ¬model.CoversLongs (address + 4) count byte := by
  rintro ⟨i, hi, covered⟩
  obtain ⟨low, high⟩ := model.distance_place address (i := i + 1) (by omega) (by omega)
  rw [add_succ] at covered
  simp only [BitVec.toNat_sub] at *
  omega

end Model

/-- The long words at an address and after it. -/
def Bytes.HoldsLongs (model : Model) (bytes : Bytes) : BitVec 32 → List (BitVec 32) → Prop
  | _, [] => True
  | address, word :: rest =>
    bytes.long (model.place address) = word ∧ HoldsLongs model bytes (address + 4) rest

namespace Bytes.HoldsLongs

variable {model : Model} {bytes bytes' : Bytes} {address : BitVec 32} {words : List (BitVec 32)}

/-- Long words stay whose bytes do. -/
theorem congr (holds : bytes.HoldsLongs model address words)
    (same : ∀ byte, model.CoversLongs address words.length byte → bytes' byte = bytes byte) :
    bytes'.HoldsLongs model address words := by
  induction words generalizing address with
  | nil => trivial
  | cons word rest ih =>
    refine ⟨?_, ih holds.2 fun byte covered => same byte ?_⟩
    · rw [← holds.1]
      exact long_congr fun byte first => same byte (Model.coversLongs_succ.mpr (.inl first))
    · exact Model.coversLongs_succ.mpr (.inr covered)

/-- A long word that is written before others leaves those alone. -/
theorem store (holds : bytes.HoldsLongs model (address + 4) words)
    (few : words.length < 4194304) (word : BitVec 32) :
    (bytes.store (model.place address) word .long).HoldsLongs model address (word :: words) := by
  refine ⟨long_store_self bytes _ word, holds.congr fun byte covered => ?_⟩
  refine store_long_of_outside bytes word (Nat.le_of_not_lt fun first => ?_)
  exact Model.not_coversLongs_next few first covered

end Bytes.HoldsLongs

namespace MachineM

variable {β : Type}

theorem stride_longs (r : RegisterNumber) (count : Nat) :
    stride r (4 * count) = BitVec.ofNat 32 (4 * count) := by
  rw [stride, if_neg (by omega)]

/-- An address register is taken down by long words. -/
theorem preDecrement_apply (m : Machine β) (r : RegisterNumber) (count : Nat) :
    let top := m.cpu.registers.address r - BitVec.ofNat 32 (4 * count)
    preDecrement r (4 * count) m =
      (.ok top, m.withRegisters (m.cpu.registers.setAddress r top)) := by
  intro top
  unfold preDecrement
  rw [stride_longs]
  rfl

/-- An address register is taken up by long words. -/
theorem postIncrement_apply (m : Machine β) (r : RegisterNumber) (count : Nat) :
    let start := m.cpu.registers.address r
    postIncrement r (4 * count) m =
      (.ok start,
        m.withRegisters (m.cpu.registers.setAddress r (start + BitVec.ofNat 32 (4 * count)))) := by
  intro start
  unfold postIncrement
  rw [stride_longs]
  rfl

end MachineM

variable {β : Type} [RamBus β]

/-- A machine that has only used its bus. -/
structure Machine.Waited (m : Machine β) (bytes : Bytes) (m' : Machine β) : Prop where
  cpu : m'.cpu = { m.cpu with cycles := m'.cpu.cycles }
  bytes : RamBus.bytes m'.bus = bytes

namespace Machine

theorem Waited.trans {m m' m'' : Machine β} {bytes bytes' : Bytes} (first : m.Waited bytes m')
    (rest : m'.Waited bytes' m'') : m.Waited bytes' m'' :=
  ⟨by rw [rest.cpu, first.cpu], rest.bytes⟩

theorem Waited.model {m m' : Machine β} {bytes : Bytes} (h : m.Waited bytes m') :
    m'.cpu.model = m.cpu.model := by
  rw [h.cpu]

/-- Letting cycles pass is waiting, too. -/
theorem Waited.spend {m m' : Machine β} {bytes : Bytes} (h : m.Waited bytes m') (cycles : Nat) :
    m.Waited bytes (MachineM.spend cycles m').2 :=
  ⟨by rw [spend_apply, h.cpu], h.bytes⟩

theorem Waited.withRegisters {m m' : Machine β} {bytes : Bytes} (h : m.Waited bytes m')
    (registers : Registers) :
    (m.withRegisters registers).Waited bytes (m'.withRegisters registers) :=
  ⟨by unfold Machine.withRegisters; rw [h.cpu], h.bytes⟩

/-- An operand of any size is written. -/
theorem waits_writeOperand (size : Size) {m : Machine β} {address : BitVec 32}
    (aligned : m.cpu.model.Aligned address) (value : BitVec 32) :
    ∃ m', write size address value m = (.ok (), m') ∧
      m.Waited ((RamBus.bytes m.bus).store (m.cpu.model.place address) (size.truncate value) size)
        m' := by
  have even := aligned_place aligned size
  have reply := RamBus.write_reply size (m.cpu.model.place address) (size.truncate value)
    m.cpu.dataCode m.bus
  have bytes := RamBus.bytes_write size (m.cpu.model.place address) (size.truncate value)
    m.cpu.dataCode m.bus
  rw [write_apply, writeIn_apply]
  simp only [even, reply, Bool.false_eq_true, if_false]
  exact ⟨_, rfl, rfl, bytes⟩

/-- An operand of any size is read. -/
theorem waits_readOperand (size : Size) {m : Machine β} {address : BitVec 32}
    (aligned : m.cpu.model.Aligned address) :
    ∃ m', read size address m =
        (.ok ((RamBus.bytes m.bus).operand (m.cpu.model.place address) size), m') ∧
      m.Waited (RamBus.bytes m.bus) m' := by
  have even := aligned_place aligned size
  have reply := RamBus.read_reply size (m.cpu.model.place address) m.cpu.dataCode m.bus
  have bytes := RamBus.bytes_read size (m.cpu.model.place address) m.cpu.dataCode m.bus
  rw [read_apply, readIn_apply]
  simp only [even, reply.1, reply.2, Bool.false_eq_true, if_false]
  exact ⟨_, rfl, rfl, bytes⟩

theorem waits_write {m : Machine β} {address : BitVec 32}
    (aligned : m.cpu.model.Aligned address) (value : BitVec 32) :
    ∃ m', write .long address value m = (.ok (), m') ∧
      m.Waited ((RamBus.bytes m.bus).store (m.cpu.model.place address) value .long) m' := by
  have whole : Size.long.truncate value = value := by
    exact BitVec.setWidth_eq _
  have written := waits_writeOperand .long aligned value
  rwa [whole] at written

theorem waits_read {m : Machine β} {address : BitVec 32} (aligned : m.cpu.model.Aligned address) :
    ∃ m', read .long address m =
        (.ok ((RamBus.bytes m.bus).long (m.cpu.model.place address)), m') ∧
      m.Waited (RamBus.bytes m.bus) m' :=
  waits_readOperand .long aligned

/-- Long words that are written one after the other are there, and nothing else has changed. -/
theorem waits_writeLongs (words : List (BitVec 32)) (few : words.length < 4194304)
    {m : Machine β} {address : BitVec 32} (aligned : m.cpu.model.Aligned address) :
    ∃ m' bytes, Execution.writeLongs address words m = (.ok (), m') ∧ m.Waited bytes m' ∧
      bytes.HoldsLongs m.cpu.model address words ∧
      ∀ byte, ¬m.cpu.model.CoversLongs address words.length byte →
        bytes byte = RamBus.bytes m.bus byte := by
  induction words generalizing m address with
  | nil => exact ⟨m, _, rfl, ⟨rfl, rfl⟩, trivial, fun _ _ => rfl⟩
  | cons word rest ih =>
    have few' : rest.length < 4194304 := Nat.lt_of_succ_lt few
    obtain ⟨m₁, writes, waited⟩ := waits_write aligned word
    have aligned₁ : m₁.cpu.model.Aligned (address + 4) := waited.model ▸ aligned.add 1
    obtain ⟨m₂, bytes, goesOn, later, holds, outside⟩ := ih few' aligned₁
    rw [waited.model, waited.bytes] at *
    refine ⟨m₂, bytes, (bind_ok writes _).trans goesOn, waited.trans later, ⟨?_, holds⟩, ?_⟩
    · -- the rest does not reach around to the first one
      refine (Bytes.long_congr fun byte first => outside byte ?_).trans
        (Bytes.long_store_self _ _ word)
      exact Model.not_coversLongs_next few' first
    · intro byte apart
      rw [List.length_cons, Model.coversLongs_succ, not_or] at apart
      rw [outside byte apart.2]
      exact Bytes.store_long_of_outside _ word (Nat.le_of_not_lt apart.1)

/-- Long words that are written below an address register are where it points then. -/
theorem waits_writeBelow (r : RegisterNumber) (words : List (BitVec 32))
    (few : words.length < 4194304) {m : Machine β}
    (aligned : m.cpu.model.Aligned (m.cpu.registers.address r)) :
    let top := m.cpu.registers.address r - BitVec.ofNat 32 (4 * words.length)
    ∃ m' bytes, (do Execution.writeLongs (← preDecrement r (4 * words.length)) words) m =
        (.ok (), m') ∧
      (m.withRegisters (m.cpu.registers.setAddress r top)).Waited bytes m' ∧
      bytes.HoldsLongs m.cpu.model top words ∧
      ∀ byte, ¬m.cpu.model.CoversLongs top words.length byte →
        bytes byte = RamBus.bytes m.bus byte := by
  intro top
  rw [bind_ok (preDecrement_apply m r words.length)]
  exact waits_writeLongs words few
    (m := m.withRegisters (m.cpu.registers.setAddress r top)) (aligned.sub words.length)

/-- Long words that are there are read. -/
theorem waits_readLongs (words : List (BitVec 32)) {m : Machine β} {address : BitVec 32}
    (aligned : m.cpu.model.Aligned address)
    (holds : (RamBus.bytes m.bus).HoldsLongs m.cpu.model address words) :
    ∃ m', Execution.readLongs false words.length address m = (.ok words, m') ∧
      m.Waited (RamBus.bytes m.bus) m' := by
  induction words generalizing m address with
  | nil => exact ⟨m, rfl, rfl, rfl⟩
  | cons word rest ih =>
    obtain ⟨m₁, reads, waited⟩ := waits_read aligned
    rw [holds.1] at reads
    have aligned₁ : m₁.cpu.model.Aligned (address + 4) := waited.model ▸ aligned.add 1
    have holds₁ : (RamBus.bytes m₁.bus).HoldsLongs m₁.cpu.model (address + 4) rest := by
      rw [waited.model, waited.bytes]
      exact holds.2
    obtain ⟨m₂, goesOn, later⟩ := ih aligned₁ holds₁
    refine ⟨m₂, (bind_ok reads _).trans ((bind_ok goesOn _).trans rfl), ?_⟩
    rw [waited.bytes] at later
    exact waited.trans later

end Machine

end M68k
