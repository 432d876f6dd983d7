import M68k.Cpu.Memory
import M68k.Proofs.Cpu.Action

/-!
# Buses that are memories

On a `RamBus` every access succeeds, a read finds what its bytes are, and only a write changes them.
Waits, interrupt lines and acknowledgements are left open.  `Memory` is such a bus, and so are the
bytes alone.

A model with 24 address lines cuts addresses before they reach the bus, so what the processor sees
at an address are the bytes at `Model.place`.

* `readIn_ram`, `writeIn_ram`, `fetch_ram` — what the accesses of the processor do on such a bus.
-/

namespace M68k

/-- The bytes at all addresses. -/
abbrev Bytes := BitVec 32 → BitVec 8

namespace Bytes

variable (bytes : Bytes) (address : BitVec 32)

/-- The word at an address. -/
def word : BitVec 16 := bytes address ++ bytes (address + 1)

/-- The long word at an address. -/
def long : BitVec 32 := bytes.word address ++ bytes.word (address + 2)

/-- The operand at an address. -/
def operand : Size → BitVec 32
  | .byte => (bytes address).setWidth 32
  | .word => (bytes.word address).setWidth 32
  | .long => bytes.long address

/-- The bytes after one was written. -/
def put (value : BitVec 8) : Bytes := fun other => if address = other then value else bytes other

/-- The bytes after a word was written. -/
def putWord (value : BitVec 16) : Bytes :=
  (bytes.put address (value.extractLsb' 8 8)).put (address + 1) (value.extractLsb' 0 8)

/-- The bytes after an operand was written. -/
def store (value : BitVec 32) : Size → Bytes
  | .byte => bytes.put address (value.extractLsb' 0 8)
  | .word => bytes.putWord address (value.extractLsb' 0 16)
  | .long =>
    (bytes.putWord address (value.extractLsb' 16 16)).putWord (address + 2)
      (value.extractLsb' 0 16)

end Bytes

/-- A bus that is a memory of bytes. -/
class RamBus (β : Type) extends Bus β where
  /-- The bytes it holds. -/
  bytes : β → Bytes
  read_reply (size : Size) (address : BitVec 32) (space : FunctionCode) (bus : β) :
    (read size address space bus).1.error = false ∧
      size.truncate (read size address space bus).1.data = (bytes bus).operand address size
  bytes_read (size : Size) (address : BitVec 32) (space : FunctionCode) (bus : β) :
    bytes (read size address space bus).2 = bytes bus
  write_reply (size : Size) (address value : BitVec 32) (space : FunctionCode) (bus : β) :
    (write size address value space bus).1.error = false
  bytes_write (size : Size) (address value : BitVec 32) (space : FunctionCode) (bus : β) :
    bytes (write size address value space bus).2 = (bytes bus).store address value size
  fetch_reply (address : BitVec 32) (space : FunctionCode) (bus : β) :
    (fetch address space bus).1.error = false ∧
      (fetch address space bus).1.data.setWidth 16 = (bytes bus).word address
  bytes_fetch (address : BitVec 32) (space : FunctionCode) (bus : β) :
    bytes (fetch address space bus).2 = bytes bus
  bytes_interruptLevel (bus : β) : bytes (interruptLevel bus).2 = bytes bus
  bytes_acknowledge (level : BitVec 3) (bus : β) : bytes (acknowledge level bus).2 = bytes bus
  bytes_pcChanged (target : BitVec 32) (bus : β) : bytes (pcChanged target bus) = bytes bus

namespace Bytes

theorem truncate_operand (bytes : Bytes) (address : BitVec 32) (size : Size) :
    size.truncate (bytes.operand address size) = bytes.operand address size := by
  cases size with
  | byte =>
    show (((bytes address).setWidth 32).setWidth 8).setWidth 32 = (bytes address).setWidth 32
    simp
  | word =>
    show (((bytes.word address).setWidth 32).setWidth 16).setWidth 32 = _
    simp [operand]
  | long => exact (BitVec.setWidth_eq _).trans (BitVec.setWidth_eq _)

instance : Bus Bytes where
  read size address _ bytes := (⟨bytes.operand address size, 0, false⟩, bytes)
  write size address value _ bytes := (⟨0, 0, false⟩, bytes.store address value size)
  interruptLevel bytes := (0, bytes)
  acknowledge _ bytes := (.autovector, bytes)
  reset bytes := bytes
  illegal _ bytes := (false, bytes)
  pcChanged _ bytes := bytes

instance : RamBus Bytes where
  bytes b := b
  read_reply size address _ b := ⟨rfl, truncate_operand b address size⟩
  bytes_read _ _ _ _ := rfl
  write_reply _ _ _ _ _ := rfl
  bytes_write _ _ _ _ _ := rfl
  fetch_reply _ _ _ := ⟨rfl, BitVec.setWidth_setWidth_of_le _ (by decide)⟩
  bytes_fetch _ _ _ := rfl
  bytes_interruptLevel _ := rfl
  bytes_acknowledge _ _ := rfl
  bytes_pcChanged _ _ := rfl

end Bytes

namespace Memory

/-- Taking in one more byte appends it. -/
theorem append_byte {w : Nat} (value : BitVec w) (byte : BitVec 8) :
    value.setWidth 32 <<< 8 ||| byte.setWidth 32 = (value ++ byte).setWidth 32 := by
  ext i hi
  by_cases low : i < 8
  · simp [low, BitVec.getLsbD_append]
  · have : byte.getLsbD i = false := BitVec.getLsbD_of_ge byte i (by omega)
    simp [low, this, BitVec.getLsbD_append]

theorem two (address : BitVec 32) : address + 2 = address + 1 + 1 := by
  rw [BitVec.add_assoc]
  rfl

theorem load_eq (m : Memory) (size : Size) (address : BitVec 32) :
    m.load size address = Bytes.operand m.byte address size := by
  have first (byte : BitVec 8) : (0#32 <<< 8 ||| byte.setWidth 32) = byte.setWidth 32 := by simp
  cases size with
  | byte => exact first _
  | word =>
    show (0#32 <<< 8 ||| (m.byte address).setWidth 32) <<< 8 ||| _ = _
    rw [first, append_byte]
    rfl
  | long =>
    show (((0#32 <<< 8 ||| (m.byte address).setWidth 32) <<< 8 ||| _) <<< 8 ||| _) <<< 8 ||| _ = _
    rw [first, append_byte, append_byte, append_byte, BitVec.append_assoc, Bytes.operand,
      Bytes.long, Bytes.word, Bytes.word, two address]
    exact BitVec.setWidth_cast.trans (BitVec.setWidth_eq _)

/-- A byte of one of the words of a long word. -/
theorem extractLsb'_word (value : BitVec 32) (start : Nat) :
    (value.extractLsb' start 16).extractLsb' 0 8 = (value >>> start).setWidth 8 ∧
      (value.extractLsb' start 16).extractLsb' 8 8 = (value >>> (start + 8)).setWidth 8 := by
  constructor
  · ext i hi
    simp [show i < 16 by omega]
  · ext i hi
    simp [show 8 + i < 16 by omega, Nat.add_assoc]

theorem byte_store (m : Memory) (size : Size) (address value : BitVec 32) :
    (m.store size address value).byte = Bytes.store m.byte address value size := by
  have set (m : Memory) (address : BitVec 32) (value : BitVec 8) :
      (m.setByte address value).byte = Bytes.put m.byte address value :=
    funext fun other => byte_setByte m address other value
  cases size with
  | byte =>
    show (m.setByte _ _).byte = Bytes.put m.byte _ _
    rw [set]
    congr 1
  | word =>
    show ((m.setByte _ _).setByte _ _).byte = Bytes.putWord m.byte _ _
    rw [set, set, Bytes.putWord, (extractLsb'_word value 0).1, (extractLsb'_word value 0).2]
  | long =>
    show ((((m.setByte _ _).setByte _ _).setByte _ _).setByte _ _).byte =
      (Bytes.putWord m.byte _ _).putWord _ _
    rw [set, set, set, set, Bytes.putWord, Bytes.putWord, (extractLsb'_word value 0).1,
      (extractLsb'_word value 0).2, (extractLsb'_word value 16).1, (extractLsb'_word value 16).2,
      two address]

instance : RamBus Memory where
  bytes m := m.byte
  read_reply size address space m := by
    refine ⟨rfl, ?_⟩
    show size.truncate (m.load size address) = _
    rw [load_eq]
    exact Bytes.truncate_operand _ address size
  bytes_read _ _ _ _ := rfl
  write_reply _ _ _ _ _ := rfl
  bytes_write size address value _ m := byte_store m size address value
  fetch_reply address space m := by
    refine ⟨rfl, ?_⟩
    show (m.load .word address).setWidth 16 = _
    rw [load_eq]
    exact BitVec.setWidth_setWidth_of_le _ (by decide)
  bytes_fetch _ _ _ := rfl
  bytes_interruptLevel _ := rfl
  bytes_acknowledge _ _ := rfl
  bytes_pcChanged _ _ := rfl

end Memory

/-- With 24 address lines, the remainder of the address. -/
theorem Model.toNat_place {model : Model} (lines : model.capabilities.addressBus32 = false)
    (address : BitVec 32) : (model.place address).toNat = address.toNat % 16777216 := by
  rw [place, addressMask, if_neg (by simp [lines]), BitVec.toNat_and]
  exact Nat.and_two_pow_sub_one_eq_mod address.toNat 24

/-- With 32 address lines, the address itself. -/
theorem Model.place_of_lines {model : Model} (lines : model.capabilities.addressBus32 = true)
    (address : BitVec 32) : model.place address = address := by
  rw [place, addressMask, if_pos lines]
  exact BitVec.and_allOnes

/-- An even address reaches the bus as one. -/
theorem getLsbD_place (model : Model) {address : BitVec 32} (even : address.toNat % 2 = 0) :
    (model.place address).getLsbD 0 = false := by
  have low : address.getLsbD 0 = false := by
    rw [BitVec.getLsbD, Nat.testBit_zero, even]
    rfl
  rw [BitVec.getLsbD_and, low, Bool.false_and]

/-- The later models take odd addresses, too. -/
theorem aligned_place {model : Model} {address : BitVec 32}
    (even : model.capabilities.misalignedData = false → address.toNat % 2 = 0) (size : Size) :
    MachineM.misaligned model.capabilities size (model.place address) = false := by
  cases any : model.capabilities.misalignedData with
  | true => simp [MachineM.misaligned, any]
  | false =>
    have low := getLsbD_place model (even any)
    simp only [MachineM.misaligned, low, Bool.and_false, Bool.false_and]

variable {β : Type} [RamBus β]

/-- A machine that follows another with these registers and on these bytes. -/
structure Machine.Becomes (m : Machine β) (registers : Registers) (bytes : Bytes) (m' : Machine β) :
    Prop where
  registers : m'.cpu.registers = registers
  model : m'.cpu.model = m.cpu.model
  runState : m'.cpu.runState = m.cpu.runState
  bytes : RamBus.bytes m'.bus = bytes

theorem Machine.Becomes.trans {m m' m'' : Machine β} {registers registers' : Registers}
    {bytes bytes' : Bytes} (h : m.Becomes registers bytes m')
    (h' : m'.Becomes registers' bytes' m'') : m.Becomes registers' bytes' m'' :=
  ⟨h'.registers, h'.model.trans h.model, h'.runState.trans h.runState, h'.bytes⟩

namespace MachineM

/-- On the bytes alone a read changes nothing. -/
theorem read_bytes (m : Machine Bytes) (size : Size) (address : BitVec 32)
    (aligned : misaligned m.cpu.model.capabilities size (m.cpu.model.place address) = false) :
    read size address m = (.ok (m.bus.operand (m.cpu.model.place address) size), m) := by
  rw [read_apply, readIn_apply]
  dsimp only
  rw [if_neg (by simp [aligned])]
  refine (if_neg Bool.false_ne_true).trans ?_
  exact congrArg (fun value => ((.ok value, m) : Except Fault (BitVec 32) × Machine Bytes))
    (Bytes.truncate_operand m.bus _ size)

variable (m : Machine β) (space : FunctionCode)

/-- Reading finds what the bytes are. -/
theorem readIn_ram (size : Size) (address : BitVec 32)
    (even : m.cpu.model.capabilities.misalignedData = false → address.toNat % 2 = 0) :
    ∃ m', readIn space size address m =
        (.ok ((RamBus.bytes m.bus).operand (m.cpu.model.place address) size), m') ∧
      m.Becomes m.cpu.registers (RamBus.bytes m.bus) m' := by
  have aligned := aligned_place even size
  have reply := RamBus.read_reply size (m.cpu.model.place address) space m.bus
  refine ⟨m.after (Bus.read size (m.cpu.model.place address) space m.bus).1
    (Bus.read size (m.cpu.model.place address) space m.bus).2, ?_, ⟨rfl, rfl, rfl, ?_⟩⟩
  · rw [readIn_apply]
    dsimp only
    rw [if_neg (by simp [aligned]), if_neg (by simp [reply.1]), reply.2]
  · exact RamBus.bytes_read size _ space m.bus

/-- Writing changes the bytes of the operand. -/
theorem writeIn_ram (size : Size) (address value : BitVec 32)
    (even : m.cpu.model.capabilities.misalignedData = false → address.toNat % 2 = 0) :
    ∃ m', writeIn space size address value m = (.ok (), m') ∧
      m.Becomes m.cpu.registers
        ((RamBus.bytes m.bus).store (m.cpu.model.place address) (size.truncate value) size) m' := by
  have aligned := aligned_place even size
  have reply := RamBus.write_reply size (m.cpu.model.place address) (size.truncate value) space
    m.bus
  refine ⟨m.after
    (Bus.write size (m.cpu.model.place address) (size.truncate value) space m.bus).1
    (Bus.write size (m.cpu.model.place address) (size.truncate value) space m.bus).2, ?_,
    ⟨rfl, rfl, rfl, ?_⟩⟩
  · rw [writeIn_apply]
    dsimp only
    rw [if_neg (by simp [aligned]), if_neg (by simp [reply])]
  · exact RamBus.bytes_write size _ _ space m.bus

/-- Fetching finds the word at the program counter, if none was read ahead. -/
theorem fetch_ram (fresh : m.cpu.prefetched = none) (even : m.cpu.registers.pc.toNat % 2 = 0) :
    ∃ m', fetch m =
        (.ok ((RamBus.bytes m.bus).word (m.cpu.model.place m.cpu.registers.pc)), m') ∧
      m.Becomes { m.cpu.registers with pc := m.cpu.registers.pc + 2 } (RamBus.bytes m.bus) m' := by
  have low := getLsbD_place m.cpu.model even
  have none : prefetchedAt? m.cpu (m.cpu.model.place m.cpu.registers.pc) = none := by
    simp [prefetchedAt?, fresh]
  have reply := RamBus.fetch_reply (m.cpu.model.place m.cpu.registers.pc) m.cpu.programCode m.bus
  have bytes := RamBus.bytes_fetch (m.cpu.model.place m.cpu.registers.pc) m.cpu.programCode m.bus
  rw [fetch_apply]
  dsimp only
  rw [if_neg (by rw [low]; exact Bool.false_ne_true), none, fetchFromBus_apply]
  dsimp only
  rw [if_neg (by simp [reply.1]), reply.2]
  refine ⟨_, rfl, ?_⟩
  split
  · rw [readAhead_apply]
    dsimp only
    split
    · exact ⟨rfl, rfl, rfl, (RamBus.bytes_fetch _ _ _).trans bytes⟩
    · exact ⟨rfl, rfl, rfl, (RamBus.bytes_fetch _ _ _).trans bytes⟩
  · exact ⟨rfl, rfl, rfl, bytes⟩

end MachineM

end M68k
