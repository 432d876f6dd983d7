import M68k.Cpu.Bus
import Std.Data.HashMap

/-!
# Memory

A memory of bytes over all addresses, of which just those that were written are stored.  Values of
more than one byte have their most significant byte first, and addresses wrap around.

A memory alone is a bus: every access succeeds at once and nothing interrupts the processor.

* `byte_setByte` — a byte is what was written last;
* `store_byte` — storing a byte is writing it;
* `load_store` — what was stored is what is read back, at any address and of any size.
-/

namespace M68k

/-- A memory of bytes. -/
structure Memory where
  /-- The bytes that were written. -/
  written : Std.HashMap (BitVec 32) (BitVec 8)
  /-- What all other bytes hold. -/
  background : BitVec 32 → BitVec 8

namespace Memory

/-- A memory that nothing was written to. -/
def blank (background : BitVec 32 → BitVec 8) : Memory := ⟨∅, background⟩

/-- The byte at an address. -/
def byte (m : Memory) (address : BitVec 32) : BitVec 8 :=
  m.written.getD address (m.background address)

/-- Writes a byte. -/
def setByte (m : Memory) (address : BitVec 32) (value : BitVec 8) : Memory :=
  { m with written := m.written.insert address value }

/-- Bytes from an address on. -/
def bytes (m : Memory) : BitVec 32 → Nat → List (BitVec 8)
  | _, 0 => []
  | address, count + 1 => m.byte address :: m.bytes (address + 1) count

/-- Writes bytes from an address on. -/
def setBytes (m : Memory) : BitVec 32 → List (BitVec 8) → Memory
  | _, [] => m
  | address, value :: rest => (m.setByte address value).setBytes (address + 1) rest

/-- The number that bytes stand for. -/
def number (bytes : List (BitVec 8)) : BitVec 32 :=
  bytes.foldl (fun (value : BitVec 32) byte => value <<< 8 ||| byte.setWidth 32) 0

/-- The low bytes of a number. -/
def digits (count : Nat) (value : BitVec 32) : List (BitVec 8) :=
  (List.range count).reverse.map fun i => (value >>> (8 * i)).setWidth 8

/-- Reads an operand. -/
def load (m : Memory) (size : Size) (address : BitVec 32) : BitVec 32 :=
  number (m.bytes address size.bytes)

/-- Writes an operand. -/
def store (m : Memory) (size : Size) (address value : BitVec 32) : Memory :=
  m.setBytes address (digits size.bytes value)

instance : Bus Memory where
  read size address _ m := (⟨m.load size address, 0, false⟩, m)
  write size address value _ m := (⟨0, 0, false⟩, m.store size address value)
  interruptLevel m := (0, m)
  acknowledge _ m := (.autovector, m)
  reset m := m
  illegal _ m := (false, m)
  pcChanged _ m := m

/-- A byte is what was written to it last. -/
theorem byte_setByte (m : Memory) (address other : BitVec 32) (value : BitVec 8) :
    (m.setByte address value).byte other = if address = other then value else m.byte other := by
  simp [byte, setByte, Std.HashMap.getD_insert]

/-- Storing a byte is writing it. -/
theorem store_byte (m : Memory) (address value : BitVec 32) :
    m.store .byte address value = m.setByte address (value.setWidth 8) := by
  simp [store, digits, Size.bytes, setBytes, List.range_succ]

/-- What was stored is what is read back. -/
theorem load_store (m : Memory) (size : Size) (address value : BitVec 32) :
    (m.store size address value).load size address = size.truncate value := by
  cases size <;>
    simp [store, load, digits, Size.bytes, setBytes, bytes, number, List.range_succ, byte_setByte,
      Size.truncate, Size.part, Size.bits, BitVec.add_assoc]
  case word =>
    ext i hi
    by_cases h : i < 8
    · simp [h, show i < 16 by omega]
    · simp [h, show i - 8 < 8 ↔ i < 16 by omega, show 8 + (i - 8) = i by omega]
  case long =>
    ext i hi
    by_cases h : i < 8
    · simp [h, BitVec.getLsbD_eq_getElem hi]
    · by_cases h' : i < 16
      · simp [h, show i - 8 < 8 by omega, show 8 + (i - 8) = i by omega,
          BitVec.getLsbD_eq_getElem hi]
      · by_cases h'' : i < 24
        · simp [h, show ¬ i - 8 < 8 by omega, show i - 8 - 8 < 8 by omega,
            show 16 + (i - 8 - 8) = i by omega, BitVec.getLsbD_eq_getElem hi]
        · simp [h, show ¬ i - 8 < 8 by omega, show ¬ i - 8 - 8 < 8 by omega,
            show i - 8 - 8 - 8 < 8 by omega, show 24 + (i - 8 - 8 - 8) = i by omega,
            BitVec.getLsbD_eq_getElem hi]

end Memory

end M68k
