import M68k.Proofs.Cpu.FieldBits
import M68k.Proofs.Cpu.IntegerSum
import M68k.Proofs.Cpu.LongWords

/-!
# Bits of memory

Memory is a sequence of bits, the most significant one of each byte first, which goes on around all
addresses.  A field that starts in some byte lies in a window from that byte on.  The window has
five bytes if the field reaches into the fifth one, and else four.

* `readWindow_window` — a field is read from its window;
* `bits_storeWindow` — writing the window replaces the field, and nothing else.
-/

namespace M68k

namespace Bytes

variable (bytes : Bytes) (address : BitVec 32)

/-- The bits of memory from those of an address on, around which they go on. -/
def bits (base : BitVec 32) (k : ℤ) : Bool :=
  (bytes (base + BitVec.ofInt 32 (k / 8))).getMsbD (k % 8).toNat

/-- A bit behind an address. -/
def bit (p : ℕ) : Bool := (bytes (address + BitVec.ofNat 32 (p / 8))).getMsbD (p % 8)

/-- Seen from any byte, all bits are behind it. -/
theorem bits_eq_bit (base : BitVec 32) (offset k : ℤ) :
    bytes.bits base k = bytes.bit (base + BitVec.ofInt 32 (offset / 8))
      ((k - 8 * (offset / 8)) % 34359738368).toNat := by
  have place : base + BitVec.ofInt 32 (k / 8) = base + BitVec.ofInt 32 (offset / 8) +
      BitVec.ofNat 32 (((k - 8 * (offset / 8)) % 34359738368).toNat / 8) := by
    rw [BitVec.add_assoc, ← BitVec.ofInt_natCast, ← BitVec.ofInt_add]
    congr 1
    apply BitVec.eq_of_toNat_eq
    rw [← Int.natCast_inj, Alu.toNat_ofInt, Alu.toNat_ofInt]
    omega
  rw [bits, bit, place]
  congr 1
  omega

theorem getMsbD_long {p : ℕ} (hp : p < 32) :
    (bytes.long address).getMsbD p = bytes.bit address p := by
  have next : address + 2 + 1 = address + 3 := BitVec.add_assoc address 2 1
  have first : address + BitVec.ofNat 32 0 = address := BitVec.add_zero address
  rw [long, word, word, BitVec.getMsbD_append, BitVec.getMsbD_append, BitVec.getMsbD_append, bit,
    next]
  obtain h | h | h | h : p / 8 = 0 ∨ p / 8 = 1 ∨ p / 8 = 2 ∨ p / 8 = 3 := by omega
  · rw [if_neg (by omega), if_neg (by omega), h, first, show p % 8 = p by omega]
  · rw [if_neg (by omega), if_pos (by omega), h, show p % 8 = p - 8 by omega]
    rfl
  · rw [if_pos (by omega), if_neg (by omega), h, show p % 8 = p - (8 + 8) by omega]
    rfl
  · rw [if_pos (by omega), if_pos (by omega), h, show p % 8 = p - (8 + 8) - 8 by omega]
    rfl

/-- How far behind an address a byte is. -/
theorem toNat_behind {n : ℕ} (hn : n < 4294967296) :
    (address + BitVec.ofNat 32 n - address).toNat = n := by
  rw [BitVec.add_comm, BitVec.add_sub_cancel, BitVec.toNat_ofNat, Nat.mod_eq_of_lt hn]

theorem bit_store_long (value : BitVec 32) {p : ℕ} (hp : p < 34359738368) :
    (bytes.store address value .long).bit address p =
      if p < 32 then value.getMsbD p else bytes.bit address p := by
  split_ifs with first
  · rw [← getMsbD_long _ _ first, long_store_self]
  · have behind := toNat_behind address (show p / 8 < 4294967296 by omega)
    rw [bit, store_long_of_outside _ _ (by omega), bit]

theorem bit_put_fifth (value : BitVec 8) {p : ℕ} (hp : p < 34359738368) :
    (bytes.put (address + 4) value).bit address p =
      if 32 ≤ p ∧ p < 40 then value.getMsbD (p - 32) else bytes.bit address p := by
  have fifth : address + 4 = address + BitVec.ofNat 32 (p / 8) ↔ 32 ≤ p ∧ p < 40 := by
    have behind := toNat_behind address (show p / 8 < 4294967296 by omega)
    constructor
    · intro same
      have four : (address + 4 - address).toNat = 4 := toNat_behind address (by decide)
      rw [← same, four] at behind
      omega
    · intro inside
      rw [show p / 8 = 4 by omega]
      rfl
  rw [bit, put]
  split_ifs with here inside inside
  · rw [show p % 8 = p - 32 by omega]
  · exact absurd (fifth.mp here) inside
  · exact absurd (fifth.mpr inside) here
  · rfl

/-! ## Windows of memory -/

/-- The window of four bytes, or of five. -/
def window (wide : Bool) : BitVec 64 :=
  bytes.long address ++ ((if wide then bytes (address + 4) else 0) ++ 0#24)

/-- How many bits of a window are bits of memory. -/
def windowBits (wide : Bool) : ℕ := if wide then 40 else 32

/-- The bytes after a window was written. -/
def storeWindow (wide : Bool) (window : BitVec 64) : Bytes :=
  let four := bytes.store address (window.extractLsb' 32 32) .long
  if wide then four.put (address + 4) (window.extractLsb' 24 8) else four

theorem getMsbD_window {wide : Bool} {p : ℕ} (hp : p < windowBits wide) :
    (bytes.window address wide).getMsbD p = bytes.bit address p := by
  rw [window, BitVec.getMsbD_append]
  by_cases behind : 32 ≤ p
  · cases wide with
    | false => exact absurd hp (Nat.not_lt.mpr behind)
    | true =>
      have last : p < 40 := hp
      rw [if_pos behind, if_pos rfl, BitVec.getMsbD_append, if_neg (by omega), bit,
        show p / 8 = 4 by omega, show p % 8 = p - 32 by omega]
      rfl
  · rw [if_neg behind]
    exact bytes.getMsbD_long address (Nat.lt_of_not_le behind)

theorem bit_storeWindow (wide : Bool) (window : BitVec 64) {p : ℕ} (hp : p < 34359738368) :
    (bytes.storeWindow address wide window).bit address p =
      if p < windowBits wide then window.getMsbD p else bytes.bit address p := by
  have four : (bytes.store address (window.extractLsb' 32 32) .long).bit address p =
      if p < 32 then window.getMsbD p else bytes.bit address p := by
    rw [bit_store_long _ _ _ hp]
    split_ifs with first
    · rw [BitVec.getMsbD_extractLsb', decide_eq_true first, decide_eq_true (by omega),
        Bool.true_and, Bool.true_and]
      congr 1
      omega
    · rfl
  cases wide with
  | false => exact four
  | true =>
    show ((bytes.store address _ .long).put (address + 4) _).bit address p = if p < 40 then _ else _
    rw [bit_put_fifth _ _ _ hp, four]
    by_cases last : 32 ≤ p ∧ p < 40
    · rw [if_pos last, if_pos last.2, BitVec.getMsbD_extractLsb', decide_eq_true (by omega),
        decide_eq_true (by omega), Bool.true_and, Bool.true_and]
      congr 1
      omega
    · rw [if_neg last]
      split_ifs <;> first | rfl | omega

open BitField

variable {w : ℕ}

/-- A field is read from its window. -/
theorem readWindow_window (hw : w ≤ 32) (base : BitVec 32) (offset : ℤ) :
    let start := (offset % 8).toNat
    readWindow (bytes.window (base + BitVec.ofInt 32 (offset / 8)) (32 < start + w)) start w =
      (fieldAt (bytes.bits base) offset w).setWidth 32 := by
  intro start
  refine readWindow_eq hw fun i hi => ?_
  rw [bits_eq_bit bytes base offset, getMsbD_window]
  · congr 1
    omega
  · rw [windowBits]
    split_ifs with wide
    · omega
    · rw [decide_eq_true_iff] at wide
      omega

/-- Writing a field to its window replaces it. -/
theorem bits_storeWindow (hw : w ≤ 32) (base : BitVec 32) (offset : ℤ) (new : BitVec w) :
    let start := (offset % 8).toNat
    let address := base + BitVec.ofInt 32 (offset / 8)
    let wide : Bool := 32 < start + w
    (bytes.storeWindow address wide
        (writeWindow (bytes.window address wide) start w (new.setWidth 32))).bits base =
      replaced (bytes.bits base) 34359738368 offset new := by
  intro start address wide
  funext k
  have low : start < 8 := by omega
  have reach : start + w ≤ windowBits wide := by
    rw [windowBits]
    split_ifs with reaches
    · omega
    · rw [decide_eq_true_iff] at reaches
      omega
  have most : windowBits wide ≤ 40 := by cases wide <;> decide
  rw [bits_eq_bit _ base offset k, replaced, bits_eq_bit bytes base offset k]
  have position : (k - offset) % (34359738368 : ℕ) =
      (((k - 8 * (offset / 8)) % 34359738368).toNat - start : ℤ) % 34359738368 := by
    omega
  have hp : ((k - 8 * (offset / 8)) % 34359738368).toNat < 34359738368 := by omega
  rw [position]
  generalize ((k - 8 * (offset / 8)) % 34359738368).toNat = p at hp ⊢
  rw [bit_storeWindow _ _ _ _ hp]
  by_cases inside : start ≤ p ∧ p < start + w
  · rw [if_pos (by omega), getMsbD_writeWindow hw _ (by omega) (by omega), if_pos inside,
      if_pos (by omega)]
    congr 1
    omega
  · rw [if_neg (by omega : ¬ (p - start : ℤ) % 34359738368 < w)]
    split_ifs with near
    · rw [getMsbD_writeWindow hw _ (by omega) (by omega), if_neg inside, getMsbD_window _ _ near]
    · rfl

end Bytes

end M68k
