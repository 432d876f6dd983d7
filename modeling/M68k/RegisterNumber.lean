/-!
# Numbers of registers

Registers come in sets of eight, data and address registers taken together in a set of sixteen.
Three or four bits of an instruction word name one of them.

* `lt_eight` — a register number is an index into a file of eight registers;
* `val_ofNat`, `ofField_eq` — only the low bits count.
-/

namespace M68k

/-- The number of a register in a set of eight. -/
abbrev RegisterNumber := Fin 8

/-- A general register: numbers below eight are data registers, the others address registers. -/
abbrev GeneralRegister := Fin 16

namespace RegisterNumber

/-- The register whose number is in the low three bits. -/
def ofNat (n : Nat) : RegisterNumber := ⟨n % 8, Nat.mod_lt n (Nat.succ_pos 7)⟩

/-- The register in a field of an instruction word, given by its lowest bit. -/
def ofField {w : Nat} (word : BitVec w) (low : Nat) : RegisterNumber := ofNat (word.toNat >>> low)

/-- A register number is an index into a file of eight registers. -/
theorem lt_eight (n : RegisterNumber) : n.val < 8 := n.isLt

/-- Only the low three bits count. -/
@[simp] theorem val_ofNat (n : Nat) : (ofNat n).val = n % 8 := rfl

/-- A field is three bits wide. -/
theorem ofField_eq {w : Nat} {word : BitVec w} {low : Nat} {r : RegisterNumber}
    (number : r.val = (word.extractLsb' low 3).toNat) : ofField word low = r := by
  refine Fin.ext (Eq.trans ?_ number.symm)
  rw [BitVec.extractLsb'_toNat]
  rfl

end RegisterNumber

namespace GeneralRegister

/-- The register whose number is in the low four bits. -/
def ofNat (n : Nat) : GeneralRegister := ⟨n % 16, Nat.mod_lt n (Nat.succ_pos 15)⟩

/-- The register in the high bits of an extension word. -/
def ofExtension (extension : BitVec 16) : GeneralRegister := ofNat (extension.toNat >>> 12)

/-- A data register. -/
def data (n : RegisterNumber) : GeneralRegister := ofNat n.val

/-- An address register. -/
def address (n : RegisterNumber) : GeneralRegister := ofNat (8 + n.val)

/-- Its number within its own set of eight. -/
def number (n : GeneralRegister) : RegisterNumber := .ofNat n.val

/-- Whether it is a data register. -/
def isData (n : GeneralRegister) : Bool := n.val < 8

end GeneralRegister

end M68k
