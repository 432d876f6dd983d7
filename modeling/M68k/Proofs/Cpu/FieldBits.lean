import M68k.Cpu.BitField
import M68k.Cpu.Execution.Bits
import Mathlib.Tactic

/-!
# Bit fields by their bits

The operand of a bit-field operation is a sequence of bits, numbered from the most significant one
of its first byte on.  The sequence goes on in both directions and repeats itself, after 32 bits in
a register and after all bits of memory there.  A field is a word of some bits in their order, and
all that a modifying operation does is to replace it (`replaced`).

The two ways in which fields are reached, through a register that is rotated and through a window of
five bytes, read and replace the bits of the field.

* `fieldAt_replaced`, `replaced_of_outside` — what replacing a field does;
* `readRegister_eq`, `registerBits_writeRegister` — fields in registers;
* `readWindow_eq`, `getMsbD_writeWindow` — fields in a window.
-/

namespace M68k

namespace BitField

open BitVec

variable {w : ℕ}

/-- The field of some bits that starts at an offset. -/
def fieldAt (bits : ℤ → Bool) (offset : ℤ) : (w : ℕ) → BitVec w
  | 0 => 0
  | w + 1 => (fieldAt bits offset w).concat (bits (offset + w))

/-- The bits when a field of them was replaced, where bits so far apart as the period are the
same. -/
def replaced (bits : ℤ → Bool) (period : ℕ) (offset : ℤ) (new : BitVec w) (k : ℤ) : Bool :=
  if (k - offset) % period < w then new.getMsbD ((k - offset) % period).toNat else bits k

theorem getMsbD_fieldAt (bits : ℤ → Bool) (offset : ℤ) {i : ℕ} (hi : i < w) :
    (fieldAt bits offset w).getMsbD i = bits (offset + i) := by
  induction w with
  | zero => exact absurd hi (Nat.not_lt_zero i)
  | succ w ih =>
    rw [fieldAt, getMsbD_concat]
    split_ifs with before
    · exact ih before
    · simp [show i = w by omega]

/-- The replaced field is the new one. -/
theorem fieldAt_replaced (bits : ℤ → Bool) {period : ℕ} (fits : w ≤ period) (offset : ℤ)
    (new : BitVec w) : fieldAt (replaced bits period offset new) offset w = new := by
  apply BitVec.eq_of_getMsbD_eq
  intro i hi
  have place : (offset + i - offset) % (period : ℤ) = i := by
    rw [add_sub_cancel_left]
    exact Int.emod_eq_of_lt (by omega) (by omega)
  rw [getMsbD_fieldAt _ _ hi, replaced, place, if_pos (by omega), Int.toNat_natCast]

/-- The bits outside of a field stay when it is replaced. -/
theorem replaced_of_outside (bits : ℤ → Bool) {period : ℕ} (pos : 0 < period) (offset : ℤ)
    (new : BitVec w) {k : ℤ} (outside : ∀ i < w, ¬(period : ℤ) ∣ k - (offset + i)) :
    replaced bits period offset new k = bits k := by
  rw [replaced, if_neg]
  intro inside
  have low := Int.emod_nonneg (k - offset) (b := (period : ℤ)) (by omega)
  refine outside ((k - offset) % period).toNat (by omega) ?_
  rw [Int.toNat_of_nonneg low, ← Int.sub_sub]
  exact Int.dvd_self_sub_emod

/-! ## Operations on words of any width -/

end BitField

namespace BitFieldOp

variable {w : ℕ}

/-- The new field for the operations that modify it. -/
def renewed (op : BitFieldOp) (field source : BitVec w) : Option (BitVec w) :=
  match op with
  | chg => some (~~~field)
  | clr => some 0
  | set => some (.allOnes w)
  | ins => some source
  | tst | extu | exts | ffo => none

/-- What the condition codes describe: the field as it was, or what is inserted. -/
def described (op : BitFieldOp) (field source : BitVec w) : BitVec w :=
  if op = ins then source else field

/-- What the other operations put into a register. -/
def yielded (op : BitFieldOp) (offset : BitVec 32) (field : BitVec w) : Option (BitVec 32) :=
  match op with
  | extu => some (field.setWidth 32)
  | exts => some (field.signExtend 32)
  | ffo => some (offset + BitVec.ofNat 32 field.clz.toNat)
  | tst | chg | clr | set | ins => none

end BitFieldOp

namespace BitField

open BitVec

variable {w : ℕ}

theorem getLsbD_mask {i : ℕ} (hi : i < 32) : (mask w).getLsbD i = decide (i < w) := by
  rw [mask, getLsbD_ofNat, decide_eq_true hi, Bool.true_and]
  exact Nat.testBit_two_pow_sub_one w i

/-- Cutting to the mask is cutting to the width. -/
theorem and_mask (value : BitVec 32) : value &&& mask w = (value.setWidth w).setWidth 32 := by
  apply BitVec.eq_of_getLsbD_eq
  intro i hi
  rw [getLsbD_and, getLsbD_mask hi, getLsbD_setWidth, getLsbD_setWidth, decide_eq_true hi,
    Bool.true_and, Bool.and_comm]

theorem mask_eq : mask w = (allOnes w).setWidth 32 := by
  apply BitVec.eq_of_getLsbD_eq
  intro i hi
  rw [getLsbD_mask hi, getLsbD_setWidth, getLsbD_allOnes, decide_eq_true hi, Bool.true_and]

section

variable (hw : 1 ≤ w) (hw' : w ≤ 32)

include hw'

theorem setWidth_setWidth_field (field : BitVec w) : (field.setWidth 32).setWidth w = field := by
  rw [setWidth_setWidth_of_le _ hw', setWidth_eq]

theorem replacement_eq (op : BitFieldOp) (field : BitVec w) (source : BitVec 32) :
    op.replacement w (field.setWidth 32) source =
      (op.renewed field (source.setWidth w)).map (·.setWidth 32) := by
  have complement : (~~~field.setWidth 32).setWidth w = ~~~field := by
    rw [setWidth_not hw', setWidth_setWidth_field hw']
  cases op <;> simp only [BitFieldOp.replacement, BitFieldOp.renewed, Option.map_some,
    Option.map_none]
  case chg => rw [and_mask, complement]
  case clr => simp
  case set => rw [mask_eq]
  case ins => rw [and_mask]

include hw

theorem getLsbD_top (field : BitVec w) : (field.setWidth 32).getLsbD (w - 1) = field.msb := by
  rw [getLsbD_setWidth, decide_eq_true (by omega), Bool.true_and, msb_eq_getLsbD_last]

theorem signExtend_eq (field : BitVec w) :
    signExtend (field.setWidth 32) w = field.signExtend 32 := by
  apply BitVec.eq_of_getLsbD_eq
  intro i hi
  rw [signExtend, getLsbD_top hw hw', getLsbD_signExtend, decide_eq_true hi, Bool.true_and]
  have same : (field.setWidth 32).getLsbD i = field.getLsbD i := by
    rw [getLsbD_setWidth, decide_eq_true hi, Bool.true_and]
  have extended : (field.setWidth 32 ||| ~~~mask w).getLsbD i =
      (field.getLsbD i || !decide (i < w)) := by
    rw [getLsbD_or, getLsbD_not, getLsbD_mask hi, same, decide_eq_true hi, Bool.true_and]
  by_cases inside : i < w
  · split_ifs
    · rw [extended, decide_eq_true inside, Bool.not_true, Bool.or_false]
    · exact same
  · split_ifs with sign
    · rw [extended, decide_eq_false inside, sign, Bool.not_false, Bool.or_true]
    · rw [same, getLsbD_of_ge field i (by omega), Bool.eq_false_iff.mpr sign]

theorem leadingZeros_eq (field : BitVec w) :
    leadingZeros (field.setWidth 32) w = field.clz.toNat := by
  have number : (field.setWidth 32).toNat = field.toNat := toNat_setWidth_of_le hw'
  have short : (w : BitVec w).toNat = w := Nat.mod_eq_of_lt Nat.lt_two_pow_self
  rw [leadingZeros]
  split_ifs with zero
  · have nothing : field = 0#w := by
      rw [← setWidth_setWidth_field hw' field, zero]
      exact setWidth_zero w 32
    rw [clz_eq_iff_eq_zero.mpr nothing, short]
  · have something : field ≠ 0#w := by
      rintro rfl
      exact zero (setWidth_zero 32 w)
    have few : field.clz.toNat < w := by
      have := BitVec.lt_def.mp (clz_lt_iff_ne_zero.mpr something)
      rwa [short] at this
    have low := two_pow_sub_clz_le_toNat_of_ne_zero hw something
    have high := toNat_lt_two_pow_sub_clz (x := field)
    have top : field.toNat.log2 = w - 1 - field.clz.toNat := by
      rw [Nat.log2_eq_iff (by simpa using toNat_ne.mp something)]
      exact ⟨low, by rwa [show w - 1 - field.clz.toNat + 1 = w - field.clz.toNat by omega]⟩
    rw [number, top]
    omega

theorem extraction_eq (op : BitFieldOp) (offset : BitVec 32) (field : BitVec w) :
    op.extraction offset w (field.setWidth 32) = op.yielded offset field := by
  cases op <;> simp only [BitFieldOp.extraction, BitFieldOp.yielded, signExtend_eq hw hw',
    leadingZeros_eq hw hw']

/-- The codes of a field are its sign and whether it is zero. -/
theorem codes_eq (field : BitVec w) (sr : StatusRegister) :
    codes (field.setWidth 32) w sr =
      (((sr.set .n field.msb).set .z (field == 0)).set .v false).set .c false := by
  have zero : (field.setWidth 32 == 0) = (field == 0) := by
    rw [Bool.eq_iff_iff, beq_iff_eq, beq_iff_eq]
    refine ⟨fun same => ?_, fun same => same ▸ setWidth_zero 32 w⟩
    rw [← setWidth_setWidth_field hw' field, same]
    exact setWidth_zero w 32
  rw [codes, getLsbD_top hw hw', and_mask, setWidth_setWidth_field hw', zero]

end

/-! ## Registers and windows -/

/-- The bits of a register, around which they go on. -/
def registerBits (value : BitVec 32) (k : ℤ) : Bool :=
  value.getMsbD (k % 32).toNat

theorem registerBits_rotateLeft (value : BitVec 32) (start : ℕ) (k : ℤ) :
    registerBits (value.rotateLeft start) k = registerBits value (k + start) := by
  rw [registerBits, getMsbD_rotateLeft, decide_eq_true (by omega), Bool.true_and, registerBits]
  congr 1
  omega

theorem registerBits_rotateRight (value : BitVec 32) {start : ℕ} (low : start < 32) (k : ℤ) :
    registerBits (value.rotateRight start) k = registerBits value (k - start) := by
  rw [registerBits, getMsbD_rotateRight, decide_eq_true (by omega), Bool.true_and, registerBits]
  split_ifs
  · congr 1
    omega
  · congr 1
    omega

/-- A field that is moved to its place in a longer word, which is clear elsewhere. -/
theorem getMsbD_placed {v start : ℕ} (fits : start + w ≤ v) (field : BitVec w) (i : ℕ) :
    (field.setWidth v <<< (v - w - start)).getMsbD i =
      (decide (start ≤ i) && field.getMsbD (i - start)) := by
  rw [getMsbD_shiftLeft, getMsbD_setWidth]
  by_cases before : start ≤ i
  · rw [decide_eq_true before, decide_eq_true (by omega),
      show i + (v - w - start) + w - v = i - start by omega]
  · rw [decide_eq_false before, decide_eq_false (by omega), Bool.false_and, Bool.false_and]

/-- The bits under a mask are replaced by those of a field. -/
theorem getMsbD_merged {v start i : ℕ} (fits : start + w ≤ v) (hi : i < v) (value : BitVec v)
    (new : BitVec w) :
    ((value &&& ~~~((allOnes w).setWidth v <<< (v - w - start))) |||
        (new.setWidth v <<< (v - w - start))).getMsbD i =
      if start ≤ i ∧ i < start + w then new.getMsbD (i - start) else value.getMsbD i := by
  rw [getMsbD_or, getMsbD_and, getMsbD_not, getMsbD_placed fits, getMsbD_placed fits,
    decide_eq_true hi, Bool.true_and, getMsbD_allOnes]
  by_cases before : start ≤ i
  · by_cases inside : i < start + w
    · simp [before, inside, show i - start < w by omega]
    · simp [before, inside, show ¬i - start < w by omega, getMsbD_of_ge new (i - start) (by omega)]
  · simp [before]

/-- The bits on top of a word. -/
theorem top_eq {v : ℕ} (hw : w ≤ 32) (hv : 32 ≤ v) {value : BitVec v} {field : BitVec w}
    (same : ∀ i < w, value.getMsbD i = field.getMsbD i) :
    (value >>> (v - w)).setWidth 32 = field.setWidth 32 := by
  apply BitVec.eq_of_getMsbD_eq
  intro i hi
  rw [getMsbD_setWidth, getMsbD_setWidth, getMsbD_ushiftRight, decide_eq_true (by omega),
    decide_eq_true (by omega), Bool.true_and, Bool.true_and]
  by_cases inside : 32 - w ≤ i
  · rw [decide_eq_true inside, decide_eq_false (by omega),
      show i + v - 32 - (v - w) = i + w - 32 by omega, same _ (by omega), Bool.not_false]
  · rw [decide_eq_false inside, decide_eq_true (by omega), Bool.not_true, Bool.false_and,
      Bool.false_and]

section

variable (hw' : w ≤ 32)

include hw'

/-- Fields in registers. -/
theorem readRegister_eq (value : BitVec 32) {start : ℕ} {offset : ℤ}
    (first : (start : ℤ) = offset % 32) :
    readRegister value start w = (fieldAt (registerBits value) offset w).setWidth 32 := by
  refine (setWidth_eq _).symm.trans (top_eq hw' le_rfl fun i hi => ?_)
  rw [getMsbD_fieldAt _ _ hi, getMsbD_rotateLeft, decide_eq_true (by omega), Bool.true_and,
    registerBits]
  congr 1
  omega

theorem registerBits_writeRegister (value : BitVec 32) {start : ℕ} {offset : ℤ}
    (first : (start : ℤ) = offset % 32) (new : BitVec w) :
    registerBits (writeRegister value start w (new.setWidth 32)) =
      replaced (registerBits value) 32 offset new := by
  have inField : new.setWidth 32 <<< (32 - w) &&& (allOnes w).setWidth 32 <<< (32 - w) =
      new.setWidth 32 <<< (32 - w) := by
    rw [← shiftLeft_and_distrib, ← mask_eq, and_mask, setWidth_setWidth_field hw']
  funext k
  have position : (k - start) % 32 = (k - offset) % 32 := by omega
  have place : ((k - offset) % 32).toNat < 32 := by omega
  have merged := getMsbD_merged (show 0 + w ≤ 32 by omega) place (value.rotateLeft start) new
  rw [Nat.sub_zero, Nat.sub_zero] at merged
  rw [writeRegister, registerBits_rotateRight _ (by omega), mask_eq, inField, registerBits,
    position, merged, replaced, Nat.cast_ofNat]
  by_cases inside : (k - offset) % 32 < w
  · rw [if_pos (by omega), if_pos inside]
  · have back := registerBits_rotateLeft value start (k - start)
    rw [registerBits, position, Int.sub_add_cancel] at back
    rw [if_neg (by omega), if_neg inside, back]

/-- Fields in windows. -/
theorem readWindow_eq {window : BitVec 64} {start : ℕ} {bits : ℤ → Bool} {offset : ℤ}
    (same : ∀ i < w, window.getMsbD (start + i) = bits (offset + i)) :
    readWindow window start w = (fieldAt bits offset w).setWidth 32 := by
  refine top_eq hw' (by decide) fun i hi => ?_
  rw [getMsbD_fieldAt _ _ hi, getMsbD_shiftLeft, Nat.add_comm, same i hi]

theorem getMsbD_writeWindow (window : BitVec 64) {start i : ℕ} (fits : start + w ≤ 64)
    (hi : i < 64) (new : BitVec w) :
    (writeWindow window start w (new.setWidth 32)).getMsbD i =
      if start ≤ i ∧ i < start + w then new.getMsbD (i - start) else window.getMsbD i := by
  have longer (field : BitVec w) : (field.setWidth 32).setWidth 64 = field.setWidth 64 :=
    setWidth_setWidth (by omega)
  rw [writeWindow, mask_eq, longer, longer, getMsbD_merged fits hi]

end

end BitField

end M68k
