import M68k.Cpu.Shift
import M68k.Proofs.Cpu.IntegerSum

/-!
# Shifts in one piece

Bit by bit a shift hands out the operand's bits at one end and takes in new ones at the other.  All
bits that will ever leave form one stream (`ShiftKind.leaving`): first those of the operand, in
their order, and then what the kind of shift feeds in.  After `n` steps the operand is what comes
next in the stream, and carry is its bit before (`Streams`).  The same stream is read off the
product, the quotient or the rotation that the shift amounts to, so the two agree.

Overflow is apart from this: it accumulates changes of the sign, and there is none just as long as
the product with a power of two stays in the signed range.

* `ShiftKind.front_moved` — the closed form by its bits;
* `streams_steps` — an operand on its way through a shift by its bits;
* `overflow_steps` — overflow as a fact about an integer;
* `shift_closed_form` — a shift with all its codes.
-/

namespace M68k

open BitVec

variable {w : ℕ}

namespace ShiftKind

/-- What a shift by `n` bits makes of an operand and the extend flag. -/
def moved (kind : ShiftKind) (left : Bool) (v : BitVec w) (x : Bool) (n : ℕ) : BitVec w :=
  match kind, left with
  | arithmetic, true | logical, true => BitVec.ofNat w (v.toNat * 2 ^ n)
  | arithmetic, false => BitVec.ofInt w (v.toInt / 2 ^ n)
  | logical, false => BitVec.ofNat w (v.toNat / 2 ^ n)
  | rotateExtend, true => ((cons x v).rotateLeft (n % (w + 1))).setWidth w
  | rotateExtend, false => ((cons x v).rotateRight (n % (w + 1))).setWidth w
  | rotate, true => v.rotateLeft (n % w)
  | rotate, false => v.rotateRight (n % w)

/-- The bit that leaves an operand as number `k`, counted from zero.  An operand without bits left
hands out zeros, or copies of its sign when it moves right as a signed number. -/
def leaving (kind : ShiftKind) (left : Bool) (v : BitVec w) (x : Bool) (k : ℕ) : Bool :=
  match kind, left with
  | arithmetic, true | logical, true => v.getMsbD k
  | arithmetic, false => if k < w then v.getLsbD k else v.msb
  | logical, false => v.getLsbD k
  | rotateExtend, true => (cons x v).getMsbD ((k + 1) % (w + 1))
  | rotateExtend, false => (cons x v).getLsbD (k % (w + 1))
  | rotate, true => v.getMsbD (k % w)
  | rotate, false => v.getLsbD (k % w)

/-- The carry of a shift by `n` bits: the last bit that left. -/
def carryOut (kind : ShiftKind) (left : Bool) (v : BitVec w) (x : Bool) (n : ℕ) : Bool :=
  if n = 0 then kind = rotateExtend && x else kind.leaving left v x (n - 1)

/-- Whether condition codes describe a shift by `n` bits. -/
structure Reports (kind : ShiftKind) (left : Bool) (v : BitVec w) (n : ℕ)
    (before after : StatusRegister) : Prop where
  carry : after.has .c = kind.carryOut left v (before.has .x) n
  extend : after.has .x = if n = 0 ∨ kind = rotate then before.has .x else after.has .c
  overflow : after.has .v = true ↔ kind = arithmetic ∧ left = true ∧
    (v.toInt * 2 ^ n < -2 ^ (w - 1) ∨ 2 ^ (w - 1) ≤ v.toInt * 2 ^ n)
  negative : after.has .n = true ↔ (kind.moved left v (before.has .x) n).toInt < 0
  zero : after.has .z = true ↔ kind.moved left v (before.has .x) n = 0
  system : after &&& ~~~StatusRegister.codeMask = before &&& ~~~StatusRegister.codeMask

/-! ## Bits in the order in which they leave -/

/-- Bit `i` of an operand, counted from the end at which bits leave. -/
def front (left : Bool) (v : BitVec w) (i : ℕ) : Bool :=
  if left then v.getMsbD i else v.getLsbD i

theorem eq_of_front {left : Bool} {v v' : BitVec w}
    (same : ∀ i < w, front left v i = front left v' i) : v = v' := by
  cases left
  · exact BitVec.eq_of_getLsbD_eq same
  · exact BitVec.eq_of_getMsbD_eq same

theorem getLsbD_rotateRight_mod (v : BitVec w) (n : ℕ) {i : ℕ} (hi : i < w) :
    (v.rotateRight n).getLsbD i = v.getLsbD ((n + i) % w) := by
  rw [getLsbD_rotateRight, Nat.add_mod, Nat.mod_eq_of_lt hi]
  have turns := Nat.mod_lt n (Nat.zero_lt_of_lt hi)
  generalize n % w = turn at turns ⊢
  rcases lt_or_ge i (w - turn) with below | wrapped
  · rw [decide_eq_true below, cond_true, Nat.mod_eq_of_lt (by omega)]
  · rw [decide_eq_false (by omega), cond_false, decide_eq_true hi, Bool.true_and,
      Nat.mod_eq_sub_mod (by omega), Nat.mod_eq_of_lt (by omega)]
    congr 1
    omega

theorem getMsbD_rotateLeft_mod (v : BitVec w) (n : ℕ) {i : ℕ} (hi : i < w) :
    (v.rotateLeft n).getMsbD i = v.getMsbD ((n + i) % w) := by
  rw [getMsbD_rotateLeft, decide_eq_true hi, Bool.true_and]

/-- The operand's own bits leave first. -/
theorem leaving_of_lt (kind : ShiftKind) (left : Bool) (v : BitVec w) (x : Bool) {i : ℕ}
    (hi : i < w) : kind.leaving left v x i = front left v i := by
  cases kind <;> cases left <;> simp only [leaving, front, if_true, Bool.false_eq_true, if_false]
  case arithmetic.false => rw [if_pos hi]
  case rotateExtend.false =>
    rw [Nat.mod_eq_of_lt (by omega), getLsbD_cons, if_neg (by omega)]
  case rotateExtend.true => rw [Nat.mod_eq_of_lt (by omega), getMsbD_cons_succ]
  all_goals rw [Nat.mod_eq_of_lt hi]

/-- The bits of the closed form are those that would leave next. -/
theorem front_moved (kind : ShiftKind) (left : Bool) (v : BitVec w) (x : Bool) (n : ℕ) {i : ℕ}
    (hi : i < w) : front left (kind.moved left v x n) i = kind.leaving left v x (n + i) := by
  have product : BitVec.ofNat w (v.toNat * 2 ^ n) = v <<< n := by
    apply BitVec.eq_of_toNat_eq
    rw [toNat_shiftLeft, toNat_ofNat, Nat.shiftLeft_eq]
  have quotient : BitVec.ofNat w (v.toNat / 2 ^ n) = v >>> n := by
    apply BitVec.eq_of_toNat_eq
    rw [toNat_ushiftRight, Nat.shiftRight_eq_div_pow, toNat_ofNat,
      Nat.mod_eq_of_lt ((Nat.div_le_self _ _).trans_lt v.isLt)]
  have signed : BitVec.ofInt w (v.toInt / 2 ^ n) = v.sshiftRight n := by
    rw [sshiftRight_eq, Int.shiftRight_eq_div_pow]
    push_cast
    rfl
  cases kind <;> cases left <;>
    simp only [front, moved, leaving, if_true, Bool.false_eq_true, if_false, product, quotient,
      signed, rotateLeft_mod_eq_rotateLeft, rotateRight_mod_eq_rotateRight]
  case arithmetic.false =>
    rw [getLsbD_sshiftRight, decide_eq_false (by omega), Bool.not_false, Bool.true_and]
  case arithmetic.true | logical.true => rw [getMsbD_shiftLeft, Nat.add_comm]
  case logical.false => rw [getLsbD_ushiftRight]
  case rotateExtend.false =>
    rw [getLsbD_setWidth, decide_eq_true hi, Bool.true_and, getLsbD_rotateRight_mod _ _ (by omega)]
  case rotateExtend.true =>
    -- the extend flag stands above the bits that count
    rw [getMsbD_setWidth, show i + (w + 1) - w = i + 1 by omega,
      getMsbD_rotateLeft_mod _ _ (by omega)]
    simp [Nat.add_assoc]
  case rotate.false => exact getLsbD_rotateRight_mod v n hi
  case rotate.true => exact getMsbD_rotateLeft_mod v n hi

end ShiftKind

/-! ## Step by step -/

namespace Shifter

open ShiftKind

/-- What an operand and its flags are after `n` steps. -/
structure Streams (kind : ShiftKind) (left : Bool) (v : BitVec w) (x : Bool) (n : ℕ)
    (s : Shifter w) : Prop where
  bits : ∀ i < w, front left s.value i = kind.leaving left v x (n + i)
  carry : s.carry = if n = 0 then false else kind.leaving left v x (n - 1)
  extend : s.extend = if n = 0 ∨ kind = .rotate then x else kind.leaving left v x (n - 1)

/-- The bit that comes in at the other end. -/
def incoming (kind : ShiftKind) (left : Bool) (s : Shifter w) : Bool :=
  if left then s.incomingLow kind else s.incomingHigh kind

/-- A step brings each bit one place forward. -/
theorem front_step (kind : ShiftKind) (left : Bool) (s : Shifter w) {i : ℕ} (hi : i < w) :
    front left (s.step kind left).value i =
      if i + 1 < w then front left s.value (i + 1) else s.incoming kind left := by
  cases left
  · have incoming (b : Bool) :
        (if b then intMin w else 0).getLsbD i = (decide (i + 1 = w) && b) := by
      cases b <;> simp [getLsbD_intMin]
    simp only [front, step, Shifter.incoming, Bool.false_eq_true, if_false, getLsbD_or,
      getLsbD_ushiftRight, incoming]
    split_ifs with inside
    · simp [show i + 1 ≠ w by omega, Nat.add_comm]
    · simp [show i + 1 = w by omega, show w ≤ 1 + i by omega]
  · have incoming (b : Bool) : ((ofBool b).setWidth w).getMsbD i = (decide (i + 1 = w) && b) := by
      rw [getMsbD_setWidth, getMsbD_ofBool, ← Bool.and_assoc, ← Bool.decide_and]
      congr 2
      exact propext (by omega)
    simp only [front, step, Shifter.incoming, if_true, getMsbD_or, getMsbD_shiftLeft, incoming]
    split_ifs with inside
    · simp [show i + 1 ≠ w by omega]
    · simp [show i + 1 = w by omega]

/-- The bit that a step hands out. -/
theorem step_carry (kind : ShiftKind) (left : Bool) (s : Shifter w) :
    (s.step kind left).carry = front left s.value 0 := by
  cases left
  · rfl
  · exact msb_eq_getMsbD_zero s.value

variable {kind : ShiftKind} {left : Bool} {v : BitVec w} {x : Bool} {n : ℕ} {s : Shifter w}

/-- The bit that comes in is the one that will leave after those of the operand. -/
theorem Streams.incoming (hw : 1 ≤ w) (streams : Streams kind left v x n s) :
    s.incoming kind left = kind.leaving left v x (n + w) := by
  have first := streams.bits 0 hw
  have last := streams.bits (w - 1) (by omega)
  have extend := streams.extend
  cases kind <;> cases left <;>
    simp only [Shifter.incoming, incomingLow, incomingHigh, front, leaving, if_true,
      Bool.false_eq_true, if_false] at first last extend ⊢
  case arithmetic.true | logical.true => rw [getMsbD_of_ge _ _ (by omega)]
  case logical.false => rw [getLsbD_of_ge _ _ (by omega)]
  case arithmetic.false =>
    rw [msb_eq_getLsbD_last, last, if_neg (show ¬n + w < w by omega)]
    split_ifs with fresh
    · rw [show n = 0 by omega, Nat.zero_add, msb_eq_getLsbD_last]
    · rfl
  case rotateExtend.false =>
    rw [extend]
    rcases n with _ | n
    · simp [getElem_cons]
    · simp [show n + 1 + w = n + (w + 1) by omega]
  case rotateExtend.true =>
    rw [extend]
    rcases n with _ | n
    · simp
    · simp [show n + 1 + w + 1 = n + 1 + (w + 1) by omega]
  case rotate.false => rw [first, Nat.add_zero, Nat.add_mod_right]
  case rotate.true => rw [msb_eq_getMsbD_zero, first, Nat.add_zero, Nat.add_mod_right]

/-- One more step moves one place forward in the stream. -/
theorem Streams.step (hw : 1 ≤ w) (streams : Streams kind left v x n s) :
    Streams kind left v x (n + 1) (s.step kind left) := by
  have out : (s.step kind left).carry = kind.leaving left v x n := by
    rw [step_carry, streams.bits 0 hw, Nat.add_zero]
  refine ⟨fun i hi => ?_, out, ?_⟩
  · rw [front_step kind left s hi, Nat.add_assoc, Nat.add_comm 1]
    split_ifs with inside
    · exact streams.bits (i + 1) inside
    · rw [streams.incoming hw, show i + 1 = w by omega]
  · have extend : (s.step kind left).extend =
        if kind = .rotate then s.extend else (s.step kind left).carry := rfl
    rw [extend, out, streams.extend]
    simp only [Nat.add_one_ne_zero, false_or, Nat.add_sub_cancel]
    split_ifs with h₁ h₂ <;> first | rfl | exact absurd (.inr h₁) h₂

/-- So does a whole shift, from the operand and the extend flag on. -/
theorem streams_steps (hw : 1 ≤ w) (kind : ShiftKind) (left : Bool) (v : BitVec w) (x : Bool)
    (n : ℕ) :
    Streams kind left v x n (({ value := v, extend := x } : Shifter w).steps kind left n) := by
  induction n with
  | zero =>
    refine ⟨fun i hi => ?_, rfl, rfl⟩
    rw [Nat.zero_add, leaving_of_lt _ _ _ _ hi]
    rfl
  | succ n ih =>
    rw [steps_add]
    exact ih.step hw

/-- The operand has become the closed form. -/
theorem Streams.value (streams : Streams kind left v x n s) : s.value = kind.moved left v x n :=
  eq_of_front fun i hi => by rw [streams.bits i hi, front_moved _ _ _ _ _ hi]

theorem Streams.carryOut (streams : Streams kind left v x n s) :
    (if n = 0 ∧ kind = .rotateExtend then s.extend else s.carry) = kind.carryOut left v x n := by
  rw [ShiftKind.carryOut, streams.carry, streams.extend]
  rcases n with _ | n
  · by_cases through : kind = .rotateExtend <;> simp [through]
  · simp

theorem Streams.extendOut (streams : Streams kind left v x n s) :
    s.extend = if n = 0 ∨ kind = .rotate then x else kind.carryOut left v x n := by
  rw [ShiftKind.carryOut, streams.extend]
  split_ifs with kept none
  · rfl
  · exact absurd (.inl none) kept
  · rfl

/-! ## Overflow -/

/-- The sign of a number in the signed range stays when it is doubled just if its double is in that
range, too. -/
theorem msb_double_iff (hw : 1 ≤ w) {t : ℤ} (low : -2 ^ (w - 1) ≤ t) (high : t < 2 ^ (w - 1)) :
    (BitVec.ofInt w (2 * t)).msb = (BitVec.ofInt w t).msb ↔
      -2 ^ (w - 1) ≤ 2 * t ∧ 2 * t < 2 ^ (w - 1) := by
  obtain ⟨h, -, -, half, full⟩ := Alu.exists_half hw
  rw [half] at low high ⊢
  have once := Alu.emod_cases t (2 * h) (by omega) (by omega)
  have twice := Alu.emod_cases (2 * t) (2 * h) (by omega) (by omega)
  rw [Bool.eq_iff_iff, Alu.msb_ofInt_iff, Alu.msb_ofInt_iff, half, full]
  omega

/-- Other shifts than arithmetic ones to the left never overflow. -/
theorem overflow_steps_of_not (other : ¬(kind = .arithmetic ∧ left = true)) (n : ℕ) :
    (s.steps kind left n).overflow = s.overflow := by
  induction n generalizing s with
  | zero => rfl
  | succ n ih =>
    have same : (s.step kind left).overflow = s.overflow := by
      have change (b : Bool) : (decide (kind = .arithmetic) && left && b) = false := by
        rw [Bool.and_eq_false_iff, Bool.and_eq_false_iff, decide_eq_false_iff_not,
          ← Bool.not_eq_true left]
        exact .inl (not_and_or.mp other)
      exact (congrArg (s.overflow || ·) (change _)).trans (Bool.or_false _)
    rw [steps, ih, same]

/-- An arithmetic shift to the left doubles a signed number at each step, and has not overflown as
long as the product is in the signed range. -/
theorem overflow_steps (hw : 1 ≤ w) (v : BitVec w) (x : Bool) (n : ℕ) :
    let s := ({ value := v, extend := x } : Shifter w).steps .arithmetic true n
    s.value = BitVec.ofInt w (v.toInt * 2 ^ n) ∧
      (s.overflow = false ↔ -2 ^ (w - 1) ≤ v.toInt * 2 ^ n ∧ v.toInt * 2 ^ n < 2 ^ (w - 1)) := by
  induction n with
  | zero =>
    refine ⟨?_, ?_⟩
    · rw [pow_zero, mul_one, ofInt_toInt]
      rfl
    · rw [pow_zero, mul_one]
      exact iff_of_true rfl ⟨le_toInt v, toInt_lt⟩
  | succ n ih =>
    simp only [steps_add] at ih ⊢
    generalize ({ value := v, extend := x } : Shifter w).steps .arithmetic true n = s at ih ⊢
    obtain ⟨value, overflow⟩ := ih
    rw [pow_succ', mul_left_comm]
    generalize v.toInt * 2 ^ n = t at value overflow ⊢
    have doubled : (s.step .arithmetic true).value = BitVec.ofInt w (2 * t) := by
      have low : (ofBool false).setWidth w = 0 := by simp
      have double : s.value <<< 1 = s.value + s.value := by
        apply BitVec.eq_of_toNat_eq
        rw [toNat_shiftLeft, toNat_add, Nat.shiftLeft_eq, pow_one, Nat.mul_two]
      show s.value <<< 1 ||| (ofBool false).setWidth w = _
      rw [low, Int.two_mul t, ofInt_add, ← value, double]
      exact BitVec.or_zero
    refine ⟨doubled, ?_⟩
    have sticky : (s.step .arithmetic true).overflow = false ↔
        s.overflow = false ∧ (s.step .arithmetic true).value.msb = s.value.msb := by
      simp [Shifter.step]
    show (s.step .arithmetic true).overflow = false ↔ _
    rw [sticky, overflow, doubled, value]
    constructor
    · rintro ⟨⟨low, high⟩, sign⟩
      exact (msb_double_iff hw low high).mp sign
    · intro fits
      have inside : -2 ^ (w - 1) ≤ t ∧ t < 2 ^ (w - 1) := by omega
      exact ⟨inside, (msb_double_iff hw inside.1 inside.2).mpr fits⟩

/-- Overflow says that a product with a power of two has left the signed range. -/
theorem overflow_steps_iff (hw : 1 ≤ w) (kind : ShiftKind) (left : Bool) (v : BitVec w) (x : Bool)
    (n : ℕ) :
    (({ value := v, extend := x } : Shifter w).steps kind left n).overflow = true ↔
      kind = .arithmetic ∧ left = true ∧
        (v.toInt * 2 ^ n < -2 ^ (w - 1) ∨ 2 ^ (w - 1) ≤ v.toInt * 2 ^ n) := by
  by_cases signed : kind = .arithmetic ∧ left = true
  · obtain ⟨rfl, rfl⟩ := signed
    have fits := (overflow_steps hw v x n).2
    rw [← Bool.not_eq_false, fits, not_and_or, not_le, not_lt]
    simp
  · rw [overflow_steps_of_not signed]
    exact iff_of_false Bool.false_ne_true fun h => signed ⟨h.1, h.2.1⟩

end Shifter

/-- **Shifts in one piece.**  Shifting bit by bit is a product, a quotient or a rotation at once,
with codes that say which bit left last and whether the signed range was left. -/
theorem shift_closed_form (kind : ShiftKind) (left : Bool) (size : Size) (value : BitVec 32) (n : ℕ)
    (sr : StatusRegister) :
    let v := size.part value
    (shift kind left size value n sr).1 = (kind.moved left v (sr.has .x) n).setWidth 32 ∧
      kind.Reports left v n sr (shift kind left size value n sr).2 := by
  intro v
  have hw := Alu.one_le_bits size
  have streams := Shifter.streams_steps hw kind left v (sr.has .x) n
  have overflow := Shifter.overflow_steps_iff hw kind left v (sr.has .x) n
  unfold shift
  dsimp only
  generalize ({ value := v, extend := sr.has .x } : Shifter size.bits).steps kind left n = final
    at *
  have part : size.part (final.value.setWidth 32) = kind.moved left v (sr.has .x) n := by
    rw [Size.part, setWidth_setWidth_of_le _ size.bits_le, setWidth_eq, streams.value]
  refine ⟨congrArg (BitVec.setWidth 32) streams.value, ?_⟩
  rw [Alu.signCodes, part, streams.carryOut]
  constructor
  case carry => simp [StatusRegister.has_set_of_ne]
  case extend => simp [StatusRegister.has_set_of_ne, streams.extendOut]
  case overflow => simp [StatusRegister.has_set_of_ne, overflow]
  case negative => simp [StatusRegister.has_set_of_ne, msb_eq_toInt]
  case zero => simp [StatusRegister.has_set_of_ne]
  case system => repeat rw [Alu.set_system _ (by decide)]

end M68k
