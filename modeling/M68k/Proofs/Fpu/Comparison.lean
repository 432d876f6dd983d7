import M68k.Proofs.Fp.Order
import M68k.Proofs.Fpu.Change
import M68k.Proofs.Fpu.StatusFields

/-!
# Comparisons and the predicates that test them

A comparison leaves the order of its operands in the condition codes, and a predicate is a formula
over the codes.  Each predicate names a relation between the numbers that the operands stand for,
and the formula has the truth of it, whatever codes the comparison found.

* `Relation.Holds` — the relations that predicates name, NaNs included;
* `holds_iff`, `holds_unordered_iff` — the formulas for the codes of ordered and other operands;
* `testCondition_cmp` — a predicate tested after a comparison.
-/

namespace M68k

namespace Fpu

/-! ## Relations -/

/-- The relations that predicates name. -/
inductive Relation where
  | never
  | equal
  | greater
  | greaterOrEqual
  | less
  | lessOrEqual
  | lessOrGreater
  | ordered
  | unordered
  | unorderedOrEqual
  | unorderedOrGreater
  | unorderedOrGreaterOrEqual
  | unorderedOrLess
  | unorderedOrLessOrEqual
  | notEqual
  | always
  deriving DecidableEq, Repr

namespace Relation

/-- The relation that a predicate names; the signalling forms name those of the others. -/
def ofPredicate (predicate : ℕ) : Relation :=
  match predicate % 16 with
  | 0x0 => never
  | 0x1 => equal
  | 0x2 => greater
  | 0x3 => greaterOrEqual
  | 0x4 => less
  | 0x5 => lessOrEqual
  | 0x6 => lessOrGreater
  | 0x7 => ordered
  | 0x8 => unordered
  | 0x9 => unorderedOrEqual
  | 0xA => unorderedOrGreater
  | 0xB => unorderedOrGreaterOrEqual
  | 0xC => unorderedOrLess
  | 0xD => unorderedOrLessOrEqual
  | 0xE => notEqual
  | _ => always

/-- The relation between numbers. -/
def Between (x y : EReal) : Relation → Prop
  | never | unordered => False
  | equal | unorderedOrEqual => x = y
  | greater | unorderedOrGreater => x > y
  | greaterOrEqual | unorderedOrGreaterOrEqual => x ≥ y
  | less | unorderedOrLess => x < y
  | lessOrEqual | unorderedOrLessOrEqual => x ≤ y
  | lessOrGreater | notEqual => x ≠ y
  | ordered | always => True

/-- Whether operands without an order are in the relation. -/
def OfUnordered : Relation → Prop
  | never | equal | greater | greaterOrEqual | less | lessOrEqual | lessOrGreater | ordered => False
  | unordered | unorderedOrEqual | unorderedOrGreater | unorderedOrGreaterOrEqual | unorderedOrLess
  | unorderedOrLessOrEqual | notEqual | always => True

/-- Whether two operands are in the relation; an operand that is no number has no order. -/
def Holds (relation : Relation) : Option EReal → Option EReal → Prop
  | some x, some y => relation.Between x y
  | _, _ => relation.OfUnordered

end Relation

/-- The formula of a predicate for the codes of operands that have an order; equal operands may
count as negative. -/
theorem holds_iff (predicate : ℕ) {order : Ordering} {x y : EReal} (compares : order.Compares x y)
    {n z : Bool} (zero : z = true ↔ order = .eq) (negative : z = false → (n = true ↔ order = .lt)) :
    Condition.holds predicate n z false = true ↔
      (Relation.ofPredicate predicate).Between x y := by
  have low : predicate % 16 < 16 := Nat.mod_lt _ (by decide)
  unfold Condition.holds Relation.ofPredicate
  generalize predicate % 16 = code at low
  cases order with
  | lt =>
    obtain rfl : z = false := by simpa using zero
    obtain rfl : n = true := by simpa using negative rfl
    have less : x < y := compares
    interval_cases code <;>
      simp [Relation.Between, less.le, less.not_ge, less.ne, less, less.not_gt]
  | eq =>
    obtain rfl : z = true := by simpa using zero
    obtain rfl : x = y := compares
    interval_cases code <;> simp [Relation.Between]
  | gt =>
    obtain rfl : z = false := by simpa using zero
    obtain rfl : n = false := by simpa using negative rfl
    have greater : y < x := compares
    interval_cases code <;>
      simp [Relation.Between, greater.le, greater.not_ge, greater.ne', greater, greater.not_gt]

/-- The formula of a predicate for the codes of operands that have no order. -/
theorem holds_unordered_iff (predicate : ℕ) :
    Condition.holds predicate false false true = true ↔
      (Relation.ofPredicate predicate).OfUnordered := by
  have low : predicate % 16 < 16 := Nat.mod_lt _ (by decide)
  unfold Condition.holds Relation.ofPredicate
  generalize predicate % 16 = code at low
  interval_cases code <;> simp [Relation.OfUnordered]

/-! ## Condition codes -/

theorem codes_and (fpu : Fpu) {code : Register} (within : Within codeMask code) :
    fpu.codes &&& code = fpu.status &&& code := by
  rw [codes, BitVec.and_assoc, BitVec.and_comm codeMask, within]

/-- Whether a predicate holds, and whether testing it is an exception, depends on the condition
codes only. -/
theorem condition_codes {predicate : ℕ} (known : predicate ≤ 0x1F) (fpu : Fpu) :
    Condition.evaluate predicate fpu.status =
        some (Condition.holds predicate (fpu.codes &&& negativeCode != 0)
          (fpu.codes &&& zeroCode != 0) (fpu.codes &&& nanCode != 0)) ∧
      Condition.signals predicate fpu.status =
        (decide (0x10 ≤ predicate) && fpu.codes &&& nanCode != 0) := by
  have signaling : predicate.testBit 4 = decide (0x10 ≤ predicate) := by
    interval_cases predicate <;> rfl
  rw [codes_and fpu (by decide), codes_and fpu (by decide), codes_and fpu (by decide),
    Condition.evaluate, if_neg (by omega), Condition.signals, signaling]
  exact ⟨rfl, rfl⟩

/-! ## Comparisons -/

theorem compareQuiet_flags (a b : Extended) :
    (a.compareQuiet b).flags = Flags.when (a.isSignaling || b.isSignaling) Flags.invalid := by
  rw [Fp.compareQuiet, Fp.compareWith]
  split
  · rfl
  · next numbers =>
    obtain ⟨ha, hb⟩ : a.isNaN = false ∧ b.isNaN = false := by simpa using numbers
    simp only [Fp.isSignaling, ha, hb, Bool.false_and, Bool.or_false]
    rfl

theorem compareQuiet_value (a b : Extended) :
    (a.compareQuiet b).value = if a.isNaN || b.isNaN then none else some (a.order b) := by
  rw [Fp.compareQuiet, Fp.compareWith]
  split <;> rfl

/-- The codes that comparing two operands leaves. -/
def compared (destination source : Extended) : Register :=
  comparisonCodes destination source (destination.compareQuiet source).value

/-- What a comparison does: it replaces the condition codes and raises the exception of signalling
operands. -/
theorem execute_cmp (host : HostMath) (fpu : Fpu) (precision : Option Precision) (source : Extended)
    (register : RegisterNumber) :
    fpu.execute host ⟨.cmp, precision⟩ source register =
      (fpu.setCodes (compared (fpu.get register) source)).raise
        (if source.isSignaling || (fpu.get register).isSignaling then signalingNaN else 0) := by
  have raised (d s : Bool) :
      exceptionsOfFlags (Flags.when (d || s) Flags.invalid ||| Flags.none) (s || d) =
        if s || d then signalingNaN else 0 := by
    revert d s
    decide
  rw [← raised, ← compareQuiet_flags]
  rfl

/-- The codes of a comparison of operands that have an order. -/
theorem comparisonCodes_ordered (destination source : Extended) (order : Ordering) :
    let found := comparisonCodes destination source (some order)
    (found &&& nanCode != 0) = false ∧ ((found &&& zeroCode != 0) = true ↔ order = .eq) ∧
      ((found &&& zeroCode != 0) = false →
        ((found &&& negativeCode != 0) = true ↔ order = .lt)) := by
  cases order with
  | lt =>
    simp only [comparisonCodes]
    decide
  | gt =>
    simp only [comparisonCodes]
    decide
  | eq =>
    simp only [comparisonCodes]
    split <;> decide

/-- The codes of a comparison without an order. -/
theorem comparisonCodes_unordered (destination source : Extended) :
    let found := comparisonCodes destination source none
    (found &&& nanCode != 0) = true ∧ (found &&& zeroCode != 0) = false ∧
      (found &&& negativeCode != 0) = false := by
  simp only [comparisonCodes]
  decide

section

variable (destination source : Extended)

theorem compared_nan :
    (compared destination source &&& nanCode != 0) = (destination.isNaN || source.isNaN) := by
  rw [compared, compareQuiet_value]
  cases unordered : destination.isNaN || source.isNaN with
  | true => exact (comparisonCodes_unordered destination source).1
  | false => exact (comparisonCodes_ordered destination source _).1

/-- The formula of a predicate for the codes of a comparison. -/
theorem holds_compared (predicate : ℕ) :
    Condition.holds predicate (compared destination source &&& negativeCode != 0)
        (compared destination source &&& zeroCode != 0)
        (compared destination source &&& nanCode != 0) = true ↔
      (Relation.ofPredicate predicate).Holds destination.number? source.number? := by
  rw [compared_nan, compared, compareQuiet_value]
  unfold Fp.number?
  cases hd : destination.isNaN with
  | true =>
    obtain ⟨-, zero, negative⟩ := comparisonCodes_unordered destination source
    rw [Bool.true_or, if_pos rfl, zero, negative]
    exact holds_unordered_iff predicate
  | false =>
    cases hs : source.isNaN with
    | true =>
      obtain ⟨-, zero, negative⟩ := comparisonCodes_unordered destination source
      rw [Bool.false_or, if_pos rfl, zero, negative]
      exact holds_unordered_iff predicate
    | false =>
      obtain ⟨-, zero, negative⟩ :=
        comparisonCodes_ordered destination source (destination.order source)
      exact holds_iff predicate (Fp.order_compares (by simp) hd hs) zero negative

end

/-- **A predicate tested after a comparison has the truth of the relation that it names**, whatever
the status register held.  The comparison raises the exception of signalling operands, the test of a
signalling predicate that of unordered ones, and no data register changes. -/
theorem testCondition_cmp (host : HostMath) (fpu : Fpu) (precision : Option Precision)
    (source : Extended) (register : RegisterNumber) {predicate : ℕ} (known : predicate ≤ 0x1F) :
    let destination := fpu.get register
    let after := fpu.execute host ⟨.cmp, precision⟩ source register
    ∃ truth tested, after.testCondition predicate = some (truth, tested) ∧
      (truth = true ↔
        (Relation.ofPredicate predicate).Holds destination.number? source.number?) ∧
      after.exceptions = (fpu.exceptions |||
        if destination.isSignaling ∨ source.isSignaling then signalingNaN else 0) ∧
      tested.exceptions = (after.exceptions |||
        if 0x10 ≤ predicate ∧ (destination.isNaN ∨ source.isNaN) then branchUnordered else 0) ∧
      after.data = fpu.data ∧ tested.data = fpu.data := by
  intro destination after
  have executed : after = (fpu.setCodes (compared destination source)).raise
      (if source.isSignaling || destination.isSignaling then signalingNaN else 0) :=
    execute_cmp host fpu precision source register
  have within : Within codeMask (compared destination source) := within_comparisonCodes _ _ _
  have codes : after.codes = compared destination source := by
    rw [executed, codes_raise, codes_setCodes _ within]
  have data : after.data = fpu.data := by rw [executed]; rfl
  obtain ⟨evaluated, signals⟩ := condition_codes known after
  rw [codes] at evaluated signals
  rw [compared_nan] at signals
  refine ⟨_, _, by rw [testCondition, evaluated, Option.map_some], holds_compared _ _ _, ?_, ?_,
    data, ?_⟩
  · rw [executed, exceptions_raise, exceptions_setCodes _ within]
    cases destination.isSignaling <;> cases source.isSignaling <;> rfl
  · rw [signals]
    by_cases signaling : 0x10 ≤ predicate ∧ (destination.isNaN = true ∨ source.isNaN = true)
    · rw [if_pos (by simpa using signaling), if_pos signaling, exceptions_raise]
      rfl
    · rw [if_neg (by simpa using signaling), if_neg signaling]
      exact BitVec.or_zero.symm
  · split
    · exact data
    · exact data

/-- A unit as new, with its quiet NaNs, compared with a signalling NaN and tested for "not equal" by
a signalling predicate. -/
theorem testCondition_cmp_signaling :
    let host : HostMath := fun _ argument => argument
    let source : Extended := ⟨false, 0x7FFF, 1⟩
    let destination := (new .mc68881).get 0
    let after := (new .mc68881).execute host ⟨.cmp, none⟩ source 0
    0x1E ≤ 0x1F ∧ ∃ truth tested, after.testCondition 0x1E = some (truth, tested) ∧
      (truth = true ↔ (Relation.ofPredicate 0x1E).Holds destination.number? source.number?) ∧
      after.exceptions = ((new .mc68881).exceptions |||
        if destination.isSignaling ∨ source.isSignaling then signalingNaN else 0) ∧
      tested.exceptions = (after.exceptions |||
        if 0x10 ≤ 0x1E ∧ (destination.isNaN ∨ source.isNaN) then branchUnordered else 0) ∧
      after.data = (new .mc68881).data ∧ tested.data = (new .mc68881).data :=
  ⟨by decide, testCondition_cmp (fun _ argument => argument) (new .mc68881) none
    ⟨false, 0x7FFF, 1⟩ 0 (by decide)⟩

end Fpu

end M68k
