import M68k.Cpu.Instruction.Decoder

/-!
# What decoded instructions write

The decoder accepts an operand that an instruction writes only in a mode that can be written.  So
no instruction that is performed tries to write a constant.

* `Instruction.written?` — the operand that an instruction writes;
* `ofOpcode_writesAlterable` — in a decoded instruction its mode is alterable.
-/

namespace M68k

namespace AddressMode

variable (mode : AddressMode)

theorem alterable_of_data (h : mode.isDataAlterable = true) : mode.isAlterable = true :=
  (Bool.and_eq_true_iff.mp h).2

theorem alterable_of_memory (h : mode.isMemoryAlterable = true) : mode.isAlterable = true :=
  (Bool.and_eq_true_iff.mp h).2

/-- Constants cannot be written. -/
theorem ne_immediate_of_isAlterable {mode : AddressMode} (h : mode.isAlterable = true) :
    mode ≠ immediate := by
  rintro rfl
  cases h

end AddressMode

namespace Instruction

open AddressMode

/-- The mode of the operand that an instruction writes.  Registers and places that it names in other
ways do not count. -/
def written? : Instruction → Option AddressMode
  | move _ _ dst | moveFromSr dst | moveFromCcr dst => some dst
  | alu _ _ mode _ true | aluQuick _ _ _ mode | unary _ _ mode => some mode
  | tas mode | nbcd mode | cas _ mode | shiftMemory _ _ mode | scc _ mode => some mode
  | aluImmediate op _ mode => if op = .cmp then none else some mode
  | bit op _ mode => if op = .test then none else some mode
  | _ => none

/-- The operand that is written can be written. -/
def WritesAlterable (instruction : Instruction) : Prop :=
  ∀ mode, instruction.written? = some mode → mode.isAlterable = true

theorem writesAlterable_of_none {instruction : Instruction} (none : instruction.written? = none) :
    instruction.WritesAlterable := by
  intro mode written
  rw [none] at written
  cases written

theorem writesAlterable_of_some {instruction : Instruction} {mode : AddressMode}
    (written : instruction.written? = some mode) (alterable : mode.isAlterable = true) :
    instruction.WritesAlterable := by
  intro mode' written'
  obtain rfl := Option.some.inj (written.symm.trans written')
  exact alterable

/-- A mode that an instruction accepts. -/
theorem operand?_accepts {opcode : BitVec 16} {accepts : AddressMode → Bool} {mode : AddressMode}
    (found : operand? opcode accepts = some mode) : accepts mode = true :=
  (Option.filter_eq_some_iff.mp found).2

/-- What holds of the answer of the decoder, if there is one. -/
def Answers (P : Instruction → Prop) (answer : Option Instruction) : Prop :=
  ∀ instruction, answer = some instruction → P instruction

namespace Answers

variable {P : Instruction → Prop}

theorem none : Answers P none := by
  intro instruction found
  cases found

theorem of {instruction : Instruction} (h : P instruction) : Answers P (some instruction) := by
  intro instruction' found
  cases found
  exact h

theorem bind {α : Type} {x : Option α} {f : α → Option Instruction}
    (rest : ∀ a, x = some a → Answers P (f a)) : Answers P (x >>= f) := by
  intro instruction found
  obtain ⟨a, first, second⟩ := Option.bind_eq_some_iff.mp found
  exact rest a first instruction second

theorem ite {c : Prop} [Decidable c] {x y : Option Instruction} (yes : c → Answers P x)
    (no : ¬c → Answers P y) : Answers P (if c then x else y) := by
  split
  · next h => exact yes h
  · next h => exact no h

/-- Where the condition does not matter. -/
theorem either {c : Prop} [Decidable c] {x y : Option Instruction} (yes : Answers P x)
    (no : Answers P y) : Answers P (if c then x else y) :=
  ite (fun _ => yes) fun _ => no

/-- An instruction with the operand in its opcode. -/
theorem operand {opcode : BitVec 16} {accepts : AddressMode → Bool} {f : AddressMode → Instruction}
    (accepted : ∀ mode, accepts mode = true → P (f mode)) :
    Answers P (operand? opcode accepts >>= fun mode => some (f mode)) :=
  bind fun mode found => of (accepted mode (operand?_accepts found))

end Answers

/-- If the decoder has an answer, it writes an operand that can be written. -/
def Decoded (answer : Option Instruction) : Prop :=
  ∀ instruction, answer = some instruction → instruction.WritesAlterable

namespace Decoded

theorem none : Decoded none := Answers.none

theorem of {instruction : Instruction} (h : instruction.WritesAlterable) :
    Decoded (some instruction) :=
  Answers.of h

/-- An instruction that writes no operand. -/
theorem plain {instruction : Instruction} (h : instruction.written? = Option.none) :
    Decoded (some instruction) :=
  of (writesAlterable_of_none h)

/-- An instruction that writes its operand. -/
theorem writing {instruction : Instruction} {mode : AddressMode}
    (written : instruction.written? = some mode) (alterable : mode.isAlterable = true) :
    Decoded (some instruction) :=
  of (writesAlterable_of_some written alterable)

theorem bind {α : Type} {x : Option α} {f : α → Option Instruction}
    (rest : ∀ a, x = some a → Decoded (f a)) : Decoded (x >>= f) :=
  Answers.bind rest

theorem ite {c : Prop} [Decidable c] {x y : Option Instruction} (yes : c → Decoded x)
    (no : ¬c → Decoded y) : Decoded (if c then x else y) :=
  Answers.ite yes no

/-- An instruction that writes the operand in its opcode. -/
theorem storing {opcode : BitVec 16} {accepts : AddressMode → Bool}
    (allows : ∀ mode, accepts mode = true → mode.isAlterable = true)
    {f : AddressMode → Instruction} (writes : ∀ mode, (f mode).written? = some mode) :
    Decoded (operand? opcode accepts >>= fun mode => some (f mode)) :=
  Answers.operand fun mode accepted => writesAlterable_of_some (writes mode) (allows mode accepted)

end Decoded

variable (caps : Capabilities) (opcode : BitVec 16)

theorem decoded_dynamicBit : Decoded (dynamicBit? opcode) := by
  refine .ite (fun _ => .plain rfl) fun _ => .bind fun mode found => ?_
  have accepted := operand?_accepts found
  by_cases test : BitOp.ofCode (field opcode 6 2) = .test
  · exact .plain (by simp only [written?, if_pos test])
  · rw [if_neg test] at accepted
    exact .writing (by simp only [written?, if_neg test])
      (alterable_of_data _ accepted)

theorem decoded_staticBit : Decoded (staticBit? opcode) := by
  refine .bind fun mode found => ?_
  have accepted := operand?_accepts found
  by_cases test : BitOp.ofCode (field opcode 6 2) = .test
  · exact .plain (by simp only [written?, if_pos test])
  · rw [if_neg test] at accepted
    exact .writing (by simp only [written?, if_neg test])
      (alterable_of_data _ accepted)

theorem decoded_immediate : Decoded (immediate? caps opcode) := by
  refine .bind fun op _ => .bind fun size _ => .bind fun mode found => ?_
  have accepted := operand?_accepts found
  by_cases compares : op = .cmp
  · exact .plain (by simp only [written?, if_pos compares])
  · refine .writing (by simp only [written?, if_neg compares]; rfl) ?_
    have unlike : (op == .cmp) = false := by simpa using compares
    rw [unlike, Bool.false_and, Bool.false_and, Bool.or_false] at accepted
    exact alterable_of_data _ accepted

theorem decoded_line0Operand : Decoded (line0Operand? caps opcode) := by
  refine .ite (fun _ => decoded_dynamicBit opcode) fun _ =>
    .ite (fun _ => decoded_staticBit opcode) fun _ => .ite (fun _ => ?_) fun _ =>
      .ite (fun _ => ?_) fun _ => decoded_immediate caps opcode
  · refine .ite (fun _ => ?_) fun _ => .ite (fun _ => ?_) fun _ => .none
    · exact .bind fun _ _ => .bind fun _ _ => .bind fun _ _ => .plain rfl
    · exact .bind fun _ _ => .bind fun _ _ => .storing alterable_of_memory fun _ => rfl
  · exact .bind fun _ _ => .bind fun _ _ => .bind fun _ _ => .plain rfl

theorem decoded_line0 : Decoded (line0? caps opcode) := by
  unfold line0?
  split
  case h_7 | h_8 => exact .ite (fun _ => .plain rfl) fun _ => decoded_line0Operand caps opcode
  case h_9 => exact decoded_line0Operand caps opcode
  all_goals exact .plain rfl

theorem decoded_lineMove : Decoded (lineMove? opcode) := by
  refine .bind fun size _ => .bind fun src _ => .bind fun dst _ => ?_
  split
  · exact .ite (fun _ => .none) fun _ => .plain rfl
  · exact .ite (fun accepted => .writing rfl (alterable_of_data _ accepted))
      fun _ => .none

theorem decoded_unary (op : UnaryOp) : Decoded (unary? opcode op) :=
  .bind fun _ _ => .storing alterable_of_data fun _ => rfl

theorem decoded_line4Odd : Decoded (line4Odd? caps opcode) := by
  unfold line4Odd?
  split
  · exact .bind fun _ _ => .plain rfl
  · exact .bind fun _ _ => .plain rfl
  · exact .bind fun _ _ => .bind fun _ _ => .plain rfl
  · exact .none

theorem decoded_line48 : Decoded (line48? caps opcode) := by
  unfold line48?
  dsimp only
  split
  · refine .ite (fun _ => .bind fun _ _ => .plain rfl) fun _ => ?_
    exact .storing alterable_of_data fun _ => rfl
  · refine .ite (fun _ => .plain rfl) fun _ => .ite (fun _ => ?_) fun _ => ?_
    · exact .bind fun _ _ => .plain rfl
    · exact .bind fun _ _ => .plain rfl
  · exact .ite (fun _ => .plain rfl) fun _ => .bind fun _ _ => .plain rfl

theorem decoded_tst : Decoded (tst? caps opcode) :=
  .bind fun _ _ => .bind fun _ _ => .plain rfl

theorem decoded_line4C : Decoded (line4C? caps opcode) := by
  unfold line4C?
  split
  · exact .bind fun _ _ => .bind fun _ _ => .plain rfl
  · exact .bind fun _ _ => .bind fun _ _ => .plain rfl
  · exact .bind fun _ _ => .plain rfl

theorem decoded_line4E : Decoded (line4E? opcode) := by
  unfold line4E?
  split
  · dsimp only
    split <;> first | exact .plain rfl | exact .none
  · exact .bind fun _ _ => .plain rfl
  · exact .bind fun _ _ => .plain rfl
  · exact .none

theorem decoded_line4Operand : Decoded (line4Operand? caps opcode) := by
  refine .ite (fun _ => decoded_line4Odd caps opcode) fun _ => ?_
  split
  · exact .ite (fun _ => .storing alterable_of_data fun _ => rfl) fun _ => decoded_unary opcode _
  · refine .ite (fun _ => .bind fun _ _ => ?_) fun _ => decoded_unary opcode _
    exact .storing alterable_of_data fun _ => rfl
  · exact .ite (fun _ => .bind fun _ _ => .plain rfl) fun _ => decoded_unary opcode _
  · exact .ite (fun _ => .bind fun _ _ => .plain rfl) fun _ => decoded_unary opcode _
  · exact decoded_line48 caps opcode
  · exact .ite (fun _ => .storing alterable_of_data fun _ => rfl) fun _ => decoded_tst caps opcode
  · exact decoded_line4C caps opcode
  · exact decoded_line4E opcode

theorem decoded_line4 : Decoded (line4? caps opcode) := by
  unfold line4?
  split
  case h_1 => exact .none
  case h_6 | h_10 | h_11 => exact .ite (fun _ => .plain rfl) fun _ => .none
  case h_12 =>
    exact .ite (fun _ => .bind fun _ _ => .plain rfl) fun _ => decoded_line4Operand caps opcode
  all_goals exact .plain rfl

theorem decoded_line5 : Decoded (line5? caps opcode) := by
  unfold line5?
  split
  · exact .storing (fun mode accepted => (Bool.and_eq_true_iff.mp accepted).1) fun _ => rfl
  · dsimp only
    split
    case h_4 =>
      refine .ite (fun _ => .plain rfl) fun _ => ?_
      exact .storing alterable_of_data fun _ => rfl
    all_goals exact .bind fun _ _ => .plain rfl

theorem decoded_alu (op : AluOp) : Decoded (alu? opcode op) := by
  refine .bind fun size _ => .bind fun mode found => ?_
  have accepted := operand?_accepts found
  cases toOperand : opcode.getLsbD 8 with
  | false => exact .plain rfl
  | true =>
    rw [toOperand, if_pos rfl] at accepted
    exact .writing rfl (alterable_of_memory _ accepted)

theorem decoded_aluAddress (op : AluOp) : Decoded (aluAddress? opcode op) :=
  .bind fun _ _ => .plain rfl

theorem decoded_line8 : Decoded (line8? caps opcode) := by
  refine .ite (fun _ => .bind fun _ _ => .plain rfl) fun _ => ?_
  split
  · exact .plain rfl
  · exact .bind fun _ _ => .plain rfl
  · exact .bind fun _ _ => .plain rfl
  · exact decoded_alu opcode _

theorem decoded_lineSum (op : AluOp) : Decoded (lineSum? opcode op) :=
  .ite (fun _ => decoded_aluAddress opcode op) fun _ =>
    .ite (fun _ => .bind fun _ _ => .plain rfl) fun _ => decoded_alu opcode op

theorem decoded_lineB : Decoded (lineB? opcode) := by
  refine .ite (fun _ => decoded_aluAddress opcode _) fun _ => .ite (fun _ => ?_) fun _ =>
    decoded_alu opcode _
  refine .bind fun size _ => .ite (fun _ => .plain rfl) fun _ => ?_
  exact .storing alterable_of_data fun _ => rfl

theorem decoded_lineC : Decoded (lineC? opcode) := by
  refine .ite (fun _ => .bind fun _ _ => .plain rfl) fun _ => ?_
  split
  case h_6 => exact decoded_alu opcode _
  all_goals exact .plain rfl

theorem decoded_lineE : Decoded (lineE? caps opcode) := by
  unfold lineE?
  dsimp only
  split
  · exact .plain rfl
  · refine .ite (fun _ => .bind fun _ _ => .bind fun _ _ => .plain rfl) fun _ => ?_
    exact .storing alterable_of_memory fun _ => rfl

theorem written_lineFOf : (lineFOf caps opcode).written? = Option.none := by
  unfold lineFOf
  split
  · split
    · rfl
    · split <;> rfl
  · rfl

theorem decoded_ofOpcode : Decoded (ofOpcode? caps opcode) := by
  unfold ofOpcode?
  split
  · exact decoded_line0 caps opcode
  · exact decoded_lineMove opcode
  · exact decoded_lineMove opcode
  · exact decoded_lineMove opcode
  · exact decoded_line4 caps opcode
  · exact decoded_line5 caps opcode
  · exact .plain rfl
  · exact .ite (fun _ => .none) fun _ => .plain rfl
  · exact decoded_line8 caps opcode
  · exact decoded_lineSum opcode _
  · exact .plain rfl
  · exact decoded_lineB opcode
  · exact decoded_lineC opcode
  · exact decoded_lineSum opcode _
  · exact decoded_lineE caps opcode
  · exact .plain (written_lineFOf caps opcode)

/-- **A decoded instruction writes an operand only in a mode that can be written.** -/
theorem ofOpcode_writesAlterable : (ofOpcode caps opcode).WritesAlterable := by
  unfold ofOpcode
  cases found : ofOpcode? caps opcode with
  | none => exact writesAlterable_of_none rfl
  | some instruction => exact decoded_ofOpcode caps opcode instruction found

end Instruction

end M68k
