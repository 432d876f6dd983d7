import M68k.Proofs.Cpu.DecodedModes

/-!
# What decoded instructions find in memory

Some instructions take their operand for a place in memory without a look at its mode: those that
compute addresses, jump, move several registers, or reach other address spaces.  The decoder accepts
only modes that suit them.

* `Instruction.Suited` — what an instruction takes for granted of its fields;
* `ofOpcode_suited` — a decoded instruction finds it so.
-/

namespace M68k

namespace Instruction

open AddressMode

/-- The instruction has what it takes for granted: a mode that refers to memory, and can be written
where it is; and a trap that has a vector of its own. -/
def Suited : Instruction → Prop
  | lea mode _ | pea mode | jmp mode | jsr mode | chk2 _ mode => mode.isControl = true
  | movem _ true mode => (mode.isControlAlterable || mode.isPreDecrement) = true
  | movem _ false mode => (mode.isControl || mode.isPostIncrement) = true
  | moves _ mode => mode.isMemoryAlterable = true
  | bitField op mode =>
    (mode.isDataRegister || if op.modifies then mode.isControlAlterable else mode.isControl) = true
  | trap number => number < 16
  | _ => True

/-- If the decoder has an answer, it is suited. -/
abbrev AnswersSuited : Option Instruction → Prop := Answers Suited

variable (caps : Capabilities) (opcode : BitVec 16)

theorem field_lt (low width : Nat) : field opcode low width < Nat.pow 2 width :=
  (opcode.extractLsb' low width).isLt

theorem suited_dynamicBit : AnswersSuited (dynamicBit? opcode) :=
  .either (.of trivial) (.operand fun _ _ => trivial)

theorem suited_immediate : AnswersSuited (immediate? caps opcode) :=
  .bind fun _ _ => .bind fun _ _ => .operand fun _ _ => trivial

theorem suited_line0Operand : AnswersSuited (line0Operand? caps opcode) := by
  refine .either (suited_dynamicBit opcode) (.either (.operand fun _ _ => trivial)
    (.either ?_ (.either ?_ (suited_immediate caps opcode))))
  · refine .either ?_ (.either ?_ .none)
    · exact .bind fun _ _ => .bind fun _ _ => .operand fun _ accepted => accepted
    · exact .bind fun _ _ => .bind fun _ _ => .operand fun _ _ => trivial
  · exact .bind fun _ _ => .bind fun _ _ => .operand fun _ accepted => accepted

theorem suited_line0 : AnswersSuited (line0? caps opcode) := by
  unfold line0?
  split
  case h_7 | h_8 => exact .either (.of trivial) (suited_line0Operand caps opcode)
  case h_9 => exact suited_line0Operand caps opcode
  all_goals exact .of trivial

theorem suited_lineMove : AnswersSuited (lineMove? opcode) := by
  refine .bind fun size _ => .bind fun src _ => .bind fun dst _ => ?_
  split
  · exact .either .none (.of trivial)
  · exact .either (.of trivial) .none

theorem suited_line4Odd : AnswersSuited (line4Odd? caps opcode) := by
  unfold line4Odd?
  split
  · exact .operand fun _ accepted => accepted
  · exact .operand fun _ _ => trivial
  · exact .bind fun _ _ => .operand fun _ _ => trivial
  · exact .none

theorem suited_unary (op : UnaryOp) : AnswersSuited (unary? opcode op) :=
  .bind fun _ _ => .operand fun _ _ => trivial

theorem suited_line48 : AnswersSuited (line48? caps opcode) := by
  unfold line48?
  dsimp only
  split
  · exact .either (.bind fun _ _ => .of trivial) (.operand fun _ _ => trivial)
  · refine .either (.of trivial) (.either (.bind fun _ _ => .of trivial) ?_)
    exact .operand fun _ accepted => accepted
  · exact .either (.of trivial) (.operand fun _ accepted => accepted)

theorem suited_line4C : AnswersSuited (line4C? caps opcode) := by
  unfold line4C?
  split
  · exact .bind fun _ _ => .operand fun _ _ => trivial
  · exact .bind fun _ _ => .operand fun _ _ => trivial
  · exact .operand fun _ accepted => accepted

theorem suited_line4E : AnswersSuited (line4E? opcode) := by
  unfold line4E?
  split
  · dsimp only
    split
    · exact .of (field_lt opcode 0 4)
    · exact .of (field_lt opcode 0 4)
    all_goals first | exact .of trivial | exact .none
  · exact .operand fun _ accepted => accepted
  · exact .operand fun _ accepted => accepted
  · exact .none

theorem suited_line4Operand : AnswersSuited (line4Operand? caps opcode) := by
  refine .either (suited_line4Odd caps opcode) ?_
  split
  · exact .either (.operand fun _ _ => trivial) (suited_unary opcode _)
  · exact .either (.bind fun _ _ => .operand fun _ _ => trivial) (suited_unary opcode _)
  · exact .either (.operand fun _ _ => trivial) (suited_unary opcode _)
  · exact .either (.operand fun _ _ => trivial) (suited_unary opcode _)
  · exact suited_line48 caps opcode
  · exact .either (.operand fun _ _ => trivial) (.bind fun _ _ => .operand fun _ _ => trivial)
  · exact suited_line4C caps opcode
  · exact suited_line4E opcode

theorem suited_line4 : AnswersSuited (line4? caps opcode) := by
  unfold line4?
  split
  case h_1 => exact .none
  case h_6 | h_10 | h_11 => exact .either (.of trivial) .none
  case h_12 => exact .either (.bind fun _ _ => .of trivial) (suited_line4Operand caps opcode)
  all_goals exact .of trivial

theorem suited_line5 : AnswersSuited (line5? caps opcode) := by
  unfold line5?
  split
  · exact .operand fun _ _ => trivial
  · dsimp only
    split
    case h_4 => exact .either (.of trivial) (.operand fun _ _ => trivial)
    all_goals exact .bind fun _ _ => .of trivial

theorem suited_alu (op : AluOp) : AnswersSuited (alu? opcode op) :=
  .bind fun _ _ => .operand fun _ _ => trivial

theorem suited_aluAddress (op : AluOp) : AnswersSuited (aluAddress? opcode op) :=
  .bind fun _ _ => .of trivial

theorem suited_line8 : AnswersSuited (line8? caps opcode) := by
  refine .either (.operand fun _ _ => trivial) ?_
  split
  · exact .of trivial
  · exact .bind fun _ _ => .of trivial
  · exact .bind fun _ _ => .of trivial
  · exact suited_alu opcode _

theorem suited_lineSum (op : AluOp) : AnswersSuited (lineSum? opcode op) :=
  .either (suited_aluAddress opcode op)
    (.either (.bind fun _ _ => .of trivial) (suited_alu opcode op))

theorem suited_lineB : AnswersSuited (lineB? opcode) := by
  refine .either (suited_aluAddress opcode _) (.either (.bind fun _ _ => ?_) (suited_alu opcode _))
  exact .either (.of trivial) (.operand fun _ _ => trivial)

theorem suited_lineC : AnswersSuited (lineC? opcode) := by
  refine .either (.operand fun _ _ => trivial) ?_
  split
  case h_6 => exact suited_alu opcode _
  all_goals exact .of trivial

theorem suited_lineE : AnswersSuited (lineE? caps opcode) := by
  unfold lineE?
  dsimp only
  split
  · exact .of trivial
  · refine .either ?_ (.operand fun _ _ => trivial)
    exact .bind fun _ _ => .operand fun _ accepted => accepted

theorem suited_lineFOf : (lineFOf caps opcode).Suited := by
  unfold lineFOf
  split
  · split
    · trivial
    · split <;> trivial
  · trivial

theorem suited_ofOpcode? : AnswersSuited (ofOpcode? caps opcode) := by
  unfold ofOpcode?
  split
  · exact suited_line0 caps opcode
  · exact suited_lineMove opcode
  · exact suited_lineMove opcode
  · exact suited_lineMove opcode
  · exact suited_line4 caps opcode
  · exact suited_line5 caps opcode
  · exact .of trivial
  · exact .either .none (.of trivial)
  · exact suited_line8 caps opcode
  · exact suited_lineSum opcode _
  · exact .of trivial
  · exact suited_lineB opcode
  · exact suited_lineC opcode
  · exact suited_lineSum opcode _
  · exact suited_lineE caps opcode
  · exact .of (suited_lineFOf caps opcode)

/-- **A decoded instruction has what it takes for granted.** -/
theorem ofOpcode_suited : (ofOpcode caps opcode).Suited := by
  unfold ofOpcode
  cases found : ofOpcode? caps opcode with
  | none => trivial
  | some instruction => exact suited_ofOpcode? caps opcode instruction found

end Instruction

end M68k
