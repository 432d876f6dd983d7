import M68k.Cpu.Execution.Dispatch
import M68k.Proofs.Cpu.DecodedModes
import M68k.Proofs.Cpu.InstructionStream
import M68k.Proofs.Cpu.Ram

/-!
# Encodings of the floating-point unit that are not defined

Among the instructions of the floating-point unit there are opmodes, predicates and combinations of
an instruction with an addressing mode that are not defined.  They take the exception of line F, and
leave everything as it was.  A byte that is to be set by a reserved predicate is found before the
predicate is tested, which may count an address register.

* `Undefined` — the encodings that are not defined, with the words that tell so;
* `undefined_step` — what becomes of them;
* `step_of_reservedClass` — the class of commands that is not defined and stores registers.
-/

namespace M68k

namespace Execution

open MachineM

/-! ## What the instructions accept -/

/-- The instruction in an opcode of the unit. -/
def kindOf (opcode : BitVec 16) : Nat := (opcode.extractLsb' 6 3).toNat

/-- The class in a command word. -/
def classOf (command : BitVec 16) : Nat := (command.extractLsb' 13 3).toNat

/-- The format in a command word. -/
def formatOf (command : BitVec 16) : Fpu.DataFormat := .ofCode (command.toNat / 0x400)

/-- Sources are data, and fit their data register. -/
def acceptsSource (format : Fpu.DataFormat) (mode : AddressMode) : Bool :=
  mode.isData && (!mode.isDataRegister || format.fitsDataRegister)

/-- Destinations are data that can be written, and fit their data register. -/
def acceptsDestination (format : Fpu.DataFormat) (mode : AddressMode) : Bool :=
  mode.isDataAlterable && (!mode.isDataRegister || format.fitsDataRegister)

/-- One control register fits a data register, and the instruction address an address register.
Memory holds any of them. -/
def acceptsControls (selected : List UnitControl) (toMemory : Bool) : AddressMode → Bool
  | .dataReg _ => selected.length == 1
  | .addrReg _ => selected == [.instructionAddress]
  | mode => !selected.isEmpty && (!toMemory || mode.isAlterable)

/-- Lists of data registers in ascending order belong to the mode that counts down. -/
def acceptsDataRegisters (toMemory ascending : Bool) (mode : AddressMode) : Bool :=
  if ascending then toMemory && mode.isPreDecrement
  else if toMemory then mode.isControlAlterable
  else mode.isControl || mode.isPostIncrement

/-- Frames are saved downward, and restored upward. -/
def acceptsSave (mode : AddressMode) : Bool := mode.isControlAlterable || mode.isPreDecrement

def acceptsRestore (mode : AddressMode) : Bool := mode.isControl || mode.isPostIncrement

/-- Reserved predicates have no truth value. -/
def Reserved (predicate : BitVec 16) : Prop := 0x1F < predicate.toNat % 64

instance (predicate : BitVec 16) : Decidable (Reserved predicate) :=
  inferInstanceAs (Decidable (0x1F < predicate.toNat % 64))

/-- How many words a trap on a condition skips. -/
def trapWords? : AddressMode → Option Nat
  | .pcDisplacement => some 1
  | .pcIndex => some 2
  | .immediate => some 0
  | _ => none

/-- Sets a byte by a predicate. -/
def setBy {β : Type} [Bus β] (mode : AddressMode) (predicate : BitVec 16) : MachineM β Unit := do
  let location ← locate mode .byte
  let truth ← unitHolds predicate
  store .byte location (truthByte truth)

/-- An encoding that is not defined: the opcode, and the words after it that are fetched until this
is known.  Units with rounding forms have more opmodes. -/
inductive Undefined (caps : Capabilities) (forms : Bool) (opcode : BitVec 16) :
    List (BitVec 16) → Prop where
  | kind (other : 6 ≤ kindOf opcode) : Undefined caps forms opcode []
  | opmode (command : BitVec 16) (general : kindOf opcode = 0)
      (computes : classOf command = 0 ∨
        classOf command = 2 ∧ (command.extractLsb' 10 3).toNat ≠ 7)
      (unknown : Fpu.Command.ofOpmode? command.toNat forms = none) :
      Undefined caps forms opcode [command]
  | source (command : BitVec 16) (general : kindOf opcode = 0)
      (loads : classOf command = 2 ∧ (command.extractLsb' 10 3).toNat ≠ 7)
      (rejected : Instruction.operand? opcode (acceptsSource (formatOf command)) = none) :
      Undefined caps forms opcode [command]
  | destination (command : BitVec 16) (general : kindOf opcode = 0) (stores : classOf command = 3)
      (rejected : Instruction.operand? opcode (acceptsDestination (formatOf command)) = none) :
      Undefined caps forms opcode [command]
  | controls (command : BitVec 16) (toMemory : Bool) (general : kindOf opcode = 0)
      (moves : classOf command = if toMemory then 5 else 4)
      (rejected : Instruction.operand? opcode
        (acceptsControls (UnitControl.selected command) toMemory) = none) :
      Undefined caps forms opcode [command]
  | dataRegisters (command : BitVec 16) (toMemory : Bool) (general : kindOf opcode = 0)
      (moves : classOf command = if toMemory then 7 else 6)
      (rejected : Instruction.operand? opcode
        (acceptsDataRegisters toMemory (!command.getLsbD 12)) = none) :
      Undefined caps forms opcode [command]
  | condition (predicate : BitVec 16) (conditional : kindOf opcode = 1)
      (rejected : AddressMode.ofOpcode? opcode = none) : Undefined caps forms opcode [predicate]
  | loop (predicate offset : BitVec 16) (r : RegisterNumber) (conditional : kindOf opcode = 1)
      (loops : AddressMode.ofOpcode? opcode = some (.addrReg r)) (reserved : Reserved predicate) :
      Undefined caps forms opcode [predicate, offset]
  | trap (predicate : BitVec 16) (words : List (BitVec 16)) (mode : AddressMode)
      (conditional : kindOf opcode = 1) (found : AddressMode.ofOpcode? opcode = some mode)
      (traps : trapWords? mode = some words.length) (reserved : Reserved predicate) :
      Undefined caps forms opcode (predicate :: words)
  | set (predicate : BitVec 16) (words : List (BitVec 16)) (mode : AddressMode)
      (conditional : kindOf opcode = 1) (found : AddressMode.ofOpcode? opcode = some mode)
      (extended : mode.ExtendedBy caps words) (reserved : Reserved predicate) :
      Undefined caps forms opcode (predicate :: words)
  | branch (offset : BitVec 16) (branches : kindOf opcode = 2) (reserved : Reserved opcode) :
      Undefined caps forms opcode [offset]
  | longBranch (high low : BitVec 16) (branches : kindOf opcode = 3)
      (reserved : Reserved opcode) : Undefined caps forms opcode [high, low]
  | save (saves : kindOf opcode = 4)
      (rejected : Instruction.operand? opcode acceptsSave = none) : Undefined caps forms opcode []
  | restore (restores : kindOf opcode = 5)
      (rejected : Instruction.operand? opcode acceptsRestore = none) :
      Undefined caps forms opcode []

/-- The exception of an encoding that is not defined.  Frames of the unit are privileged, and this
is found out first. -/
def undefinedVector (opcode : BitVec 16) (rs : Registers) : VectorNumber :=
  if kindOf opcode = 4 ∨ kindOf opcode = 5 then
    if rs.isSupervisor then .lineF else .privilegeViolation
  else .lineF

end Execution

/-- An action ends in an exception, and has done nothing but fetch words. -/
def Abandons {β α : Type} [Bus β] (vector : VectorNumber) (x : MachineM β α) (m : Machine β) :
    Prop :=
  ∃ m', x m = (.error (.exception vector), m') ∧ m.Stays BusEvent.IsFetch m'

namespace Abandons

open MachineM

variable {β α γ : Type} [Bus β] {vector : VectorNumber} {m m₁ : Machine β}

theorem throw (vector : VectorNumber) (m : Machine β) :
    Abandons vector (throw (.exception vector) : MachineM β α) m :=
  ⟨m, rfl, .refl m⟩

theorem bind {x : MachineM β α} (h : Abandons vector x m) (f : α → MachineM β γ) :
    Abandons vector (x >>= f) m := by
  obtain ⟨m', ends, stays⟩ := h
  exact ⟨m', bind_error ends f, stays⟩

theorem after {x : MachineM β α} {a : α} (does : x m = (.ok a, m₁))
    (stays : m.Stays BusEvent.IsFetch m₁) {f : α → MachineM β γ} (rest : Abandons vector (f a) m₁) :
    Abandons vector (x >>= f) m := by
  obtain ⟨m', ends, stays'⟩ := rest
  exact ⟨m', (bind_ok does f).trans ends, stays.trans stays'⟩

theorem afterLook {x : MachineM β α} {a : α} (looks : x m = (.ok a, m)) {f : α → MachineM β γ}
    (rest : Abandons vector (f a) m) : Abandons vector (x >>= f) m :=
  after looks (.refl m) rest

end Abandons

namespace Consumes

variable {β α γ : Type} [Bus β] {count : Nat}

theorem map {x : MachineM β α} (f : α → γ) (h : Consumes count x) : Consumes count (f <$> x) := by
  rw [map_eq_pure_bind]
  exact h.bind fun a => .pure (f a)

theorem skipWord : Consumes (β := β) 1 (Execution.skipOperand (some .word)) := fetch.map _

theorem skipLong : Consumes (β := β) 2 (Execution.skipOperand (some .long)) := fetchLong.map _

end Consumes

namespace Execution

open MachineM

section AnyBus

variable {β : Type} {fpu : Fpu} {opcode : BitVec 16} {m : Machine β}

/-- A machine with this unit performs this opcode. -/
structure Performs (fpu : Fpu) (opcode : BitVec 16) (m : Machine β) : Prop where
  fpu : m.cpu.fpu = some fpu
  opcode : m.cpu.opcode = opcode

theorem Performs.unit (h : Performs fpu opcode m) : Execution.unit m = (.ok fpu, m) := by
  rw [unit_apply, h.fpu]

/-- The mode in the opcode is looked for. -/
theorem opcodeMode_apply (m : Machine β) :
    opcodeMode m = match AddressMode.ofOpcode? m.cpu.opcode with
      | some mode => (.ok mode, m)
      | none => (.error (.exception .lineF), m) := by
  unfold opcodeMode
  rw [bind_ok (cpu_apply m)]
  cases AddressMode.ofOpcode? m.cpu.opcode <;> rfl

/-- A reserved predicate has no truth value. -/
theorem Performs.unitHolds_apply (h : Performs fpu opcode m) {predicate : BitVec 16}
    (reserved : Reserved predicate) :
    Execution.unitHolds predicate m = (.error (.exception .lineF), m) := by
  have untold : fpu.testCondition (predicate.toNat % 64) = none := by
    rw [Fpu.testCondition, (Fpu.Condition.evaluate_eq_none_iff _ _).mpr reserved]
    rfl
  unfold Execution.unitHolds
  rw [bind_ok h.unit, untold]
  rfl

end AnyBus

namespace Performs

variable {β : Type} [Bus β] {fpu : Fpu} {opcode : BitVec 16} {m m' : Machine β}

theorem stays {allowed : BusEvent → Prop} (h : Performs fpu opcode m)
    (stays : m.Stays allowed m') : Performs fpu opcode m' := by
  constructor
  · rw [stays.cpu]
    exact h.fpu
  · rw [stays.cpu]
    exact h.opcode

/-- A mode that is not accepted is not defined, if whatever is done with such a mode is not. -/
theorem opcodeMode {γ : Type} (h : Performs fpu opcode m) {accepts : AddressMode → Bool}
    (rejected : Instruction.operand? opcode accepts = none) {f : AddressMode → MachineM β γ}
    (rest : ∀ mode, accepts mode = false → Abandons .lineF (f mode) m) :
    Abandons .lineF (Execution.opcodeMode >>= f) m := by
  have looks := opcodeMode_apply m
  rw [h.opcode] at looks
  cases found : AddressMode.ofOpcode? opcode with
  | none =>
    rw [found] at looks
    exact .bind ⟨m, looks, .refl m⟩ f
  | some mode =>
    rw [found] at looks
    refine .afterLook looks (rest mode ?_)
    rw [Instruction.operand?, found] at rejected
    cases accepted : accepts mode with
    | false => rfl
    | true => simp [Option.filter, accepted] at rejected

/-- An opmode that is not defined. -/
theorem arithmetic (h : Performs fpu opcode m) {command : BitVec 16}
    (unknown : Fpu.Command.ofOpmode? command.toNat (fpu.model = .mc68040) = none) :
    Abandons .lineF (Execution.arithmetic command) m := by
  refine .afterLook h.unit ?_
  dsimp only
  rw [unknown]
  exact .throw _ m

/-- A reserved predicate. -/
theorem unitHolds (h : Performs fpu opcode m) {predicate : BitVec 16}
    (reserved : Reserved predicate) : Abandons .lineF (Execution.unitHolds predicate) m :=
  ⟨m, h.unitHolds_apply reserved, .refl m⟩

/-! ## Commands -/

theorem computeOperand (h : Performs fpu opcode m) (host : Fpu.HostMath) {command : BitVec 16}
    (undefined : Fpu.Command.ofOpmode? command.toNat (fpu.model = .mc68040) = none ∨
      Instruction.operand? opcode (acceptsSource (formatOf command)) = none) :
    Abandons .lineF (Execution.computeOperand host command) m := by
  cases known : Fpu.Command.ofOpmode? command.toNat (fpu.model = .mc68040) with
  | none => exact (h.arithmetic known).bind _
  | some operation =>
    have rejected := undefined.resolve_left (by simp [known])
    have looks : Execution.arithmetic command m = (.ok operation, m) := by
      unfold Execution.arithmetic
      rw [bind_ok h.unit, known]
      rfl
    refine .afterLook looks (h.opcodeMode rejected fun mode rejects => .bind ?_ _)
    cases mode with
    | dataReg r =>
      have unfit : (formatOf command).fitsDataRegister = false := rejects
      show Abandons .lineF (if (formatOf command).fitsDataRegister = true then _ else _) m
      rw [unfit]
      exact .throw _ m
    | addrReg r => exact .throw _ m
    | _ => cases rejects

theorem moveOut (h : Performs fpu opcode m) {command : BitVec 16}
    (rejected : Instruction.operand? opcode (acceptsDestination (formatOf command)) = none) :
    Abandons .lineF (Execution.moveOut command) m := by
  refine h.opcodeMode rejected fun mode rejects => ?_
  cases alterable : mode.isDataAlterable with
  | false => exact .bind (.throw _ m) _
  | true =>
    rw [acceptsDestination, alterable, Bool.true_and] at rejects
    cases mode with
    | dataReg r =>
      have unfit : (formatOf command).fitsDataRegister = false := rejects
      show Abandons .lineF (if (!(formatOf command).fitsDataRegister) = true then _ else _) m
      rw [unfit]
      exact .bind (.throw _ m) _
    | _ => cases rejects

theorem moveControls (h : Performs fpu opcode m) {command : BitVec 16} {toMemory : Bool}
    (rejected : Instruction.operand? opcode
      (acceptsControls (UnitControl.selected command) toMemory) = none) :
    Abandons .lineF (Execution.moveControls command toMemory) m := by
  unfold Execution.moveControls
  dsimp only
  generalize UnitControl.selected command = selected at rejected
  cases empty : selected.isEmpty with
  | true => exact .bind (.throw _ m) _
  | false =>
    refine h.opcodeMode rejected fun mode rejects => ?_
    split
    · cases rejects
    · cases rejects
    · exact .throw _ m
    · exact .throw _ m
    · next noData noAddress _ _ =>
      -- memory and constants are left, which only stores do not accept
      have refused : toMemory = true ∧ mode.isAlterable = false := by
        cases mode with
        | dataReg r => exact (noData r rfl).elim
        | addrReg r => exact (noAddress r rfl).elim
        | _ => simpa [acceptsControls, empty] using rejects
      obtain ⟨rfl, fixed⟩ := refused
      show Abandons .lineF (if (_ || !mode.isAlterable) = true then _ else _) m
      rw [fixed, Bool.not_false, Bool.or_true]
      exact .bind (.throw _ m) _

theorem moveDataRegisters (h : Performs fpu opcode m) {command : BitVec 16} {toMemory : Bool}
    (rejected : Instruction.operand? opcode
      (acceptsDataRegisters toMemory (!command.getLsbD 12)) = none) :
    Abandons .lineF (Execution.moveDataRegisters command toMemory) m := by
  refine .afterLook (registers_apply m) (h.opcodeMode rejected fun mode rejects => .bind ?_ _)
  generalize (!command.getLsbD 12) = ascending at rejects
  unfold acceptsDataRegisters at rejects
  unfold Execution.dataListAddress
  split
  · have other : (toMemory && ascending) = false := by
      cases ascending <;> cases toMemory <;> first | rfl | cases rejects
    rw [other]
    exact .throw _ m
  · have other : (!toMemory && !ascending) = false := by
      cases ascending <;> cases toMemory <;> first | rfl | cases rejects
    rw [other]
    exact .throw _ m
  · have other : (mode.isControl && !ascending && (!toMemory || mode.isAlterable)) = false := by
      cases ascending <;> cases toMemory <;>
        simp_all [AddressMode.isControlAlterable]
    rw [other]
    exact .throw _ m

theorem general_eq (host : Fpu.HostMath) :
    Execution.general (β := β) host = MachineM.fetch >>= fun command =>
      match classOf command with
      | 0 => Execution.computeRegister host command
      | 2 =>
        if (command.extractLsb' 10 3).toNat = 7 then Execution.loadConstant command
        else Execution.computeOperand host command
      | 3 => Execution.moveOut command
      | 4 => Execution.moveControls command false
      | 5 => Execution.moveControls command true
      | 6 => Execution.moveDataRegisters command false
      | _ => Execution.moveDataRegisters command true :=
  rfl

/-- Commands that are not defined. -/
theorem general (h : Performs fpu opcode m) (host : Fpu.HostMath) {caps : Capabilities}
    {words : List (BitVec 16)} (encoding : Undefined caps (fpu.model = .mc68040) opcode words)
    (kind : kindOf opcode = 0) (fetches : m.Fetches words) :
    Abandons .lineF (Execution.general host) m := by
  obtain ⟨command, rfl⟩ : ∃ command, words = [command] := by
    cases encoding <;> first | exact ⟨_, rfl⟩ | omega
  obtain ⟨m₁, fetched, stays, -⟩ := fetches.fetch
  have here := h.stays stays
  rw [general_eq]
  refine .after fetched stays ?_
  cases encoding with
  | opmode _ _ computes unknown =>
    rcases computes with register | ⟨operand, calculates⟩
    · rw [register]
      exact (here.arithmetic unknown).bind _
    · rw [operand]
      exact (if_neg calculates).symm ▸ here.computeOperand host (.inl unknown)
  | source _ _ loads rejected =>
    obtain ⟨operand, calculates⟩ := loads
    rw [operand]
    exact (if_neg calculates).symm ▸ here.computeOperand host (.inr rejected)
  | destination _ _ stores rejected =>
    rw [stores]
    exact here.moveOut rejected
  | controls _ toMemory _ moves rejected =>
    rw [moves]
    cases toMemory with
    | false => exact here.moveControls rejected
    | true => exact here.moveControls rejected
  | dataRegisters _ toMemory _ moves rejected =>
    rw [moves]
    cases toMemory with
    | false => exact here.moveDataRegisters rejected
    | true => exact here.moveDataRegisters rejected
  | _ => omega

/-! ## Conditions -/

/-- The displacement of a loop is fetched. -/
theorem loopOnUnit (h : Performs fpu opcode m) {predicate : BitVec 16}
    (reserved : Reserved predicate) {offset : BitVec 16} (fetches : m.Fetches [offset])
    (r : RegisterNumber) : Abandons .lineF (Execution.loopOnUnit r predicate) m := by
  have based : pc m = (.ok m.cpu.registers.pc, m) := rfl
  obtain ⟨displacement, m₁, fetched, stays⟩ := Consumes.fetchSigned.all rfl fetches
  unfold Execution.loopOnUnit
  exact .afterLook based (.after fetched stays (((h.stays stays).unitHolds reserved).bind _))

/-- The words of a trap are skipped. -/
theorem trapWith (h : Performs fpu opcode m) {predicate : BitVec 16} (reserved : Reserved predicate)
    {words : List (BitVec 16)} (fetches : m.Fetches words) {extra : Option Size}
    (consumes : Consumes (β := β) words.length (Execution.skipOperand extra)) :
    Abandons .lineF (do
      Execution.skipOperand extra
      if ← Execution.unitHolds predicate then throw (.trap .conditional) : MachineM β Unit) m := by
  obtain ⟨u, m₁, skips, stays⟩ := consumes.all rfl fetches
  exact .after skips stays (((h.stays stays).unitHolds reserved).bind _)

/-- An operand is found before the predicate is tested. -/
theorem setBy (performs : Performs fpu opcode m') {predicate : BitVec 16}
    (reserved : Reserved predicate) {mode : AddressMode} {location : Location}
    (found : MachineM.locate mode .byte m = (.ok location, m')) :
    Execution.setBy mode predicate m = (.error (.exception .lineF), m') := by
  unfold Execution.setBy
  rw [bind_ok found, bind_error (performs.unitHolds_apply reserved)]

/-- An address in memory is read, and a reserved extension word refused, before that. -/
theorem setBy_index (h : Performs fpu opcode m) {predicate extension : BitVec 16}
    (reserved : Reserved predicate) (fetches : m.Fetches [extension]) (r : RegisterNumber) :
    ∃ fault m', Execution.setBy (.index r) predicate m = (.error fault, m') ∧
      (fault.IsAccess ∨ fault = .exception
        (if reservedFormat m.cpu.capabilities extension then .illegalInstruction else .lineF)) ∧
      m.Stays BusEvent.IsInquiry m' := by
  have tells := Tells.locate fetches r .byte
  rcases found : MachineM.locate (.index r) .byte m with ⟨fault | location, m'⟩
  · rw [found] at tells
    refine ⟨fault, m', bind_error found _, ?_, (locate_error found).2⟩
    rcases tells with access | ⟨format, illegal⟩
    · exact .inl access
    · rw [format]
      exact .inr illegal
  · rw [found] at tells
    have stays : m.Stays BusEvent.IsInquiry m' := locate_ok found
    refine ⟨_, m', (h.stays stays).setBy reserved found, .inr ?_, stays⟩
    rw [show reservedFormat m.cpu.capabilities extension = false from tells]
    rfl

/-- Where no other instruction is meant, a byte is set. -/
theorem conditional_apply (h : Performs fpu opcode m) {mode : AddressMode}
    (found : AddressMode.ofOpcode? opcode = some mode) (alterable : mode.isDataAlterable = true)
    {predicate : BitVec 16} (fetched : MachineM.fetch m = (.ok predicate, m')) :
    Execution.conditional m = Execution.setBy mode predicate m' := by
  unfold Execution.conditional
  rw [bind_ok (cpu_apply m), bind_ok fetched, h.opcode, found]
  cases mode with
  | addrReg r => cases alterable
  | pcDisplacement => cases alterable
  | pcIndex => cases alterable
  | immediate => cases alterable
  | _ => rfl

/-- Conditions that are not defined. -/
theorem conditional (h : Performs fpu opcode m) {forms : Bool} {words : List (BitVec 16)}
    (encoding : Undefined m.cpu.capabilities forms opcode words)
    (kind : kindOf opcode = 1) (fetches : m.Fetches words) :
    Abandons .lineF Execution.conditional m := by
  obtain ⟨predicate, rest, rfl⟩ : ∃ predicate rest, words = predicate :: rest := by
    cases encoding <;> first | exact ⟨_, _, rfl⟩ | omega
  obtain ⟨m₁, fetched, stays, left⟩ := fetches.fetch
  have here := h.stays stays
  cases encoding
  case set mode _ found reserved extended =>
    rw [← stays.capabilities] at extended
    obtain ⟨location, m₂, finds, stays'⟩ := extended.locate left .byte
    have tests := (here.stays stays').setBy reserved finds
    have sets := h.conditional_apply found extended.isDataAlterable fetched
    exact ⟨m₂, sets.trans tests, stays.trans stays'⟩
  all_goals
    refine .afterLook (cpu_apply m) (.after fetched stays ?_)
    dsimp only
    rw [h.opcode]
  case condition rejected =>
    rw [rejected]
    exact .throw _ m₁
  case loop offset r _ loops reserved =>
    rw [loops]
    exact here.loopOnUnit reserved left r
  case trap mode _ found reserved traps =>
    rw [found]
    cases mode with
    | pcDisplacement =>
      exact here.trapWith reserved left (Option.some.inj traps ▸ .skipWord)
    | pcIndex =>
      exact here.trapWith reserved left (Option.some.inj traps ▸ .skipLong)
    | immediate =>
      exact here.trapWith reserved left (Option.some.inj traps ▸ .pure ())
    | _ => cases traps
  all_goals omega

/-- A branch finds its displacement before the predicate is tested. -/
theorem branchOnUnit (h : Performs fpu opcode m) (reserved : Reserved opcode) {long : Bool}
    {words : List (BitVec 16)} (length : words.length = if long then 2 else 1)
    (fetches : m.Fetches words) : Abandons .lineF (Execution.branchOnUnit long) m := by
  have based : pc m = (.ok m.cpu.registers.pc, m) := rfl
  have tests {m₁ : Machine β} (stays : m.Stays BusEvent.IsFetch m₁) (target : BitVec 32) :
      Abandons .lineF (do
        let c ← cpu
        if ← Execution.unitHolds c.opcode then jump target) m₁ := by
    have here := h.stays stays
    refine .afterLook (cpu_apply m₁) ?_
    rw [here.opcode]
    exact (here.unitHolds reserved).bind _
  cases long with
  | false =>
    obtain ⟨offset, m₁, fetched, stays⟩ := Consumes.fetchSigned.all length fetches
    exact .afterLook based (.after fetched stays (tests stays _))
  | true =>
    obtain ⟨offset, m₁, fetched, stays⟩ := Consumes.fetchLong.all length fetches
    exact .afterLook based (.after fetched stays (tests stays _))

/-! ## Frames -/

theorem guarded {f : Unit → MachineM β Unit}
    (rest : m.cpu.registers.isSupervisor = true → Abandons .lineF (f ()) m) :
    Abandons (if m.cpu.registers.isSupervisor then .lineF else .privilegeViolation)
      (requireSupervisor >>= f) m := by
  have required := requireSupervisor_apply m
  cases supervisor : m.cpu.registers.isSupervisor with
  | false =>
    rw [supervisor] at required
    exact .bind ⟨m, required, .refl m⟩ f
  | true =>
    rw [supervisor] at required
    exact .afterLook required (rest supervisor)

theorem saveUnit (h : Performs fpu opcode m)
    (rejected : Instruction.operand? opcode acceptsSave = none) :
    Abandons (if m.cpu.registers.isSupervisor then .lineF else .privilegeViolation)
      Execution.saveUnit m := by
  refine guarded fun _ => .afterLook h.unit (h.opcodeMode rejected fun mode rejects => ?_)
  obtain ⟨noControl, noStep⟩ := Bool.or_eq_false_iff.mp rejects
  dsimp only
  split
  · cases noStep
  · rw [noControl]
    exact .bind (.throw _ m) _

theorem restoreUnit (h : Performs fpu opcode m)
    (rejected : Instruction.operand? opcode acceptsRestore = none) :
    Abandons (if m.cpu.registers.isSupervisor then .lineF else .privilegeViolation)
      Execution.restoreUnit m := by
  refine guarded fun _ => h.opcodeMode rejected fun mode rejects => ?_
  obtain ⟨noControl, noStep⟩ := Bool.or_eq_false_iff.mp rejects
  dsimp only
  split
  · cases noStep
  · rw [noControl]
    exact .bind (.throw _ m) _

/-! ## All encodings -/

/-- An instruction of the unit does what its opcode says. -/
theorem lineF_apply (h : Performs fpu opcode m) (unit : (opcode.extractLsb' 9 3).toNat = 1)
    (host : Fpu.HostMath) :
    Execution.lineF host m =
      (match kindOf opcode with
      | 0 => Execution.general host
      | 1 => Execution.conditional
      | 2 => Execution.branchOnUnit false
      | 3 => Execution.branchOnUnit true
      | 4 => Execution.saveUnit
      | 5 => Execution.restoreUnit
      | _ => Execution.undefined : MachineM β Unit) m := by
  unfold Execution.lineF
  rw [bind_ok (cpu_apply m), h.fpu, h.opcode, unit]
  rfl

/-- What is not defined takes the exception of line F, unless it is privileged. -/
theorem lineF (h : Performs fpu opcode m) (unit : (opcode.extractLsb' 9 3).toNat = 1)
    (host : Fpu.HostMath) {words : List (BitVec 16)}
    (encoding : Undefined m.cpu.capabilities (fpu.model = .mc68040) opcode words)
    (fetches : m.Fetches words) :
    Abandons (undefinedVector opcode m.cpu.registers) (Execution.lineF host) m := by
  unfold Abandons
  rw [h.lineF_apply unit host]
  show Abandons _ (match kindOf opcode with
    | 0 => _ | 1 => _ | 2 => _ | 3 => _ | 4 => _ | 5 => _ | _ => _) m
  by_cases privileged : kindOf opcode = 4 ∨ kindOf opcode = 5
  · rw [undefinedVector, if_pos privileged]
    cases encoding with
    | save saves rejected =>
      rw [saves]
      exact h.saveUnit rejected
    | restore restores rejected =>
      rw [restores]
      exact h.restoreUnit rejected
    | _ => omega
  · rw [undefinedVector, if_neg privileged]
    by_cases general : kindOf opcode = 0
    · rw [general]
      exact h.general host encoding general fetches
    · by_cases conditional : kindOf opcode = 1
      · rw [conditional]
        exact h.conditional encoding conditional fetches
      · cases encoding with
        | kind other =>
          split
          case h_7 => exact .throw _ m
          all_goals omega
        | branch offset branches reserved =>
          rw [branches]
          exact h.branchOnUnit reserved rfl fetches
        | longBranch high low branches reserved =>
          rw [branches]
          exact h.branchOnUnit reserved rfl fetches
        | _ => omega

end Performs

/-- Opcodes of the unit are instructions of line F on every model. -/
theorem ofOpcode_unit (caps : Capabilities) {opcode : BitVec 16}
    (line : (opcode.extractLsb' 12 4).toNat = 0xF) (unit : (opcode.extractLsb' 9 3).toNat = 1) :
    Instruction.ofOpcode caps opcode = .lineF := by
  have decoded : Instruction.ofOpcode? caps opcode = some (.lineFOf caps opcode) := by
    unfold Instruction.ofOpcode? Instruction.field
    rw [line]
    rfl
  rw [Instruction.ofOpcode, decoded, Option.getD_some, Instruction.lineFOf]
  -- line moves and cache control belong to other coprocessors
  simp only [Instruction.field, BitVec.extractLsb'_toNat, Nat.shiftRight_eq_div_pow] at unit ⊢
  split
  · rw [if_neg (by omega)]
    split
    · omega
    · omega
    · rfl
  · rfl

end Execution

namespace MachineM

open Execution

variable {β : Type} [Bus β] {fpu : Fpu} {opcode : BitVec 16} {m : Machine β}

/-- A 68020 with two words of a program. -/
def facing (status : StatusRegister) (opcode word : BitVec 16) : Machine Bytes where
  cpu := { Cpu.new .m68020 with registers := { Registers.initial with pc := 0x1000, sr := status } }
  bus address :=
    match address.toNat with
    | 0x1000 => opcode.extractLsb' 8 8
    | 0x1001 => opcode.extractLsb' 0 8
    | 0x1002 => word.extractLsb' 8 8
    | 0x1003 => word.extractLsb' 0 8
    | _ => 0

section Steps

variable (host : Fpu.HostMath) (limit : Nat) (line : (opcode.extractLsb' 12 4).toNat = 0xF)
  (unit : (opcode.extractLsb' 9 3).toNat = 1) (present : m.cpu.fpu = some fpu)

include line unit present

/-- A step fetches its opcode and performs the instruction. -/
theorem step_of_lineF {words : List (BitVec 16)} (fetches : m.Fetches (opcode :: words)) :
    ∃ m₀, Performs fpu opcode m₀ ∧ m.cpu.BegunTo m₀.cpu ∧ m.Uses BusEvent.IsFetch m₀ ∧
      m₀.Fetches words ∧
      step host limit m =
        (Execution.lineF host >>= fun _ => settle m.cpu.registers.sr) m₀ := by
  obtain ⟨m₀, begins, same, begun, uses, left⟩ := fetches.begin
  refine ⟨m₀, ⟨?_, same⟩, begun, uses, left, ?_⟩
  · rw [begun]
    exact present
  · rw [step_eq, bind_ok begins, ofOpcode_unit _ line unit]
    rfl

/-- The same for a byte that is set by a predicate. -/
theorem step_of_setBy (conditional : kindOf opcode = 1) {mode : AddressMode}
    (found : AddressMode.ofOpcode? opcode = some mode) (alterable : mode.isDataAlterable = true)
    {predicate : BitVec 16} {words : List (BitVec 16)}
    (fetches : m.Fetches (opcode :: predicate :: words)) :
    ∃ m₀ m₁, m.cpu.BegunTo m₀.cpu ∧ m.Uses BusEvent.IsFetch m₀ ∧ m₀.Stays BusEvent.IsFetch m₁ ∧
      Performs fpu opcode m₁ ∧ m₁.Fetches words ∧
      ∀ {fault m'}, setBy mode predicate m₁ = (.error fault, m') →
        step host limit m = (.error fault, m') := by
  obtain ⟨m₀, performs, begun, uses, left, runs⟩ :=
    step_of_lineF host limit line unit present fetches
  obtain ⟨m₁, fetched, stays, left'⟩ := left.fetch
  refine ⟨m₀, m₁, begun, uses, stays, performs.stays stays, left', fun sets => ?_⟩
  refine runs.trans (bind_error ?_ _)
  rw [performs.lineF_apply unit host, conditional]
  exact (performs.conditional_apply found alterable fetched).trans sets

/-- A step whose encoding is not defined. -/
theorem step_of_undefined {words : List (BitVec 16)}
    (encoding : Undefined m.cpu.capabilities (fpu.model = .mc68040) opcode words)
    (fetches : m.Fetches (opcode :: words)) :
    ∃ m', step host limit m =
        (.error (.exception (undefinedVector opcode m.cpu.registers)), m') ∧
      m.AbandonedWith BusEvent.IsFetch m.cpu.registers m' := by
  obtain ⟨m₀, performs, begun, uses, left, runs⟩ :=
    step_of_lineF host limit line unit present fetches
  have vector : undefinedVector opcode m₀.cpu.registers =
      undefinedVector opcode m.cpu.registers := by
    rw [begun]
    rfl
  rw [← begun.capabilities] at encoding
  obtain ⟨m', fails, stays⟩ := performs.lineF unit host encoding left
  rw [vector] at fails
  exact ⟨m', runs.trans (bind_error fails _), .of_stays begun uses stays⟩

/-- A step that is to set a byte in a mode that counts, by a reserved predicate. -/
theorem step_of_counting (conditional : kindOf opcode = 1) {mode : AddressMode}
    (found : AddressMode.ofOpcode? opcode = some mode) (steps : mode.steps = true)
    {predicate : BitVec 16} (reserved : Reserved predicate)
    (fetches : m.Fetches [opcode, predicate]) :
    ∃ m', step host limit m = (.error (.exception .lineF), m') ∧
      m.AbandonedWith BusEvent.IsFetch (mode.stepped 1 m.cpu.registers) m' := by
  have alterable : mode.isDataAlterable = true := by
    cases mode <;> first | rfl | cases steps
  obtain ⟨m₀, m₁, begun, uses, stays, performs, -, ends⟩ :=
    step_of_setBy host limit line unit present conditional found alterable fetches
  obtain ⟨place, cycles, counts⟩ := locate_of_steps steps .byte m₁
  have counted : Performs fpu opcode { m₁ with cpu := { m₁.cpu with
      registers := mode.stepped 1 m₁.cpu.registers, cycles } } :=
    ⟨performs.fpu, performs.opcode⟩
  exact ⟨_, ends (counted.setBy reserved counts),
    .of_stepped mode 1 begun uses stays ⟨rfl, .refl m₁⟩⟩

/-- A step that is to set a byte in an indexed mode, by a reserved predicate. -/
theorem step_of_indexed (conditional : kindOf opcode = 1) {r : RegisterNumber}
    (found : AddressMode.ofOpcode? opcode = some (.index r)) {predicate extension : BitVec 16}
    (reserved : Reserved predicate) (fetches : m.Fetches [opcode, predicate, extension]) :
    ∃ fault m', step host limit m = (.error fault, m') ∧
      (fault.IsAccess ∨ fault = .exception
        (if reservedFormat m.cpu.capabilities extension then .illegalInstruction else .lineF)) ∧
      m.AbandonedWith BusEvent.IsInquiry m.cpu.registers m' := by
  obtain ⟨m₀, m₁, begun, uses, stays, performs, left, ends⟩ :=
    step_of_setBy host limit line unit present conditional found rfl fetches
  obtain ⟨fault, m', sets, kind, stays'⟩ := performs.setBy_index reserved left r
  rw [stays.capabilities, begun.capabilities] at kind
  refine ⟨fault, m', ends sets, kind, .of_stays begun ?_ (.trans ?_ stays')⟩
  · exact uses.mono fun _ => BusEvent.IsFetch.isInquiry
  · exact stays.mono fun _ => BusEvent.IsFetch.isInquiry

/-- **Commands of class 1 store data registers.**  No instruction has this class, but it is not told
from class 7: only in a mode that storing data registers does not accept is there an exception
without any other effect, and in the others the registers are stored. -/
theorem step_of_reservedClass (general : kindOf opcode = 0) {command : BitVec 16}
    (reserved : classOf command = 1) (fetches : m.Fetches [opcode, command]) :
    (∃ m₀ m₁, m.cpu.BegunTo m₀.cpu ∧ m.Uses BusEvent.IsFetch m₀ ∧ m₀.Stays BusEvent.IsFetch m₁ ∧
      step host limit m =
        (moveDataRegisters command true >>= fun _ => settle m.cpu.registers.sr) m₁) ∧
    (Instruction.operand? opcode (acceptsDataRegisters true (!command.getLsbD 12)) = none →
      ∃ m', step host limit m = (.error (.exception .lineF), m') ∧
        m.AbandonedWith BusEvent.IsFetch m.cpu.registers m') := by
  obtain ⟨m₀, performs, begun, uses, left, runs⟩ :=
    step_of_lineF host limit line unit present fetches
  obtain ⟨m₁, fetched, stays, -⟩ := left.fetch
  have stores : Execution.lineF host m₀ = moveDataRegisters command true m₁ := by
    rw [performs.lineF_apply unit host, general]
    show Execution.general host m₀ = _
    rw [Performs.general_eq, bind_ok fetched, reserved]
    rfl
  have moves : step host limit m =
      (moveDataRegisters command true >>= fun _ => settle m.cpu.registers.sr) m₁ := by
    rw [runs, bind_apply, stores, ← bind_apply]
  refine ⟨⟨m₀, m₁, begun, uses, stays, moves⟩, fun rejected => ?_⟩
  obtain ⟨m', fails, stays'⟩ := (performs.stays stays).moveDataRegisters rejected
  exact ⟨m', moves.trans (bind_error fails _), .of_stays begun uses (stays.trans stays')⟩

/-- The first data register, a NaN, is stored below the stack pointer, which is zero. -/
example :
    let stored := step .native 1 (facing .initial 0xF227 0x2001)
    stored.1 = .ok () ∧ stored.2.cpu.registers.sp = 0xFFFFFFF4 ∧
      [0xFFFFFFF4, 0xFFFFFFF5, 0xFFFFFFF8].map stored.2.bus = [0x7F, 0xFF, 0xFF] := by
  decide +kernel

end Steps

/-- **What is not defined takes the exception of line F and has no other effect**, if its words can
be fetched.  Frames of the unit are refused in user mode first.  A byte that is to be set by a
reserved predicate is found before: this may count an address register, ask for an address in memory
or find a reserved extension word. -/
theorem undefined_step (host : Fpu.HostMath) (limit : Nat) (m : Machine β) (fpu : Fpu)
    (present : m.cpu.fpu = some fpu) (opcode : BitVec 16)
    (line : (opcode.extractLsb' 12 4).toNat = 0xF) (unit : (opcode.extractLsb' 9 3).toNat = 1) :
    (∀ words, Undefined m.cpu.capabilities (fpu.model = .mc68040) opcode words →
      m.Fetches (opcode :: words) →
      ∃ m', step host limit m =
          (.error (.exception (undefinedVector opcode m.cpu.registers)), m') ∧
        m.AbandonedWith BusEvent.IsFetch m.cpu.registers m') ∧
    ∀ predicate, kindOf opcode = 1 → Reserved predicate →
      (∀ mode, AddressMode.ofOpcode? opcode = some mode → mode.steps = true →
        m.Fetches [opcode, predicate] →
        ∃ m', step host limit m = (.error (.exception .lineF), m') ∧
          m.AbandonedWith BusEvent.IsFetch (mode.stepped 1 m.cpu.registers) m') ∧
      ∀ r extension, AddressMode.ofOpcode? opcode = some (.index r) →
        m.Fetches [opcode, predicate, extension] →
        ∃ fault m', step host limit m = (.error fault, m') ∧
          (fault.IsAccess ∨ fault = .exception
            (if reservedFormat m.cpu.capabilities extension then .illegalInstruction
            else .lineF)) ∧
          m.AbandonedWith BusEvent.IsInquiry m.cpu.registers m' := by
  refine ⟨?_, fun predicate conditional reserved => ⟨?_, ?_⟩⟩
  · intro words encoding fetches
    exact step_of_undefined host limit line unit present encoding fetches
  · intro mode found steps fetches
    exact step_of_counting host limit line unit present conditional found steps reserved fetches
  · intro r extension found fetches
    exact step_of_indexed host limit line unit present conditional found reserved fetches

/-- A sum rounded to single precision is not known to the unit of a 68020. -/
theorem undefined_step_sum :
    (facing .initial 0xF200 0x0062).Fetches [0xF200, 0x0062] ∧
      ∃ m', step .native 1 (facing .initial 0xF200 0x0062) = (.error (.exception .lineF), m') ∧
        (facing .initial 0xF200 0x0062).AbandonedWith BusEvent.IsFetch
          (facing .initial 0xF200 0x0062).cpu.registers m' := by
  have fetches : (facing .initial 0xF200 0x0062).Fetches [0xF200, 0x0062] :=
    ⟨_, rfl, _, rfl, trivial⟩
  have encoding : Undefined Model.m68020.capabilities false 0xF200 [0x0062] :=
    .opmode 0x0062 rfl (.inl rfl) rfl
  exact ⟨fetches, (undefined_step .native 1 (facing .initial 0xF200 0x0062) (.new .mc68881) rfl
    0xF200 rfl rfl).1 [0x0062] encoding fetches⟩

/-- In user mode a frame of the unit that is to be saved in a data register is not refused as
undefined.  A byte that is to be set by a reserved predicate is, when A0 has been counted up. -/
theorem facing_other_effects :
    (Undefined Model.m68020.capabilities false 0xF300 [] ∧
      (step .native 1 (facing 0 0xF300 0)).1 = .error (.exception .privilegeViolation)) ∧
    Reserved 0x0020 ∧
      (step .native 1 (facing .initial 0xF258 0x0020)).1 = .error (.exception .lineF) ∧
      (step .native 1 (facing .initial 0xF258 0x0020)).2.cpu.registers.address 0 ≠
        (facing .initial 0xF258 0x0020).cpu.registers.address 0 :=
  ⟨⟨.save rfl rfl, rfl⟩, by decide, rfl, by decide +kernel⟩

end MachineM

end M68k
