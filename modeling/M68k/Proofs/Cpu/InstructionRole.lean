import M68k.Cpu.Execution.Dispatch
import M68k.Proofs.Cpu.DecodedPlaces
import M68k.Proofs.Cpu.OperandRole

/-!
# The role of every instruction

One lemma for each action in `M68k.Execution`, whose proof follows the action.  Each takes for
granted of its addressing modes what the decoder sees to.

* `perform` — an instruction with the modes that it takes for granted plays one role.
-/

namespace M68k

namespace Conforms

variable {instruction : Instruction} {role : Role} {writes : Bool}

/-! ## Moves -/

theorem moveq (r : RegisterNumber) (constant : BitVec 8) :
    Conforms instruction (.working writes) fun _ _ => Execution.moveq r constant := by
  refine .bind (setData r _) fun _ => ?_
  exact updateCodes _

theorem exg (rx ry : GeneralRegister) :
    Conforms instruction (.working writes) fun _ _ => Execution.exg rx ry :=
  modifyRegisters (.exchange rx ry)

theorem swap (r : RegisterNumber) :
    Conforms instruction (.working writes) fun _ _ => Execution.swap r := by
  refine .bind (data r) fun value => ?_
  refine .bind (setData r _) fun _ => ?_
  exact updateCodes _

theorem ext (r : RegisterNumber) (source size : Size) :
    Conforms instruction (.working writes) fun _ _ => Execution.ext r source size := by
  refine .bind (data r) fun value => ?_
  refine .bind (setData r _) fun _ => ?_
  exact updateCodes _

theorem move (size : Size) (src : AddressMode) {dst : AddressMode}
    (alterable : dst.isAlterable = true) :
    Conforms instruction (.working true) fun _ _ => Execution.move size src dst := by
  refine .bind (operand src size) fun value => ?_
  refine locateThen alterable size fun _ can => ?_
  refine updateCodesThen _ ?_
  exact store size can value

theorem movea (size : Size) (src : AddressMode) (r : RegisterNumber) :
    Conforms instruction (.working writes) fun _ _ => Execution.movea size src r :=
  .bind (operand src size) fun _ => setAddress r _

theorem storeBelow (size : Size) (place value : BitVec 32) :
    Conforms instruction (.working true) fun _ _ => Execution.storeBelow size place value := by
  refine .bind (write size _ value) fun _ => ?_
  refine .bind (spend _) fun _ => ?_
  exact .pure _

theorem storeDownward (size : Size) (r : RegisterNumber) (list : BitVec 16) :
    Conforms instruction (.working true) fun _ _ => Execution.storeDownward size r list := by
  refine .bind (address r) fun start => ?_
  refine .cpu (fun _ _ _ _ _ _ => rfl) fun c => ?_
  have transfer (place own : BitVec 32) (n : GeneralRegister) :
      Conforms instruction (.working true) (fun _ _ => do
        let rs ← MachineM.registers
        Execution.storeBelow size place (if n = .address r then own else rs.general n)) :=
    .registers (fun _ _ _ _ _ => rfl) fun rs => storeBelow size place _
  refine .bind (.foldlM (fun place n => transfer place _ n) _ start) fun last => ?_
  exact setAddress r last

theorem storeRegister (size : Size) (place : BitVec 32) (n : GeneralRegister) :
    Conforms instruction (.working true) fun _ _ => Execution.storeRegister size place n := by
  refine .registers (fun _ _ _ _ _ => rfl) fun rs => ?_
  refine .bind (write size place _) fun _ => ?_
  refine .bind (spend _) fun _ => ?_
  exact .pure _

theorem loadRegister (size : Size) (place : BitVec 32) (n : GeneralRegister) :
    Conforms instruction (.working writes) fun _ _ => Execution.loadRegister size place n := by
  refine .bind (read size place) fun value => ?_
  refine .bind (modifyRegisters (.setGeneral n _)) fun _ => ?_
  refine .bind (spend _) fun _ => ?_
  exact .pure _

/-- Registers are stored downward, or upward from a place that can be written. -/
theorem movemStore (size : Size) {mode : AddressMode}
    (accepted : (mode.isControlAlterable || mode.isPreDecrement) = true) :
    Conforms instruction (.working true) fun _ _ => Execution.movem size true mode := by
  refine .bind .fetch fun list => ?_
  have transfer (start : BitVec 32) : Conforms instruction (.working true) fun _ _ =>
      (Execution.upward list).foldlM (Execution.storeRegister size) start :=
    .foldlM (storeRegister size) _ start
  cases mode with
  | preDecrement r => exact storeDownward size r list
  | postIncrement r => cases accepted
  | dataReg | addrReg | pcDisplacement | pcIndex | immediate => cases accepted
  | _ => exact .bind (controlAddress rfl) fun start => .map _ (transfer start)

/-- Registers are loaded upward, from any place. -/
theorem movemLoad (size : Size) {mode : AddressMode}
    (accepted : (mode.isControl || mode.isPostIncrement) = true) :
    Conforms instruction (.working false) fun _ _ => Execution.movem size false mode := by
  refine .bind .fetch fun list => ?_
  have transfer (start : BitVec 32) : Conforms instruction (.working false) fun _ _ =>
      (Execution.upward list).foldlM (Execution.loadRegister size) start :=
    .foldlM (loadRegister size) _ start
  cases mode with
  | preDecrement r => cases accepted
  | postIncrement r =>
    refine .bind (address r) fun start => ?_
    refine .bind (transfer start) fun last => ?_
    exact setAddress r last
  | dataReg | addrReg | immediate => cases accepted
  | _ => exact .bind (controlAddress rfl) fun start => .map _ (transfer start)

theorem movep (size : Size) (toMemory : Bool) (dataRegister addressRegister : RegisterNumber) :
    Conforms instruction (.working true) fun _ _ =>
      Execution.movep size toMemory dataRegister addressRegister := by
  refine .bind fetchSigned fun offset => ?_
  refine .bind (address addressRegister) fun base => ?_
  refine .ite ?_ ?_
  · refine .bind (data dataRegister) fun value => ?_
    exact .forM (fun i => write .byte _ _) _
  · refine .bind (.foldlM (fun value i => ?_) _ _) fun value => storeData size dataRegister value
    exact .bind (read .byte _) fun byte => .pure _

theorem lea {src : AddressMode} (isControl : src.isControl = true) (r : RegisterNumber) :
    Conforms instruction (.working false) fun _ _ => Execution.lea src r :=
  .bind (controlAddress (AddressMode.isMemory_of_isControl isControl)) fun place =>
    setAddress r place

theorem pea {src : AddressMode} (isControl : src.isControl = true) :
    Conforms instruction .pushing fun _ _ => Execution.pea src :=
  .bind (controlAddress isControl) fun place => .push .long place

theorem link (r : RegisterNumber) (long : Bool) :
    Conforms instruction (.working true) fun _ _ => Execution.link r long := by
  refine .ite (.bind fetchLong ?rest) (.bind fetchSigned ?rest)
  intro displacement
  refine .bind sp fun top => ?_
  refine .bind (address r) fun value => ?_
  refine .bind (write .long _ _) fun _ => ?_
  refine .bind (setSp _) fun _ => ?_
  refine .bind (setAddress r _) fun _ => ?_
  exact setSp _

theorem unlk (r : RegisterNumber) :
    Conforms instruction (.working writes) fun _ _ => Execution.unlk r := by
  refine .bind (address r) fun top => ?_
  refine .bind (read .long top) fun value => ?_
  refine .bind (setSp _) fun _ => ?_
  exact setAddress r value

theorem copyLine (src dst : BitVec 32) :
    Conforms instruction (.working true) fun _ _ => Execution.copyLine src dst :=
  .forM (fun _ => .bind (read .long _) fun value => write .long _ value) _

theorem move16 (opcode : BitVec 16) :
    Conforms instruction (.working true) fun _ _ => Execution.move16 opcode := by
  refine .ite ?_ ?_
  · refine .bind .fetch fun extension => ?_
    refine .bind (address _) fun src => ?_
    refine .bind (address _) fun dst => ?_
    refine .bind (setAddress _ _) fun _ => ?_
    have copies : Conforms instruction (.working true) fun _ _ => Execution.copyLine src dst :=
      copyLine src dst
    exact .ite copies (.bind (setAddress _ _) fun _ => copies)
  · refine .bind fetchLong fun constant => ?_
    refine .bind (address _) fun place => ?_
    have copies : Conforms instruction (.working true) fun _ _ =>
        if opcode.getLsbD 3 then Execution.copyLine constant place
        else Execution.copyLine place constant :=
      .ite (copyLine constant place) (copyLine place constant)
    exact .ite copies (.bind (setAddress _ _) fun _ => copies)

/-! ## Arithmetic and logic -/

/-- An operation on a location that can be written. -/
theorem combine (op : AluOp) (size : Size) (src dst : BitVec 32) {target : Location}
    (can : target.CanBeWritten) :
    Conforms instruction (.working true) fun _ _ =>
      Execution.combine op size src dst target := by
  refine .bind status fun sr => ?_
  obtain ⟨result, codes⟩ := op.compute size src dst sr
  cases result with
  | none => exact setCodes codes
  | some value => exact .bind (store size can value) fun _ => setCodes codes

/-- An operation on a data register. -/
theorem combineData (op : AluOp) (size : Size) (src dst : BitVec 32) (r : RegisterNumber) :
    Conforms instruction (.working writes) fun _ _ =>
      Execution.combine op size src dst (.dataReg r) := by
  refine .bind status fun sr => ?_
  obtain ⟨result, codes⟩ := op.compute size src dst sr
  cases result with
  | none => exact setCodes codes
  | some value => exact .bind (storeData size r value) fun _ => setCodes codes

/-- A comparison writes nothing, whatever it compares with. -/
theorem compare (size : Size) (src dst : BitVec 32) (target : Location) :
    Conforms instruction (.working writes) fun _ _ =>
      Execution.combine .cmp size src dst target :=
  updateCodes _

theorem aluToOperand (op : AluOp) (size : Size) {mode : AddressMode}
    (alterable : mode.isAlterable = true) (r : RegisterNumber) :
    Conforms instruction (.working true) fun _ _ => Execution.alu op size mode r true := by
  refine locateThen alterable size fun location can => ?_
  refine .bind (load size location) fun value => ?_
  refine .bind (data r) fun own => ?_
  exact combine op size own value can

theorem aluToRegister (op : AluOp) (size : Size) (mode : AddressMode) (r : RegisterNumber) :
    Conforms instruction (.working false) fun _ _ => Execution.alu op size mode r false := by
  refine .bind (locate (fun is => absurd is Bool.false_ne_true) size) fun location => ?_
  refine .bind (load size location) fun value => ?_
  refine .bind (data r) fun own => ?_
  exact combineData op size value own r

theorem aluAddress (op : AluOp) (size : Size) (src : AddressMode) (r : RegisterNumber) :
    Conforms instruction (.working writes) fun _ _ => Execution.aluAddress op size src r := by
  refine .bind (operand src size) fun source => ?_
  refine .bind (address r) fun place => ?_
  cases op with
  | add => exact setAddress r _
  | sub => exact setAddress r _
  | _ => exact updateCodes _

theorem aluImmediate (op : AluOp) (size : Size) {mode : AddressMode}
    (alterable : mode.isAlterable = true) :
    Conforms instruction (.working true) fun _ _ => Execution.aluImmediate op size mode := by
  refine .bind (operand .immediate size) fun constant => ?_
  refine locateThen alterable size fun location can => ?_
  refine .bind (load size location) fun value => ?_
  exact combine op size constant value can

theorem compareImmediate (size : Size) (mode : AddressMode) :
    Conforms instruction (.working false) fun _ _ => Execution.aluImmediate .cmp size mode := by
  refine .bind (operand .immediate size) fun constant => ?_
  refine .bind (locate (fun is => absurd is Bool.false_ne_true) size) fun location => ?_
  refine .bind (load size location) fun value => ?_
  exact compare size constant value location

theorem aluQuick (add : Bool) (size : Size) (constant : Nat) {mode : AddressMode}
    (alterable : mode.isAlterable = true) :
    Conforms instruction (.working true) fun _ _ =>
      Execution.aluQuick add size constant mode := by
  cases mode with
  | addrReg r => exact .bind (address r) fun _ => setAddress r _
  | _ =>
    refine locateThen alterable size fun location can => ?_
    refine .bind (load size location) fun value => ?_
    exact combine _ size _ value can

theorem pairOperands (size : Size) (rx ry : RegisterNumber) (memory : Bool) :
    Conforms instruction (.working writes) fun _ _ =>
      Execution.pairOperands size rx ry memory := by
  refine .ite ?_ ?_
  · refine .bind (preDecrement ry _) fun place => ?_
    refine .bind (read size place) fun src => ?_
    refine .bind (preDecrement rx _) fun target => ?_
    exact .pure _
  · exact .bind (data ry) fun src => .pure _

/-- The destination of a pair can be written. -/
theorem pairThen (size : Size) (rx ry : RegisterNumber) (memory : Bool)
    {f : BitVec 32 × Location → Action Unit}
    (rest : ∀ pair : BitVec 32 × Location, pair.2.CanBeWritten →
      Conforms instruction (.working true) (f pair)) :
    Conforms instruction (.working true) fun β _ =>
      Execution.pairOperands size rx ry memory >>= fun pair => f pair β := by
  refine .sequence (pairOperands size rx ry memory) fun pair found => rest pair ?_
  cases memory with
  | false =>
    obtain ⟨src, found⟩ := found.of_bind
    rw [found.of_pure]
    trivial
  | true =>
    obtain ⟨place, found⟩ := found.of_bind
    obtain ⟨src, found⟩ := found.of_bind
    obtain ⟨target, found⟩ := found.of_bind
    rw [found.of_pure]
    rfl

theorem aluExtend (add : Bool) (size : Size) (rx ry : RegisterNumber) (memory : Bool) :
    Conforms instruction (.working true) fun _ _ =>
      Execution.aluExtend add size rx ry memory := by
  refine pairThen size rx ry memory fun (_, target) can => ?_
  refine .bind (load size target) fun value => ?_
  refine .bind status fun sr => ?_
  exact .bind (store size can _) fun _ => setCodes _

theorem cmpm (size : Size) (rx ry : RegisterNumber) :
    Conforms instruction (.working writes) fun _ _ => Execution.cmpm size rx ry := by
  refine .bind (operand (.postIncrement ry) size) fun source => ?_
  refine .bind (operand (.postIncrement rx) size) fun target => ?_
  exact updateCodes _

theorem unary (op : UnaryOp) (size : Size) {mode : AddressMode}
    (alterable : mode.isAlterable = true) :
    Conforms instruction (.working true) fun _ _ => Execution.unary op size mode := by
  refine locateThen alterable size fun location can => ?_
  refine .bind (load size location) fun value => ?_
  refine .bind status fun sr => ?_
  refine .bind (store size can _) fun _ => ?_
  exact setCodes _

theorem tst (size : Size) (mode : AddressMode) :
    Conforms instruction (.working writes) fun _ _ => Execution.tst size mode := by
  refine .bind (operand mode size) fun source => ?_
  exact updateCodes _

theorem tas {mode : AddressMode} (alterable : mode.isAlterable = true) :
    Conforms instruction (.working true) fun _ _ => Execution.tas mode := by
  refine locateThen alterable .byte fun location can => ?_
  refine .bind (load .byte location) fun value => ?_
  refine updateCodesThen _ ?_
  exact store .byte can _

theorem finishDecimal {target : Location} (can : target.CanBeWritten) (sum : Alu.DecimalSum) :
    Conforms instruction (.working true) fun _ _ => Execution.finishDecimal target sum := by
  refine .bind (store .byte can _) fun _ => ?_
  exact updateCodes _

theorem bcd (add : Bool) (rx ry : RegisterNumber) (memory : Bool) :
    Conforms instruction (.working true) fun _ _ => Execution.bcd add rx ry memory := by
  refine pairThen .byte rx ry memory fun (_, target) can => ?_
  refine .bind (load .byte target) fun value => ?_
  refine .bind status fun sr => ?_
  exact finishDecimal can _

theorem nbcd {mode : AddressMode} (alterable : mode.isAlterable = true) :
    Conforms instruction (.working true) fun _ _ => Execution.nbcd mode := by
  refine locateThen alterable .byte fun location can => ?_
  refine .bind (load .byte location) fun value => ?_
  refine .bind status fun sr => ?_
  exact finishDecimal can _

theorem unpk (rx ry : RegisterNumber) (memory : Bool) (constant : BitVec 16) :
    Conforms instruction (.working true) fun _ _ => Execution.unpk rx ry memory constant := by
  have alterable : (AddressMode.preDecrement rx).isAlterable = true := rfl
  cases memory with
  | false => exact .bind (data ry) fun _ => storeData .word rx _
  | true =>
    refine .bind (operand (.preDecrement ry) .byte) fun source => ?_
    refine locateThen alterable .byte fun _ low => ?_
    refine .bind (store .byte low _) fun _ => ?_
    refine locateThen alterable .byte fun _ high => ?_
    exact store .byte high _

theorem pack (rx ry : RegisterNumber) (memory : Bool) (constant : BitVec 16) :
    Conforms instruction (.working true) fun _ _ => Execution.pack rx ry memory constant := by
  have alterable : (AddressMode.preDecrement rx).isAlterable = true := rfl
  cases memory with
  | false => exact .bind (data ry) fun _ => storeData .byte rx _
  | true =>
    refine .bind (operand (.preDecrement ry) .byte) fun low => ?_
    refine .bind (operand (.preDecrement ry) .byte) fun high => ?_
    refine .bind (.pure _) fun _ => ?_
    refine locateThen alterable .byte fun _ can => ?_
    exact store .byte can _

theorem packOrUnpack (unpack : Bool) (rx ry : RegisterNumber) (memory : Bool) :
    Conforms instruction (.working true) fun _ _ =>
      Execution.packOrUnpack unpack rx ry memory :=
  .bind .fetch fun constant => .ite (unpk rx ry memory constant) (pack rx ry memory constant)

theorem chk (size : Size) (src : AddressMode) (r : RegisterNumber) :
    Conforms instruction (.working writes) fun _ _ => Execution.chk size src r := by
  have bounds : ¬(Fault.trap .bounds).IsIllegal := by decide
  refine .bind (operand src size) fun source => ?_
  refine .bind (data r) fun value => ?_
  refine .bind status fun sr => ?_
  refine .ite ?_ (.ite ?_ (setCodes _))
  · exact .bind (setCodes _) fun _ => .raiseThen _ bounds
  · exact .bind (setCodes _) fun _ => .raiseThen _ bounds

theorem chk2 (size : Size) {mode : AddressMode} (isControl : mode.isControl = true) :
    Conforms instruction (.working false) fun _ _ => Execution.chk2 size mode := by
  refine .bind .fetch fun word => ?_
  refine .bind (controlAddress (AddressMode.isMemory_of_isControl isControl)) fun place => ?_
  refine .bind (read size place) fun lower => ?_
  refine .bind (read size _) fun upper => ?_
  refine .registers (fun _ _ _ _ _ => rfl) fun rs => ?_
  refine updateCodesThen _ ?_
  exact .ite (.raise _ (by decide)) (.pure _)

theorem cas (size : Size) {mode : AddressMode} (alterable : mode.isAlterable = true) :
    Conforms instruction (.working true) fun _ _ => Execution.cas size mode := by
  refine .bind .fetch fun extension => ?_
  refine locateThen alterable size fun location can => ?_
  refine .bind (load size location) fun value => ?_
  refine .bind (data _) fun own => ?_
  refine .bind status fun sr => ?_
  refine .bind (setCodes _) fun _ => ?_
  refine .ite ?_ ?_
  · exact .bind (data _) fun new => store size can new
  · exact storeData size _ value

theorem cas2 (size : Size) :
    Conforms instruction (.working true) fun _ _ => Execution.cas2 size := by
  refine .bind .fetch fun extension1 => ?_
  refine .bind .fetch fun extension2 => ?_
  refine .registers (fun _ _ _ _ _ => rfl) fun first => ?_
  refine .registers (fun _ _ _ _ _ => rfl) fun second => ?_
  refine .bind (read size _) fun value1 => ?_
  refine .bind (read size _) fun value2 => ?_
  refine .bind (data _) fun own2 => ?_
  refine .bind (data _) fun own1 => ?_
  refine .bind status fun sr => ?_
  refine .bind (setCodes _) fun _ => ?_
  refine .ite ?_ ?_
  · refine .bind (data _) fun new1 => ?_
    refine .bind (write size _ _) fun _ => ?_
    refine .bind (data _) fun new2 => ?_
    exact write size _ _
  · exact .bind (storeData size _ value1) fun _ => storeData size _ value2

theorem mul (signed : Bool) (src : AddressMode) (r : RegisterNumber) :
    Conforms instruction (.working writes) fun _ _ => Execution.mul signed src r := by
  refine .bind (operand src .word) fun source => ?_
  refine .bind (data r) fun value => ?_
  refine .bind (setData r _) fun _ => ?_
  refine updateCodesThen _ ?_
  refine .cpu (fun _ _ _ _ _ _ => rfl) fun _ => ?_
  exact .ite (spend _) (.pure _)

theorem mulLong (src : AddressMode) :
    Conforms instruction (.working writes) fun _ _ => Execution.mulLong src := by
  refine .bind .fetch fun word => ?_
  refine .bind (operand src .long) fun source => ?_
  refine .bind (data _) fun value => ?_
  refine .bind status fun sr => ?_
  refine .ite ?_ ?_
  · refine .bind (setData _ _) fun _ => ?_
    refine .bind (setData _ _) fun _ => ?_
    exact setCodes _
  · exact .bind (setData _ _) fun _ => setCodes _

theorem divideByZero :
    Conforms instruction (.working writes) fun _ _ => Execution.divideByZero := by
  refine updateCodesThen _ ?_
  exact .raise _ (by decide)

theorem div (signed : Bool) (src : AddressMode) (r : RegisterNumber) :
    Conforms instruction (.working writes) fun _ _ => Execution.div signed src r := by
  refine .bind (operand src .word) fun divisor => ?_
  refine .bind (data r) fun dividend => ?_
  refine .ite divideByZero ?_
  refine .cpu (fun _ _ _ _ _ _ => rfl) fun c => ?_
  refine .ite (.bind (spend _) fun _ => ?_) ?_
  all_goals
    dsimp only
    split
    · exact .bind (setData r _) fun _ => updateCodes _
    · exact updateCodes _

theorem divLong (src : AddressMode) :
    Conforms instruction (.working writes) fun _ _ => Execution.divLong src := by
  refine .bind .fetch fun extension => ?_
  refine .bind (operand src .long) fun divisor => ?_
  refine .ite divideByZero ?_
  refine .bind (data _) fun low => ?_
  refine .bind (data _) fun high => ?_
  dsimp only
  split
  · refine .bind (setData _ _) fun _ => ?_
    refine .bind (setData _ _) fun _ => ?_
    exact updateCodes _
  · exact updateCodes _

/-! ## Shifts, bits and bit fields -/

theorem countOf (count : ShiftCount) :
    Conforms instruction (.working writes) fun _ _ => Execution.countOf count := by
  cases count with
  | immediate count => exact .pure count
  | register r => exact .bind (data r) fun _ => .pure _

theorem shiftRegister (kind : ShiftKind) (left : Bool) (size : Size) (count : ShiftCount)
    (r : RegisterNumber) :
    Conforms instruction (.working writes) fun _ _ =>
      Execution.shiftRegister kind left size count r := by
  refine .bind (countOf count) fun places => ?_
  refine .bind (data r) fun value => ?_
  refine .bind status fun sr => ?_
  refine .bind (setData r _) fun _ => ?_
  refine .bind (setCodes _) fun _ => ?_
  refine .cpu (fun _ _ _ _ _ _ => rfl) fun _ => ?_
  exact .ite (spend _) (.pure _)

theorem shiftMemory (kind : ShiftKind) (left : Bool) {mode : AddressMode}
    (alterable : mode.isAlterable = true) :
    Conforms instruction (.working true) fun _ _ => Execution.shiftMemory kind left mode := by
  refine locateThen alterable .word fun location can => ?_
  refine .bind (load .word location) fun value => ?_
  refine .bind status fun sr => ?_
  refine .bind (store .word can _) fun _ => ?_
  exact setCodes _

theorem bitNumber (src : BitSource) :
    Conforms instruction role fun _ _ => Execution.bitNumber src := by
  cases src with
  | immediate => exact .bind .fetch fun _ => .pure _
  | register r => exact .bind (data r) fun _ => .pure _

/-- A bit that is only tested may be anywhere. -/
theorem testBit (src : BitSource) (mode : AddressMode) :
    Conforms instruction (.working false) fun _ _ => Execution.bit .test src mode := by
  refine .bind (bitNumber src) fun number => ?_
  refine .bind (locate (fun is => absurd is Bool.false_ne_true) _) fun location => ?_
  refine .bind (load _ location) fun value => ?_
  refine updateCodesThen _ ?_
  exact .pure _

theorem bit (op : BitOp) (src : BitSource) {mode : AddressMode}
    (alterable : mode.isAlterable = true) :
    Conforms instruction (.working true) fun _ _ => Execution.bit op src mode := by
  refine .bind (bitNumber src) fun number => ?_
  refine locateThen alterable _ fun location can => ?_
  refine .bind (load _ location) fun value => ?_
  refine updateCodesThen _ ?_
  dsimp only
  split
  · exact .ite (.bind (spend _) fun _ => store _ can _) (store _ can _)
  · exact .pure _

theorem useField (op : BitFieldOp) (r : RegisterNumber) (place : Execution.FieldPlace)
    (field : BitVec 32) :
    Conforms instruction (.working writes) fun _ _ => Execution.useField op r place field := by
  refine .bind (data r) fun value => ?_
  refine updateCodesThen _ ?_
  split
  · exact .bind (setData r _) fun _ => .pure _
  · exact .pure _

theorem registerField (op : BitFieldOp) (r : RegisterNumber) (place : Execution.FieldPlace)
    (holder : RegisterNumber) :
    Conforms instruction (.working writes) fun _ _ =>
      Execution.registerField op r place holder := by
  refine .bind (data holder) fun value => ?_
  refine .bind (useField op r place _) fun new => ?_
  cases new with
  | none => exact .pure _
  | some new => exact modifyRegisters ⟨fun _ _ => rfl, fun _ => rfl⟩

theorem memoryField (op : BitFieldOp) (r : RegisterNumber) (place : Execution.FieldPlace)
    (base : BitVec 32) :
    Conforms instruction (.working true) fun _ _ => Execution.memoryField op r place base := by
  refine .bind (read .long _) fun first =>
    .ite (.bind (read .byte _) ?rest) (.bind (.pure 0) ?rest)
  intro fifth
  refine .bind (useField op r place _) fun new => ?_
  cases new with
  | none => exact .pure _
  | some new => exact .bind (write .long _ _) fun _ => .ite (write .byte _ _) (.pure _)

/-- An operation that does not modify its field writes nothing. -/
theorem readField {op : BitFieldOp} (keeps : op.modifies = false) (r : RegisterNumber)
    (place : Execution.FieldPlace) (base : BitVec 32) :
    Conforms instruction (.working false) fun _ _ => Execution.memoryField op r place base := by
  refine .bind (read .long _) fun first =>
    .ite (.bind (read .byte _) ?rest) (.bind (.pure 0) ?rest)
  intro fifth
  refine .sequence (useField op r place _) fun new found => ?_
  have unchanged : new.isSome = false := by
    obtain ⟨own, found⟩ := found.of_bind
    obtain ⟨sr, found⟩ := found.of_bind
    obtain ⟨_, found⟩ := found.of_bind
    rw [← keeps, ← op.replacement_isSome]
    dsimp only at found
    split at found
    · obtain ⟨_, found⟩ := found.of_bind
      rw [found.of_pure]
    · rw [found.of_pure]
  cases new with
  | none => exact .pure _
  | some new => cases unchanged

/-- The role of an operation on a bit field is whether it modifies the field. -/
theorem bitField (op : BitFieldOp) {mode : AddressMode}
    (accepted : (mode.isDataRegister ||
      if op.modifies then mode.isControlAlterable else mode.isControl) = true) :
    Conforms instruction (.working op.modifies) fun _ _ => Execution.bitField op mode := by
  refine .bind .fetch fun extension => ?_
  refine .registers (fun _ _ _ _ _ => rfl) fun rs => ?_
  have memory (held : mode.isDataRegister = false) : Conforms instruction (.working op.modifies)
      fun _ _ => (do
        let base ← MachineM.controlAddress mode
        Execution.memoryField op (.ofField extension 12) (.ofExtension rs extension) base) := by
    rw [held, Bool.false_or] at accepted
    cases modifies : op.modifies with
    | false =>
      rw [modifies, if_neg Bool.false_ne_true] at accepted
      exact .bind (controlAddress (AddressMode.isMemory_of_isControl accepted)) fun base =>
        readField modifies _ _ base
    | true =>
      rw [modifies, if_pos rfl] at accepted
      have parts := Bool.and_eq_true_iff.mp accepted
      have may : (Role.working true).mayFind mode = true :=
        Role.working_mayFind (AddressMode.isMemory_of_isControl parts.1) fun _ => parts.2
      exact .bind (controlAddress may) fun base => memoryField op _ _ base
  cases mode with
  | dataReg holder => exact registerField op _ _ holder
  | _ => exact memory rfl

/-! ## Changes of flow -/

theorem holds (condition : BitVec 4) :
    Conforms instruction role fun _ _ => Execution.holds condition :=
  .bind status fun _ => .pure _

theorem trapv : Conforms instruction role fun _ _ => Execution.trapv :=
  .bind status fun _ => .ite (.raise _ (by decide)) (.pure _)

theorem countDown (r : RegisterNumber) :
    Conforms instruction (.working writes) fun _ _ => Execution.countDown r := by
  refine .bind (data r) fun value => ?_
  refine .bind (setData r _) fun _ => ?_
  exact .pure _

/-- A branch to a subroutine pushes the return address. -/
theorem bsr (displacement : BitVec 8) :
    Conforms instruction .pushing fun _ _ => Execution.bcc 1 displacement := by
  refine .bind (pc nofun) fun base => ?_
  refine .bind capabilities fun caps => ?_
  refine .ite (.bind fetchSigned ?rest) (.ite (.bind fetchLong ?rest) (.bind (.pure _) ?rest))
  intro offset
  refine .bind (pc nofun) fun returnAddress => ?_
  refine .bind (.push .long _) fun _ => ?_
  exact .jump _

theorem bcc {condition : BitVec 4} (other : condition ≠ 1) (displacement : BitVec 8) :
    Conforms instruction (.working false) fun _ _ => Execution.bcc condition displacement := by
  refine .bind (pc (by decide)) fun base => ?_
  refine .bind capabilities fun caps => ?_
  refine .ite (.bind fetchSigned ?rest) (.ite (.bind fetchLong ?rest) (.bind (.pure _) ?rest))
  intro offset
  refine .ite (.jump _) (.test (fun is => absurd is other) fun _ => ?_)
  refine .bind (holds condition) fun truth => ?_
  refine .ite ?_ ?_
  · refine .bind (spend 2) fun _ => ?_
    exact .jump _
  · exact .pure _

theorem dbcc (condition : BitVec 4) (r : RegisterNumber) :
    Conforms instruction (.working false) fun _ _ => Execution.dbcc condition r := by
  refine .bind (pc (by decide)) fun base => ?_
  refine .bind fetchSigned fun offset => ?_
  refine .bind (holds condition) fun truth => ?_
  refine .ite ?_ ?_
  · exact spend 4
  · refine .bind (countDown r) fun _ => ?_
    exact .ite (.jump _) (spend 6)

theorem scc (condition : BitVec 4) {mode : AddressMode} (alterable : mode.isAlterable = true) :
    Conforms instruction (.working true) fun _ _ => Execution.scc condition mode := by
  refine locateThen alterable .byte fun _ can => ?_
  refine .bind (holds condition) fun truth => ?_
  refine .ite ?_ ?_
  · refine .bind (spend 2) fun _ => ?_
    exact store .byte can _
  · exact store .byte can _

theorem skipOperand (extra : Option Size) :
    Conforms instruction role fun _ _ => Execution.skipOperand extra := by
  unfold Execution.skipOperand
  split
  · exact .map _ fetchLong
  · exact .map _ .fetch
  · exact .pure ()

theorem trapcc (condition : BitVec 4) (extra : Option Size) :
    Conforms instruction role fun _ _ => Execution.trapcc condition extra := by
  refine .bind (skipOperand extra) fun _ => ?_
  refine .bind (holds condition) fun truth => ?_
  exact .ite (.raise _ (by decide)) (.pure _)

theorem jmp {mode : AddressMode} (isControl : mode.isControl = true) :
    Conforms instruction (.working false) fun _ _ => Execution.jmp mode :=
  .bind (controlAddress (AddressMode.isMemory_of_isControl isControl)) fun target => .jump target

theorem jsr {mode : AddressMode} (isControl : mode.isControl = true) :
    Conforms instruction .pushing fun _ _ => Execution.jsr mode := by
  refine .bind (controlAddress isControl) fun target => ?_
  refine .bind (pc nofun) fun base => ?_
  refine .bind (.push .long _) fun _ => ?_
  exact .jump target

theorem rts : Conforms instruction (.working writes) fun _ _ => Execution.rts :=
  .bind (pop .long) fun target => .jump target

theorem rtr : Conforms instruction (.working writes) fun _ _ => Execution.rtr := by
  refine .bind (pop .word) fun value => ?_
  refine .bind (pop .long) fun target => ?_
  refine .bind (setCodes _) fun _ => ?_
  exact .jump target

theorem rtd : Conforms instruction (.working writes) fun _ _ => Execution.rtd := by
  refine .bind fetchSigned fun offset => ?_
  refine .bind (pop .long) fun target => ?_
  refine .bind sp fun top => ?_
  refine .bind (setSp _) fun _ => ?_
  exact .jump target

theorem returnFromException (limit : Nat) :
    Conforms instruction (.working writes) fun _ _ => MachineM.returnFromException limit := by
  induction limit with
  | zero => exact .raise _ (by decide)
  | succ limit ih =>
    refine .bind sp fun top => ?_
    refine .bind (read .word top) fun value => ?_
    refine .bind (read .long _) fun target => ?_
    refine .bind capabilities fun caps => ?_
    have leaves {above : BitVec 32} {sr : StatusRegister} {rest : Action Unit}
        (goesOn : Conforms instruction (.working writes) rest) :
        Conforms instruction (.working writes) fun β _ =>
          MachineM.setSp above >>= fun _ => MachineM.setStatus sr >>= fun _ => rest β := by
      refine .bind (setSp above) fun _ => ?_
      exact .bind (setStatus sr) fun _ => goesOn
    refine .ite ?_ (.bind (read .word _) fun format => .ite ?_ ?_)
    · exact leaves (.jump target)
    · exact leaves ih
    · split
      · exact .raise _ (by decide)
      · exact leaves (.jump target)

/-! ## Control of the processor -/

theorem moveUsp (r : RegisterNumber) (toUsp : Bool) :
    Conforms instruction (.working writes) fun _ _ => Execution.moveUsp r toUsp := by
  refine .bind requireSupervisor fun _ => modifyRegisters ?_
  cases toUsp with
  | true => exact ⟨fun _ _ => rfl, fun _ => rfl⟩
  | false =>
    exact ⟨fun rs pc => (Registers.Steady.setAddress r rs.usp).blind rs pc, fun rs =>
      (Registers.Steady.setAddress r rs.usp).ppc rs⟩

theorem toCcr (op : AluOp) :
    Conforms instruction (.working writes) fun _ _ => Execution.toCcr op := by
  refine .bind .fetch fun word => ?_
  exact updateCodes _

theorem toSr (op : AluOp) :
    Conforms instruction (.working writes) fun _ _ => Execution.toSr op := by
  refine .bind requireSupervisor fun _ => ?_
  refine .bind .fetch fun word => ?_
  refine .bind status fun sr => ?_
  exact setStatus _

theorem moveFromSr {dst : AddressMode} (alterable : dst.isAlterable = true) :
    Conforms instruction (.working true) fun _ _ => Execution.moveFromSr dst := by
  have rest : Conforms instruction (.working true) (fun _ _ => do
      let location ← MachineM.locate dst .word
      MachineM.store .word location ((← MachineM.status).setWidth 32)) := by
    refine locateThen alterable .word fun _ can => ?_
    refine .bind status fun sr => ?_
    exact store .word can _
  refine .bind capabilities fun caps => ?_
  refine .ite ?_ ?_
  · refine .bind requireSupervisor fun _ => ?_
    exact rest
  · exact rest

theorem moveFromCcr {dst : AddressMode} (alterable : dst.isAlterable = true) :
    Conforms instruction (.working true) fun _ _ => Execution.moveFromCcr dst := by
  refine locateThen alterable .word fun _ can => ?_
  refine .bind status fun sr => ?_
  exact store .word can _

theorem moveToCcr (src : AddressMode) :
    Conforms instruction (.working writes) fun _ _ => Execution.moveToCcr src :=
  .bind (operand src .word) fun _ => setCodes _

theorem moveToSr (src : AddressMode) :
    Conforms instruction (.working writes) fun _ _ => Execution.moveToSr src := by
  refine .bind requireSupervisor fun _ => ?_
  refine .bind (operand src .word) fun source => ?_
  exact setStatus _

theorem moves (size : Size) {mode : AddressMode} (accepted : mode.isMemoryAlterable = true) :
    Conforms instruction (.working true) fun _ _ => Execution.moves size mode := by
  refine .bind requireSupervisor fun _ => ?_
  refine .bind .fetch fun extension => ?_
  refine .bind (.find mode _ accepted) fun place => ?_
  refine .registers (fun _ _ _ _ _ => rfl) fun rs => ?_
  refine .ite ?_ ?_
  · exact .writeIn _ size place _
  · refine .bind (.readIn _ size place) fun value => ?_
    exact .ite (storeData size _ value) (setAddress _ _)

theorem resetDevices : Conforms instruction role fun _ _ => Execution.resetDevices :=
  .bind requireSupervisor fun _ => .resetLine

theorem stop : Conforms instruction (.working writes) fun _ _ => Execution.stop := by
  refine .bind requireSupervisor fun _ => ?_
  refine .bind .fetch fun value => ?_
  refine .bind (setStatus value) fun _ => ?_
  exact .change ⟨fun _ _ _ => rfl, fun _ => rfl, fun _ => rfl, fun _ => rfl, fun _ => rfl⟩

/-! ## The floating-point unit -/

theorem undefined {α : Type} :
    Conforms instruction role fun β _ => (Execution.undefined : MachineM β α) :=
  .raise _ (by decide)

theorem undefinedThen {α γ : Type} {f : α → Action γ} :
    Conforms instruction role fun β _ =>
      (Execution.undefined : MachineM β α) >>= fun a => f a β :=
  .raiseThen _ (by decide)

theorem unit : Conforms instruction role fun _ _ => Execution.unit := by
  refine .cpu (fun _ _ _ _ _ _ => rfl) fun c => ?_
  split
  · exact .pure _
  · exact undefined

theorem setUnit (fpu : Fpu) :
    Conforms instruction (.working writes) fun _ _ => Execution.setUnit fpu :=
  .change ⟨fun _ _ _ => rfl, fun _ => rfl, fun _ => rfl, fun _ => rfl, fun _ => rfl⟩

theorem opcodeMode : Conforms instruction role fun _ _ => Execution.opcodeMode := by
  refine .cpu (fun _ _ _ _ _ _ => rfl) fun c => ?_
  split
  · exact .pure _
  · exact undefined

theorem arithmetic (command : BitVec 16) :
    Conforms instruction role fun _ _ => Execution.arithmetic command := by
  refine .bind unit fun fpu => ?_
  dsimp only
  split
  · exact .pure _
  · exact undefined

theorem beginUnit : Conforms instruction role fun _ _ => Execution.beginUnit := by
  refine .bind unit fun fpu => ?_
  refine .registers (fun _ _ _ _ _ => rfl) fun rs => ?_
  exact .pure _

theorem computeRegister (host : Fpu.HostMath) (command : BitVec 16) :
    Conforms instruction (.working writes) fun _ _ =>
      Execution.computeRegister host command := by
  refine .bind (arithmetic command) fun operation => ?_
  refine .bind beginUnit fun fpu => ?_
  exact setUnit _

theorem loadConstant (command : BitVec 16) :
    Conforms instruction (.working writes) fun _ _ => Execution.loadConstant command :=
  .bind beginUnit fun _ => setUnit _

theorem setUnitControl (r : Execution.UnitControl) (value : BitVec 32) :
    Conforms instruction (.working writes) fun _ _ => Execution.setUnitControl r value :=
  .bind unit fun _ => setUnit _

theorem unitHolds (predicate : BitVec 16) :
    Conforms instruction (.working writes) fun _ _ => Execution.unitHolds predicate := by
  refine .bind unit fun fpu => ?_
  split
  · exact .bind (setUnit _) fun _ => .pure _
  · exact undefined

theorem readLongs (program : Bool) (count : Nat) (place : BitVec 32) :
    Conforms instruction role fun _ _ => Execution.readLongs program count place := by
  induction count generalizing place with
  | zero => exact .pure _
  | succ count ih =>
    refine .bind (load .long _) fun value => ?_
    refine .bind (ih _) fun _ => ?_
    exact .pure _

theorem writeLongs (place : BitVec 32) (words : List (BitVec 32)) :
    Conforms instruction (.working true) fun _ _ => Execution.writeLongs place words := by
  induction words generalizing place with
  | nil => exact .pure ()
  | cons word rest ih => exact .bind (write .long place word) fun _ => ih _

theorem fetchLongs (count : Nat) :
    Conforms instruction role fun _ _ => Execution.fetchLongs count := by
  induction count with
  | zero => exact .pure _
  | succ count ih =>
    refine .bind fetchLong fun constant => ?_
    refine .bind ih fun _ => ?_
    exact .pure _

theorem readImage (place : BitVec 32) (program : Bool) (bytes : Nat) :
    Conforms instruction role fun _ _ => Execution.readImage place program bytes :=
  .ite (.bind (load _ _) fun _ => .pure _) (.bind (readLongs program _ place) fun _ => .pure _)

theorem writeImage (place : BitVec 32) (image : Image) (bytes : Nat) :
    Conforms instruction (.working true) fun _ _ => Execution.writeImage place image bytes :=
  .ite (write _ place _) (writeLongs place _)

theorem fetchImage (bytes : Nat) :
    Conforms instruction role fun _ _ => Execution.fetchImage bytes :=
  .ite (.bind (fetchConstant _) fun _ => .pure _) (.bind (fetchLongs _) fun _ => .pure _)

theorem sourceImage (mode : AddressMode) (format : Fpu.DataFormat) :
    Conforms instruction (.working false) fun _ _ => Execution.sourceImage mode format := by
  cases mode with
  | dataReg r => exact .ite (.bind (data r) fun _ => .pure _) undefined
  | addrReg r => exact undefined
  | immediate => exact fetchImage _
  | _ => exact .bind (.find _ _ rfl) fun place => readImage place _ _

theorem computeOperand (host : Fpu.HostMath) (command : BitVec 16) :
    Conforms instruction (.working false) fun _ _ => Execution.computeOperand host command := by
  refine .bind (arithmetic command) fun operation => ?_
  refine .bind opcodeMode fun mode => ?_
  refine .bind (sourceImage mode _) fun image => ?_
  refine .bind beginUnit fun fpu => ?_
  exact setUnit _

theorem convertOut (format : Fpu.DataFormat) (command : BitVec 16) :
    Conforms instruction (.working writes) fun _ _ => Execution.convertOut format command := by
  refine .registers (fun _ _ _ _ _ => rfl) fun rs => ?_
  refine .bind beginUnit fun fpu => ?_
  refine .bind (setUnit _) fun _ => ?_
  exact .pure _

theorem moveOut (command : BitVec 16) :
    Conforms instruction (.working true) fun _ _ => Execution.moveOut command := by
  refine .bind opcodeMode fun mode => ?_
  refine .test (fun _ => undefinedThen) fun accepted => ?_
  have memory {bytes : Nat} (isMemory : mode.isMemory = true) :
      Conforms instruction (.working true) fun _ _ => MachineM.memoryAddress mode bytes := by
    refine .find mode _ (Role.working_mayFind isMemory fun _ => mode.alterable_of_data ?_)
    simpa using accepted
  cases mode with
  | dataReg r =>
    exact .ite undefinedThen (.bind (convertOut _ command) fun _ => storeData _ r _)
  | addrReg | immediate => exact absurd rfl accepted
  | _ =>
    refine .bind (memory rfl) fun place => ?_
    refine .bind (convertOut _ command) fun image => ?_
    exact writeImage place image _

theorem loadControls {source : BitVec 32 → Action (BitVec 32)}
    (reads : ∀ place, Conforms instruction (.working writes) (source place)) (place : BitVec 32)
    (selected : List Execution.UnitControl) :
    Conforms instruction (.working writes) fun β _ =>
      Execution.loadControls (fun place => source place β) place selected := by
  induction selected generalizing place with
  | nil => exact .pure ()
  | cons r rest ih =>
    refine .bind (reads place) fun value => ?_
    refine .bind (setUnitControl r value) fun _ => ?_
    exact ih _

/-- Control registers are stored only where they can be. -/
theorem storeControls {mode : AddressMode} (held : mode.isMemory = true ∨ mode = .immediate)
    (selected : List Execution.UnitControl) :
    Conforms instruction (.working true) fun _ _ => Execution.storeControls mode selected := by
  refine .test (fun _ => undefinedThen) fun accepted => ?_
  simp only [Bool.or_eq_true, beq_iff_eq, not_or, Bool.not_eq_true, Bool.not_eq_false'] at accepted
  have may : (Role.working true).mayFind mode = true :=
    Role.working_mayFind (held.resolve_right accepted.1) fun _ => accepted.2
  refine .bind (.find mode _ may) fun place => ?_
  refine .bind unit fun fpu => ?_
  exact writeLongs place _

theorem moveControls (command : BitVec 16) (toMemory : Bool) :
    Conforms instruction (.working toMemory) fun _ _ =>
      Execution.moveControls command toMemory := by
  refine .test (fun _ => undefinedThen) fun _ => ?_
  refine .bind opcodeMode fun mode => ?_
  split
  · refine .ite ?_ ?_
    · exact .bind unit fun fpu => setData _ _
    · exact .bind (data _) fun value => setUnitControl _ value
  · refine .ite ?_ ?_
    · exact .bind unit fun fpu => setAddress _ _
    · exact .bind (address _) fun value => setUnitControl _ value
  · exact undefined
  · exact undefined
  · next mode _ _ notData notAddress _ _ =>
    have held : mode.isMemory = true ∨ mode = .immediate := by
      cases mode with
      | dataReg r => exact (notData r rfl).elim
      | addrReg r => exact (notAddress r rfl).elim
      | immediate => exact .inr rfl
      | _ => exact .inl rfl
    cases toMemory with
    | true => exact storeControls held _
    | false =>
      refine .test (fun is => absurd is Bool.false_ne_true) fun _ => ?_
      refine .test (fun _ => loadControls (fun _ => fetchLong) 0 _) fun other => ?_
      refine .bind (.find mode _ (held.resolve_right other)) fun place => ?_
      exact loadControls (fun _ => load .long _) place _

theorem storeDataRegisters (place : BitVec 32) (selected : List RegisterNumber) :
    Conforms instruction (.working true) fun _ _ =>
      Execution.storeDataRegisters place selected := by
  induction selected generalizing place with
  | nil => exact .pure ()
  | cons r rest ih =>
    refine .bind unit fun fpu => ?_
    refine .bind (writeImage place _ _) fun _ => ?_
    exact ih _

theorem loadDataRegisters (program : Bool) (place : BitVec 32)
    (selected : List RegisterNumber) :
    Conforms instruction (.working writes) fun _ _ =>
      Execution.loadDataRegisters program place selected := by
  induction selected generalizing place with
  | nil => exact .pure ()
  | cons r rest ih =>
    refine .bind (readImage place program _) fun image => ?_
    refine .bind unit fun fpu => ?_
    refine .bind (setUnit _) fun _ => ?_
    exact ih _

theorem dataListAddress (mode : AddressMode) (toMemory ascending : Bool) (count : Nat) :
    Conforms instruction (.working toMemory) fun _ _ =>
      Execution.dataListAddress mode toMemory ascending count := by
  unfold Execution.dataListAddress
  split
  · exact .ite (preDecrement _ _) undefined
  · exact .ite (postIncrement _ _) undefined
  · refine .test (fun accepted => controlAddress ?_) fun _ => undefined
    simp only [Bool.and_eq_true] at accepted
    refine Role.working_mayFind (AddressMode.isMemory_of_isControl accepted.1.1) fun writes => ?_
    rw [writes] at accepted
    exact accepted.2

theorem moveDataRegisters (command : BitVec 16) (toMemory : Bool) :
    Conforms instruction (.working toMemory) fun _ _ =>
      Execution.moveDataRegisters command toMemory := by
  refine .registers (fun _ _ _ _ _ => rfl) fun rs => ?_
  refine .bind opcodeMode fun mode => ?_
  refine .bind (dataListAddress mode toMemory _ _) fun place => ?_
  cases toMemory with
  | true => exact storeDataRegisters place _
  | false => exact loadDataRegisters _ place _

theorem loopOnUnit (r : RegisterNumber) (predicate : BitVec 16) :
    Conforms instruction (.working false) fun _ _ => Execution.loopOnUnit r predicate := by
  refine .bind (pc (by decide)) fun base => ?_
  refine .bind fetchSigned fun offset => ?_
  refine .bind (unitHolds predicate) fun truth => ?_
  refine .ite ?_ ?_
  · exact .pure _
  · refine .bind (countDown r) fun _ => ?_
    exact .ite (.jump _) (.pure _)

theorem branchOnUnit (long : Bool) :
    Conforms instruction (.working false) fun _ _ => Execution.branchOnUnit long := by
  refine .bind (pc (by decide)) fun base => ?_
  refine .ite (.bind fetchLong ?follow) (.bind fetchSigned ?follow)
  intro offset
  refine .cpu (fun _ _ _ _ _ _ => rfl) fun c => ?_
  refine .bind (unitHolds _) fun truth => ?_
  exact .ite (.jump _) (.pure _)

theorem saveUnit : Conforms instruction (.working true) fun _ _ => Execution.saveUnit := by
  refine .bind requireSupervisor fun _ => ?_
  refine .bind unit fun fpu => ?_
  refine .bind opcodeMode fun mode => ?_
  dsimp only
  split
  · exact .bind (preDecrement _ _) fun place => writeLongs place _
  · refine .test (fun accepted => .bind (controlAddress ?_) fun place => writeLongs place _)
      fun _ => undefinedThen
    have parts := Bool.and_eq_true_iff.mp accepted
    exact Role.working_mayFind (AddressMode.isMemory_of_isControl parts.1) fun _ => parts.2

theorem restoreUnit : Conforms instruction (.working false) fun _ _ => Execution.restoreUnit := by
  refine .bind requireSupervisor fun _ => ?_
  refine .bind opcodeMode fun mode => ?_
  dsimp only
  split
  · refine .bind (address _) fun place => ?_
    refine .bind (read .long place) fun header => ?_
    refine .bind unit fun fpu => ?_
    split
    · exact .raise _ (by decide)
    · exact .bind (setUnit _) fun _ => setAddress _ _
  · refine .test (fun accepted => .bind (controlAddress
      (AddressMode.isMemory_of_isControl accepted)) ?_) fun _ => undefinedThen
    intro place
    refine .bind (read .long place) fun header => ?_
    refine .bind unit fun fpu => ?_
    split
    · exact .raise _ (by decide)
    · refine .bind (setUnit _) fun _ => ?_
      split
      · exact setAddress _ _
      · exact .pure _

end Conforms

namespace Agrees

variable {instruction : Instruction}

theorem ite {α : Type} {c : Prop} [Decidable c] {x y : Action α} (yes : Agrees instruction x)
    (no : Agrees instruction y) : Agrees instruction fun β _ => if c then x β else y β := by
  split
  · exact yes
  · exact no

theorem general (host : Fpu.HostMath) :
    Agrees instruction fun _ _ => Execution.general host := by
  refine .bind (fun _ => .fetch) fun command => ?_
  split
  · exact .plays (.working false) (.computeRegister host command)
  · exact .plays (.working false) (.ite (.loadConstant command) (.computeOperand host command))
  · exact .plays (.working true) (.moveOut command)
  · exact .plays (.working false) (.moveControls command false)
  · exact .plays (.working true) (.moveControls command true)
  · exact .plays (.working false) (.moveDataRegisters command false)
  · exact .plays (.working true) (.moveDataRegisters command true)

theorem conditional : Agrees instruction fun _ _ => Execution.conditional := by
  refine .cpu (fun _ _ _ _ _ => rfl) fun c => ?_
  refine .bind (fun _ => .fetch) fun predicate => ?_
  have trapWith (extra : Option Size) : Agrees instruction (fun _ _ => do
      Execution.skipOperand extra
      if ← Execution.unitHolds predicate then throw (.trap .conditional)) :=
    .plays (.working false) (.bind (.skipOperand extra) fun _ =>
      .bind (.unitHolds predicate) fun _ => .ite (.raise _ (by decide)) (.pure _))
  dsimp only
  split
  · exact .plays (.working false) (.loopOnUnit _ predicate)
  · exact trapWith _
  · exact trapWith _
  · exact trapWith _
  · next mode _ _ _ _ _ =>
    refine .plays (.working true) (.test (fun _ => .undefinedThen) fun accepted => ?_)
    have alterable : mode.isAlterable = true := mode.alterable_of_data (by simpa using accepted)
    refine .locateThen alterable .byte fun _ can => ?_
    refine .bind (.unitHolds predicate) fun _ => ?_
    exact .store .byte can _
  · exact .plays (.working false) .undefined

theorem lineF (host : Fpu.HostMath) : Agrees instruction fun _ _ => Execution.lineF host := by
  refine .cpu (fun _ _ _ _ _ => rfl) fun c => ?_
  refine .ite (.plays (.working false) .undefinedThen) ?_
  split
  · exact general host
  · exact conditional
  · exact .plays (.working false) (.branchOnUnit false)
  · exact .plays (.working false) (.branchOnUnit true)
  · exact .plays (.working true) .saveUnit
  · exact .plays (.working false) .restoreUnit
  · exact .plays (.working false) .undefined

/-- A trap instruction has a vector of its own. -/
theorem trap {number : Nat} (few : number < 16) :
    ¬(Fault.trap (VectorNumber.trap number)).IsIllegal := by
  revert number
  decide

/-- **An instruction with the modes that it takes for granted plays one role.** -/
theorem perform (host : Fpu.HostMath) (limit : Nat) (instruction : Instruction)
    (suited : instruction.Suited) (writable : instruction.WritesAlterable) :
    Agrees instruction fun _ _ => Execution.perform host limit instruction := by
  let reading := Role.working false
  let writing := Role.working true
  cases instruction with
  | move size src dst => exact .plays writing (.move size src (writable dst rfl))
  | movea size src r => exact .plays reading (.movea size src r)
  | moveq r constant => exact .plays reading (.moveq r constant)
  | movem size toMemory mode =>
    cases toMemory with
    | true => exact .plays writing (.movemStore size suited)
    | false => exact .plays reading (.movemLoad size suited)
  | movep size toMemory dataRegister addressRegister =>
    exact .plays writing (.movep size toMemory dataRegister addressRegister)
  | lea src r => exact .plays reading (.lea suited r)
  | pea src => exact .plays .pushing (.pea suited)
  | exg rx ry => exact .plays reading (.exg rx ry)
  | swap r => exact .plays reading (.swap r)
  | ext r source size => exact .plays reading (.ext r source size)
  | link r long => exact .plays writing (.link r long)
  | unlk r => exact .plays reading (.unlk r)
  | moveFromSr dst => exact .plays writing (.moveFromSr (writable dst rfl))
  | moveFromCcr dst => exact .plays writing (.moveFromCcr (writable dst rfl))
  | moveToCcr src => exact .plays reading (.moveToCcr src)
  | moveToSr src => exact .plays reading (.moveToSr src)
  | moveUsp r toUsp => exact .plays reading (.moveUsp r toUsp)
  | movec toControl => exact .plays reading (.movec toControl rfl)
  | moves size mode => exact .plays writing (.moves size suited)
  | move16 opcode => exact .plays writing (.move16 opcode)
  | alu op size mode r toOperand =>
    cases toOperand with
    | true => exact .plays writing (.aluToOperand op size (writable mode rfl) r)
    | false => exact .plays reading (.aluToRegister op size mode r)
  | aluAddress op size src r => exact .plays reading (.aluAddress op size src r)
  | aluImmediate op size mode =>
    by_cases compares : op = .cmp
    · rw [compares]
      exact .plays reading (.compareImmediate size mode)
    · exact .plays writing (.aluImmediate op size (writable mode (if_neg compares)))
  | aluQuick add size constant mode =>
    exact .plays writing (.aluQuick add size constant (writable mode rfl))
  | aluExtend add size rx ry memory => exact .plays writing (.aluExtend add size rx ry memory)
  | cmpm size rx ry => exact .plays reading (.cmpm size rx ry)
  | toCcr op => exact .plays reading (.toCcr op)
  | toSr op => exact .plays reading (.toSr op)
  | unary op size mode => exact .plays writing (.unary op size (writable mode rfl))
  | tst size mode => exact .plays reading (.tst size mode)
  | tas mode => exact .plays writing (.tas (writable mode rfl))
  | mul signed src r => exact .plays reading (.mul signed src r)
  | div signed src r => exact .plays reading (.div signed src r)
  | mulLong src => exact .plays reading (.mulLong src)
  | divLong src => exact .plays reading (.divLong src)
  | bcd add rx ry memory => exact .plays writing (.bcd add rx ry memory)
  | nbcd mode => exact .plays writing (.nbcd (writable mode rfl))
  | pack unpack rx ry memory => exact .plays writing (.packOrUnpack unpack rx ry memory)
  | chk size src r => exact .plays reading (.chk size src r)
  | chk2 size mode => exact .plays reading (.chk2 size suited)
  | cas size mode => exact .plays writing (.cas size (writable mode rfl))
  | cas2 size => exact .plays writing (.cas2 size)
  | shiftRegister kind left size count r =>
    exact .plays reading (.shiftRegister kind left size count r)
  | shiftMemory kind left mode => exact .plays writing (.shiftMemory kind left (writable mode rfl))
  | bit op src mode =>
    by_cases tests : op = .test
    · rw [tests]
      exact .plays reading (.testBit src mode)
    · exact .plays writing (.bit op src (writable mode (if_neg tests)))
  | bitField op mode => exact .plays _ (.bitField op suited)
  | bcc condition displacement =>
    by_cases calls : condition = 1
    · rw [calls]
      exact .plays .pushing (.bsr displacement)
    · exact .plays reading (.bcc calls displacement)
  | dbcc condition r => exact .plays reading (.dbcc condition r)
  | scc condition mode => exact .plays writing (.scc condition (writable mode rfl))
  | trapcc condition extra => exact .plays reading (.trapcc condition extra)
  | jmp mode => exact .plays reading (.jmp suited)
  | jsr mode => exact .plays .pushing (.jsr suited)
  | rts => exact .plays reading .rts
  | rtr => exact .plays reading .rtr
  | rte =>
    exact .plays reading (.bind .requireSupervisor fun _ => .returnFromException limit)
  | rtd => exact .plays reading .rtd
  | trap number => exact .plays reading (.raise _ (trap suited))
  | trapv => exact .plays reading .trapv
  | nop => exact .plays reading (.pure ())
  | reset => exact .plays reading .resetDevices
  | stop => exact .plays reading .stop
  | illegal => exact .plays reading (.illegal (.inl rfl))
  | bkpt => exact .plays reading (.illegal (.inr rfl))
  | lineA => exact .plays reading (.raise _ (by decide))
  | lineF => exact lineF host
  | cacheOp => exact .plays reading .requireSupervisor
  | mmuOp => exact .plays reading .requireSupervisor

end Agrees

end M68k
