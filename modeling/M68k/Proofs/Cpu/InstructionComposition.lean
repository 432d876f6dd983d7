import M68k.Cpu.Execution.Dispatch
import M68k.Proofs.Cpu.Composition

/-!
# Every instruction is composed of elementary actions

One lemma for each action in `M68k.Execution`, whose proof follows the action.  The return from an
exception is the one instruction that is not of this kind, since it is a loop.

* `perform` — every instruction but the return from an exception is composed, with nothing
  privileged outside of a test for supervisor mode;
* `enter`, `interrupt` — entering an exception is composed, of privileged actions.
-/

namespace M68k

/-- A control register takes only bits that it has. -/
theorem ControlRegister.keepsMasks_write (r : ControlRegister) (model : Model) (value : BitVec 32)
    (rs : Registers) : rs.KeepsMasks model (r.write model value rs) := by
  cases r with
  | cacr => exact ⟨id, .inr (.cut _ _)⟩
  | _ => exact ⟨id, .inl rfl⟩

/-- The interrupt mask is part of the status register of every model. -/
theorem Registers.keepsMasks_setInterruptMask (rs : Registers) (model : Model) (level : BitVec 3) :
    rs.KeepsMasks model (rs.setInterruptMask level) := by
  have field : Within 0x0700#16 (level.setWidth 16 <<< 8) := by
    revert level
    decide
  exact ⟨fun within => (within.and _).or (field.mono (by cases model <;> decide)), .inl rfl⟩

namespace Composed

variable {model : Model} {grant : Grant}

/-! ## Moves -/

theorem moveq (r : RegisterNumber) (constant : BitVec 8) :
    Composed model grant fun _ _ => Execution.moveq r constant := by
  refine .bind (setData r _) fun _ => ?_
  exact updateCodes _

theorem exg (rx ry : GeneralRegister) : Composed model grant fun _ _ => Execution.exg rx ry :=
  .modifyRegisters fun rs =>
    (rs.sameSystem_setGeneral rx _).trans (Registers.sameSystem_setGeneral _ ry _)

theorem swap (r : RegisterNumber) : Composed model grant fun _ _ => Execution.swap r := by
  refine .bind (data r) fun value => ?_
  refine .bind (setData r _) fun _ => ?_
  exact updateCodes _

theorem ext (r : RegisterNumber) (source size : Size) :
    Composed model grant fun _ _ => Execution.ext r source size := by
  refine .bind (data r) fun value => ?_
  refine .bind (setData r _) fun _ => ?_
  exact updateCodes _

theorem move (size : Size) (src dst : AddressMode) :
    Composed model grant fun _ _ => Execution.move size src dst := by
  refine .bind (operand src size) fun value => ?_
  refine .bind (locate dst size) fun target => ?_
  refine updateCodesThen _ ?_
  exact store size target value

theorem movea (size : Size) (src : AddressMode) (r : RegisterNumber) :
    Composed model grant fun _ _ => Execution.movea size src r :=
  .bind (operand src size) fun _ => setAddress r _

theorem storeBelow (size : Size) (place value : BitVec 32) :
    Composed model grant fun _ _ => Execution.storeBelow size place value := by
  refine .bind (.write size _ value) fun _ => ?_
  refine .bind (.spend _) fun _ => ?_
  exact .pure _

theorem storeDownward (size : Size) (r : RegisterNumber) (list : BitVec 16) :
    Composed model grant fun _ _ => Execution.storeDownward size r list := by
  refine .bind (address r) fun start => ?_
  refine .cpu (fun _ _ _ => rfl) fun c _ => ?_
  have transfer (place own : BitVec 32) (n : GeneralRegister) : Composed model grant (fun _ _ => do
      let rs ← MachineM.registers
      Execution.storeBelow size place (if n = .address r then own else rs.general n)) :=
    .bind registers fun rs => storeBelow size place _
  refine .bind (.foldlM (fun place n => transfer place _ n) _ start) fun last => ?_
  exact setAddress r last

theorem storeRegister (size : Size) (place : BitVec 32) (n : GeneralRegister) :
    Composed model grant fun _ _ => Execution.storeRegister size place n := by
  refine .bind registers fun rs => ?_
  refine .bind (.write size place _) fun _ => ?_
  refine .bind (.spend _) fun _ => ?_
  exact .pure _

theorem loadRegister (size : Size) (place : BitVec 32) (n : GeneralRegister) :
    Composed model grant fun _ _ => Execution.loadRegister size place n := by
  refine .bind (.read size place) fun value => ?_
  refine .bind (.modifyRegisters fun rs => rs.sameSystem_setGeneral n _) fun _ => ?_
  refine .bind (.spend _) fun _ => ?_
  exact .pure _

theorem movem (size : Size) (toMemory : Bool) (mode : AddressMode) :
    Composed model grant fun _ _ => Execution.movem size toMemory mode := by
  refine .bind .fetch fun list => ?_
  have transfer (start : BitVec 32) : Composed model grant fun _ _ =>
      (Execution.upward list).foldlM
        (if toMemory then Execution.storeRegister size else Execution.loadRegister size)
        start := by
    cases toMemory with
    | false => exact .foldlM (loadRegister size) _ start
    | true => exact .foldlM (storeRegister size) _ start
  cases mode with
  | preDecrement r => exact storeDownward size r list
  | postIncrement r =>
    refine .bind (address r) fun start => ?_
    refine .bind (transfer start) fun last => ?_
    exact setAddress r last
  | _ => exact .bind (controlAddress _) fun start => .map _ (transfer start)

theorem movep (size : Size) (toMemory : Bool) (dataRegister addressRegister : RegisterNumber) :
    Composed model grant fun _ _ => Execution.movep size toMemory dataRegister addressRegister := by
  refine .bind fetchSigned fun offset => ?_
  refine .bind (address addressRegister) fun base => ?_
  refine .ite ?_ ?_
  · refine .bind (data dataRegister) fun value => ?_
    exact .forM (fun i => .write .byte _ _) _
  · refine .bind (.foldlM (fun value i => ?_) _ _) fun value => store size (.dataReg _) value
    exact .bind (.read .byte _) fun byte => .pure _

theorem lea (src : AddressMode) (r : RegisterNumber) :
    Composed model grant fun _ _ => Execution.lea src r :=
  .bind (controlAddress src) fun place => setAddress r place

theorem pea (src : AddressMode) : Composed model grant fun _ _ => Execution.pea src :=
  .bind (controlAddress src) fun place => push .long place

theorem link (r : RegisterNumber) (long : Bool) :
    Composed model grant fun _ _ => Execution.link r long := by
  refine .ite (.bind fetchLong ?rest) (.bind fetchSigned ?rest)
  intro displacement
  refine .bind sp fun top => ?_
  refine .bind (address r) fun value => ?_
  refine .bind (.write .long _ _) fun _ => ?_
  refine .bind (setSp _) fun _ => ?_
  refine .bind (setAddress r _) fun _ => ?_
  exact setSp _

theorem unlk (r : RegisterNumber) : Composed model grant fun _ _ => Execution.unlk r := by
  refine .bind (address r) fun top => ?_
  refine .bind (.read .long top) fun value => ?_
  refine .bind (setSp _) fun _ => ?_
  exact setAddress r value

theorem copyLine (src dst : BitVec 32) :
    Composed model grant fun _ _ => Execution.copyLine src dst :=
  .forM (fun _ => .bind (.read .long _) fun value => .write .long _ value) _

theorem move16 (opcode : BitVec 16) :
    Composed model grant fun _ _ => Execution.move16 opcode := by
  refine .ite ?_ ?_
  · refine .bind .fetch fun extension => ?_
    refine .bind (address _) fun src => ?_
    refine .bind (address _) fun dst => ?_
    refine .bind (setAddress _ _) fun _ => ?_
    have copies : Composed model grant fun _ _ => Execution.copyLine src dst := copyLine src dst
    exact .ite copies (.bind (setAddress _ _) fun _ => copies)
  · refine .bind fetchLong fun constant => ?_
    refine .bind (address _) fun place => ?_
    have copies : Composed model grant fun _ _ =>
        if opcode.getLsbD 3 then Execution.copyLine constant place
        else Execution.copyLine place constant :=
      .ite (copyLine constant place) (copyLine place constant)
    exact .ite copies (.bind (setAddress _ _) fun _ => copies)

/-! ## Arithmetic and logic -/

theorem combine (op : AluOp) (size : Size) (src dst : BitVec 32) (target : Location) :
    Composed model grant fun _ _ => Execution.combine op size src dst target := by
  refine .bind status fun sr => ?_
  obtain ⟨result, codes⟩ := op.compute size src dst sr
  cases result with
  | none => exact setCodes codes
  | some value => exact .bind (store size target value) fun _ => setCodes codes

theorem alu (op : AluOp) (size : Size) (mode : AddressMode) (r : RegisterNumber) (toOperand : Bool) :
    Composed model grant fun _ _ => Execution.alu op size mode r toOperand := by
  refine .bind (locate mode size) fun location => ?_
  refine .bind (load size location) fun value => ?_
  refine .bind (data r) fun own => ?_
  exact .ite (combine op size own value location) (combine op size value own (.dataReg r))

theorem aluAddress (op : AluOp) (size : Size) (src : AddressMode) (r : RegisterNumber) :
    Composed model grant fun _ _ => Execution.aluAddress op size src r := by
  refine .bind (operand src size) fun source => ?_
  refine .bind (address r) fun place => ?_
  cases op with
  | add => exact setAddress r _
  | sub => exact setAddress r _
  | _ => exact updateCodes _

theorem aluImmediate (op : AluOp) (size : Size) (mode : AddressMode) :
    Composed model grant fun _ _ => Execution.aluImmediate op size mode := by
  refine .bind (operand .immediate size) fun constant => ?_
  refine .bind (locate mode size) fun location => ?_
  refine .bind (load size location) fun value => ?_
  exact combine op size constant value location

theorem aluQuick (add : Bool) (size : Size) (constant : Nat) (mode : AddressMode) :
    Composed model grant fun _ _ => Execution.aluQuick add size constant mode := by
  cases mode with
  | addrReg r => exact .bind (address r) fun _ => setAddress r _
  | _ =>
    refine .bind (locate _ size) fun location => ?_
    refine .bind (load size location) fun value => ?_
    exact combine _ size _ value location

theorem pairOperands (size : Size) (rx ry : RegisterNumber) (memory : Bool) :
    Composed model grant fun _ _ => Execution.pairOperands size rx ry memory := by
  refine .ite ?_ ?_
  · refine .bind (preDecrement ry _) fun place => ?_
    refine .bind (.read size place) fun src => ?_
    refine .bind (preDecrement rx _) fun target => ?_
    exact .pure _
  · exact .bind (data ry) fun src => .pure _

theorem aluExtend (add : Bool) (size : Size) (rx ry : RegisterNumber) (memory : Bool) :
    Composed model grant fun _ _ => Execution.aluExtend add size rx ry memory := by
  refine .bind (pairOperands size rx ry memory) fun (_, target) => ?_
  refine .bind (load size target) fun value => ?_
  refine .bind status fun sr => ?_
  exact .bind (store size target _) fun _ => setCodes _

theorem cmpm (size : Size) (rx ry : RegisterNumber) :
    Composed model grant fun _ _ => Execution.cmpm size rx ry := by
  refine .bind (operand (.postIncrement ry) size) fun source => ?_
  refine .bind (operand (.postIncrement rx) size) fun target => ?_
  exact updateCodes _

theorem unary (op : UnaryOp) (size : Size) (mode : AddressMode) :
    Composed model grant fun _ _ => Execution.unary op size mode := by
  refine .bind (locate mode size) fun location => ?_
  refine .bind (load size location) fun value => ?_
  refine .bind status fun sr => ?_
  refine .bind (store size location _) fun _ => ?_
  exact setCodes _

theorem tst (size : Size) (mode : AddressMode) :
    Composed model grant fun _ _ => Execution.tst size mode := by
  refine .bind (operand mode size) fun source => ?_
  exact updateCodes _

theorem tas (mode : AddressMode) : Composed model grant fun _ _ => Execution.tas mode := by
  refine .bind (locate mode .byte) fun location => ?_
  refine .bind (load .byte location) fun value => ?_
  refine updateCodesThen _ ?_
  exact store .byte location _

theorem finishDecimal (target : Location) (sum : Alu.DecimalSum) :
    Composed model grant fun _ _ => Execution.finishDecimal target sum := by
  refine .bind (store .byte target _) fun _ => ?_
  exact updateCodes _

theorem bcd (add : Bool) (rx ry : RegisterNumber) (memory : Bool) :
    Composed model grant fun _ _ => Execution.bcd add rx ry memory := by
  refine .bind (pairOperands .byte rx ry memory) fun (_, target) => ?_
  refine .bind (load .byte target) fun value => ?_
  refine .bind status fun sr => ?_
  exact finishDecimal target _

theorem nbcd (mode : AddressMode) : Composed model grant fun _ _ => Execution.nbcd mode := by
  refine .bind (locate mode .byte) fun location => ?_
  refine .bind (load .byte location) fun value => ?_
  refine .bind status fun sr => ?_
  exact finishDecimal location _

theorem unpk (rx ry : RegisterNumber) (memory : Bool) (constant : BitVec 16) :
    Composed model grant fun _ _ => Execution.unpk rx ry memory constant := by
  cases memory with
  | false => exact .bind (data ry) fun _ => store .word (.dataReg rx) _
  | true =>
    refine .bind (operand (.preDecrement ry) .byte) fun source => ?_
    refine .bind (locate (.preDecrement rx) .byte) fun low => ?_
    refine .bind (store .byte low _) fun _ => ?_
    refine .bind (locate (.preDecrement rx) .byte) fun high => ?_
    exact store .byte high _

theorem pack (rx ry : RegisterNumber) (memory : Bool) (constant : BitVec 16) :
    Composed model grant fun _ _ => Execution.pack rx ry memory constant := by
  cases memory with
  | false => exact .bind (data ry) fun _ => store .byte (.dataReg rx) _
  | true =>
    refine .bind (operand (.preDecrement ry) .byte) fun low => ?_
    refine .bind (operand (.preDecrement ry) .byte) fun high => ?_
    refine .bind (.pure _) fun _ => ?_
    refine .bind (locate (.preDecrement rx) .byte) fun target => ?_
    exact store .byte target _

theorem packOrUnpack (unpack : Bool) (rx ry : RegisterNumber) (memory : Bool) :
    Composed model grant fun _ _ => Execution.packOrUnpack unpack rx ry memory :=
  .bind .fetch fun constant => .ite (unpk rx ry memory constant) (pack rx ry memory constant)

theorem chk (size : Size) (src : AddressMode) (r : RegisterNumber) :
    Composed model grant fun _ _ => Execution.chk size src r := by
  refine .bind (operand src size) fun source => ?_
  refine .bind (data r) fun value => ?_
  refine .bind status fun sr => ?_
  -- what follows a trap is not reached, but is composed as well
  have traps {codes : StatusRegister} {rest : Action Unit} (goesOn : Composed model grant rest) :
      Composed model grant fun β _ =>
        MachineM.setCodes codes >>= fun _ =>
          (throw (.trap .bounds) : MachineM β Unit) >>= fun _ => rest β := by
    refine .bind (setCodes codes) fun _ => ?_
    exact .bind (.trap _) fun _ => goesOn
  refine .ite (traps ?_) ?_
  all_goals
    exact .ite (traps (setCodes _)) (setCodes _)

theorem chk2 (size : Size) (mode : AddressMode) :
    Composed model grant fun _ _ => Execution.chk2 size mode := by
  refine .bind .fetch fun word => ?_
  refine .bind (controlAddress mode) fun place => ?_
  refine .bind (.read size place) fun lower => ?_
  refine .bind (.read size _) fun upper => ?_
  refine .bind registers fun rs => ?_
  refine updateCodesThen _ ?_
  exact .ite (.trap _) (.pure _)

theorem cas (size : Size) (mode : AddressMode) :
    Composed model grant fun _ _ => Execution.cas size mode := by
  refine .bind .fetch fun extension => ?_
  refine .bind (locate mode size) fun location => ?_
  refine .bind (load size location) fun value => ?_
  refine .bind (data _) fun own => ?_
  refine .bind status fun sr => ?_
  refine .bind (setCodes _) fun _ => ?_
  refine .ite ?_ ?_
  · exact .bind (data _) fun new => store size location new
  · exact store size (.dataReg _) value

theorem cas2 (size : Size) : Composed model grant fun _ _ => Execution.cas2 size := by
  refine .bind .fetch fun extension1 => ?_
  refine .bind .fetch fun extension2 => ?_
  refine .bind registers fun first => ?_
  refine .bind registers fun second => ?_
  refine .bind (.read size _) fun value1 => ?_
  refine .bind (.read size _) fun value2 => ?_
  refine .bind (data _) fun own2 => ?_
  refine .bind (data _) fun own1 => ?_
  refine .bind status fun sr => ?_
  refine .bind (setCodes _) fun _ => ?_
  refine .ite ?_ ?_
  · refine .bind (data _) fun new1 => ?_
    refine .bind (.write size _ _) fun _ => ?_
    refine .bind (data _) fun new2 => ?_
    exact .write size _ _
  · exact .bind (store size (.dataReg _) value1) fun _ => store size (.dataReg _) value2

theorem mul (signed : Bool) (src : AddressMode) (r : RegisterNumber) :
    Composed model grant fun _ _ => Execution.mul signed src r := by
  refine .bind (operand src .word) fun source => ?_
  refine .bind (data r) fun value => ?_
  refine .bind (setData r _) fun _ => ?_
  refine updateCodesThen _ ?_
  refine .cpu (fun _ _ _ => rfl) fun _ _ => ?_
  exact .ite (.spend _) (.pure _)

theorem mulLong (src : AddressMode) : Composed model grant fun _ _ => Execution.mulLong src := by
  refine .bind .fetch fun word => ?_
  refine .bind (operand src .long) fun source => ?_
  refine .bind (data _) fun value => ?_
  refine .bind status fun sr => ?_
  refine .ite ?_ ?_
  · refine .bind (setData _ _) fun _ => ?_
    refine .bind (setData _ _) fun _ => ?_
    exact setCodes _
  · exact .bind (setData _ _) fun _ => setCodes _

theorem divideByZero : Composed model grant fun _ _ => Execution.divideByZero := by
  refine updateCodesThen _ ?_
  exact .trap _

theorem div (signed : Bool) (src : AddressMode) (r : RegisterNumber) :
    Composed model grant fun _ _ => Execution.div signed src r := by
  refine .bind (operand src .word) fun divisor => ?_
  refine .bind (data r) fun dividend => ?_
  refine .ite divideByZero ?_
  refine .cpu (fun _ _ _ => rfl) fun c _ => ?_
  refine .ite (.bind (.spend _) fun _ => ?_) ?_
  all_goals
    dsimp only
    split
    · exact .bind (setData r _) fun _ => updateCodes _
    · exact updateCodes _

theorem divLong (src : AddressMode) : Composed model grant fun _ _ => Execution.divLong src := by
  refine .bind .fetch fun extension => ?_
  refine .bind (operand src .long) fun divisor => ?_
  refine .ite divideByZero ?_
  refine .bind (data _) fun low => ?_
  refine .bind (data _) fun high => ?_
  dsimp only
  split
  · refine .bind (setData _ _) fun _ => ?_
    refine .bind (setData _ _) fun _ => ?_
    exact updateCodes _
  · exact updateCodes _

/-! ## Shifts, bits and bit fields -/

theorem countOf (count : ShiftCount) : Composed model grant fun _ _ => Execution.countOf count := by
  cases count with
  | immediate count => exact .pure count
  | register r => exact .bind (data r) fun _ => .pure _

theorem shiftRegister (kind : ShiftKind) (left : Bool) (size : Size) (count : ShiftCount)
    (r : RegisterNumber) :
    Composed model grant fun _ _ => Execution.shiftRegister kind left size count r := by
  refine .bind (countOf count) fun places => ?_
  refine .bind (data r) fun value => ?_
  refine .bind status fun sr => ?_
  refine .bind (setData r _) fun _ => ?_
  refine .bind (setCodes _) fun _ => ?_
  refine .cpu (fun _ _ _ => rfl) fun _ _ => ?_
  exact .ite (.spend _) (.pure _)

theorem shiftMemory (kind : ShiftKind) (left : Bool) (mode : AddressMode) :
    Composed model grant fun _ _ => Execution.shiftMemory kind left mode := by
  refine .bind (locate mode .word) fun location => ?_
  refine .bind (load .word location) fun value => ?_
  refine .bind status fun sr => ?_
  refine .bind (store .word location _) fun _ => ?_
  exact setCodes _

theorem bitNumber (src : BitSource) :
    Composed model grant fun _ _ => Execution.bitNumber src := by
  cases src with
  | immediate => exact .bind .fetch fun _ => .pure _
  | register r => exact .bind (data r) fun _ => .pure _

theorem bit (op : BitOp) (src : BitSource) (mode : AddressMode) :
    Composed model grant fun _ _ => Execution.bit op src mode := by
  refine .bind (bitNumber src) fun number => ?_
  refine .bind (locate mode _) fun location => ?_
  refine .bind (load _ location) fun value => ?_
  refine updateCodesThen _ ?_
  dsimp only
  split
  · exact .ite (.bind (.spend _) fun _ => store _ location _) (store _ location _)
  · exact .pure _

theorem useField (op : BitFieldOp) (r : RegisterNumber) (place : Execution.FieldPlace)
    (field : BitVec 32) :
    Composed model grant fun _ _ => Execution.useField op r place field := by
  refine .bind (data r) fun value => ?_
  refine updateCodesThen _ ?_
  split
  · exact .bind (setData r _) fun _ => .pure _
  · exact .pure _

theorem registerField (op : BitFieldOp) (r : RegisterNumber) (place : Execution.FieldPlace)
    (holder : RegisterNumber) :
    Composed model grant fun _ _ => Execution.registerField op r place holder := by
  refine .bind (data holder) fun value => ?_
  refine .bind (useField op r place _) fun new => ?_
  cases new with
  | none => exact .pure _
  | some new => exact .modifyRegisters fun rs => rs.sameSystem_setData holder _

theorem memoryField (op : BitFieldOp) (r : RegisterNumber) (place : Execution.FieldPlace)
    (base : BitVec 32) :
    Composed model grant fun _ _ => Execution.memoryField op r place base := by
  refine .bind (.read .long _) fun first =>
    .ite (.bind (.read .byte _) ?rest) (.bind (.pure 0) ?rest)
  intro fifth
  refine .bind (useField op r place _) fun new => ?_
  cases new with
  | none => exact .pure _
  | some new => exact .bind (.write .long _ _) fun _ => .ite (.write .byte _ _) (.pure _)

theorem bitField (op : BitFieldOp) (mode : AddressMode) :
    Composed model grant fun _ _ => Execution.bitField op mode := by
  refine .bind .fetch fun extension => ?_
  refine .bind registers fun rs => ?_
  cases mode with
  | dataReg holder => exact registerField op _ _ holder
  | _ => exact .bind (controlAddress _) fun base => memoryField op _ _ base

/-! ## Changes of flow -/

theorem holds (condition : BitVec 4) :
    Composed model grant fun _ _ => Execution.holds condition :=
  .bind status fun _ => .pure _

theorem trapv : Composed model grant fun _ _ => Execution.trapv :=
  .bind status fun _ => .ite (.trap _) (.pure _)

theorem countDown (r : RegisterNumber) :
    Composed model grant fun _ _ => Execution.countDown r := by
  refine .bind (data r) fun value => ?_
  refine .bind (setData r _) fun _ => ?_
  exact .pure _

theorem bcc (condition : BitVec 4) (displacement : BitVec 8) :
    Composed model grant fun _ _ => Execution.bcc condition displacement := by
  refine .bind pc fun base => ?_
  refine .bind capabilities fun caps => ?_
  refine .ite (.bind fetchSigned ?rest) (.ite (.bind fetchLong ?rest) (.bind (.pure _) ?rest))
  intro offset
  refine .ite (.jump _) (.ite ?_ ?_)
  · refine .bind pc fun returnAddress => ?_
    refine .bind (push .long _) fun _ => ?_
    exact .jump _
  · refine .bind (holds condition) fun truth => ?_
    refine .ite ?_ ?_
    · refine .bind (.spend 2) fun _ => ?_
      exact .jump _
    · exact .pure _

theorem dbcc (condition : BitVec 4) (r : RegisterNumber) :
    Composed model grant fun _ _ => Execution.dbcc condition r := by
  refine .bind pc fun base => ?_
  refine .bind fetchSigned fun offset => ?_
  refine .bind (holds condition) fun truth => ?_
  refine .ite ?_ ?_
  · exact .spend 4
  · refine .bind (countDown r) fun _ => ?_
    exact .ite (.jump _) (.spend 6)

theorem scc (condition : BitVec 4) (mode : AddressMode) :
    Composed model grant fun _ _ => Execution.scc condition mode := by
  refine .bind (locate mode .byte) fun location => ?_
  refine .bind (holds condition) fun truth => ?_
  refine .ite ?_ ?_
  · refine .bind (.spend 2) fun _ => ?_
    exact store .byte location _
  · exact store .byte location _

theorem skipOperand (extra : Option Size) :
    Composed model grant fun _ _ => Execution.skipOperand extra := by
  unfold Execution.skipOperand
  split
  · exact .map _ fetchLong
  · exact .map _ .fetch
  · exact .pure ()

theorem trapcc (condition : BitVec 4) (extra : Option Size) :
    Composed model grant fun _ _ => Execution.trapcc condition extra := by
  refine .bind (skipOperand extra) fun _ => ?_
  refine .bind (holds condition) fun truth => ?_
  exact .ite (.trap _) (.pure _)

theorem jmp (mode : AddressMode) : Composed model grant fun _ _ => Execution.jmp mode :=
  .bind (controlAddress mode) fun target => .jump target

theorem jsr (mode : AddressMode) : Composed model grant fun _ _ => Execution.jsr mode := by
  refine .bind (controlAddress mode) fun target => ?_
  refine .bind pc fun base => ?_
  refine .bind (push .long _) fun _ => ?_
  exact .jump target

theorem rts : Composed model grant fun _ _ => Execution.rts :=
  .bind (pop .long) fun target => .jump target

theorem rtr : Composed model grant fun _ _ => Execution.rtr := by
  refine .bind (pop .word) fun value => ?_
  refine .bind (pop .long) fun target => ?_
  refine .bind (setCodes _) fun _ => ?_
  exact .jump target

theorem rtd : Composed model grant fun _ _ => Execution.rtd := by
  refine .bind fetchSigned fun offset => ?_
  refine .bind (pop .long) fun target => ?_
  refine .bind sp fun top => ?_
  refine .bind (setSp _) fun _ => ?_
  exact .jump target

/-! ## Control of the processor -/

theorem moveUsp (r : RegisterNumber) (toUsp : Bool) :
    Composed model grant fun _ _ => Execution.moveUsp r toUsp :=
  .guarded fun _ => .control rfl fun rs => by
    split
    · exact ⟨id, .inl rfl⟩
    · exact (rs.sameSystem_setAddress r _).keepsMasks model

theorem toCcr (op : AluOp) : Composed model grant fun _ _ => Execution.toCcr op := by
  refine .bind .fetch fun word => ?_
  exact updateCodes _

theorem toSr (op : AluOp) : Composed model grant fun _ _ => Execution.toSr op := by
  refine .guarded fun _ => ?_
  refine .bind .fetch fun word => ?_
  refine .bind status fun sr => ?_
  exact .setStatus _ rfl

theorem moveFromSr (dst : AddressMode) :
    Composed model grant fun _ _ => Execution.moveFromSr dst := by
  have rest (grant : Grant) : Composed model grant (fun _ _ => do
      let location ← MachineM.locate dst .word
      MachineM.store .word location ((← MachineM.status).setWidth 32)) := by
    refine .bind (locate dst .word) fun location => ?_
    refine .bind status fun sr => ?_
    exact store .word location _
  refine .bind capabilities fun caps => ?_
  refine .ite ?_ ?_
  · refine .guarded fun _ => ?_
    exact rest _
  · exact rest grant

theorem moveFromCcr (dst : AddressMode) :
    Composed model grant fun _ _ => Execution.moveFromCcr dst := by
  refine .bind (locate dst .word) fun location => ?_
  refine .bind status fun sr => ?_
  exact store .word location _

theorem moveToCcr (src : AddressMode) :
    Composed model grant fun _ _ => Execution.moveToCcr src :=
  .bind (operand src .word) fun _ => setCodes _

theorem moveToSr (src : AddressMode) :
    Composed model grant fun _ _ => Execution.moveToSr src := by
  refine .guarded fun _ => ?_
  refine .bind (operand src .word) fun source => ?_
  exact .setStatus _ rfl

theorem movec (toControl : Bool) : Composed model grant fun _ _ => Execution.movec toControl := by
  refine .guarded fun _ => ?_
  refine .bind .fetch fun extension => ?_
  refine .cpu (fun _ _ _ => rfl) fun c known => ?_
  dsimp only
  split
  · exact .exception _
  next r _ =>
    refine .control rfl fun rs => ?_
    rw [known]
    split
    · exact r.keepsMasks_write model _ rs
    · exact (rs.sameSystem_setGeneral _ _).keepsMasks model

theorem moves (size : Size) (mode : AddressMode) :
    Composed model grant fun _ _ => Execution.moves size mode := by
  refine .guarded fun _ => ?_
  refine .bind .fetch fun extension => ?_
  refine .bind (memoryAddress mode _) fun place => ?_
  refine .bind registers fun rs => ?_
  refine .ite (.writeIn _ size place _ rfl) ?_
  exact .bind (.readIn _ size place rfl) fun value =>
    .ite (store size (.dataReg _) value) (setAddress _ _)

theorem resetDevices : Composed model grant fun _ _ => Execution.resetDevices :=
  .guarded fun _ => .resetLine rfl

theorem stop : Composed model grant fun _ _ => Execution.stop := by
  refine .guarded fun _ => ?_
  refine .bind .fetch fun value => ?_
  refine .bind (.setStatus value rfl) fun _ => ?_
  exact .setRunState .stopped nofun rfl

theorem illegal : Composed model grant fun _ _ => Execution.illegal := by
  refine .cpu (fun _ _ _ => rfl) fun c _ => ?_
  refine .bind (.askIllegal c.opcode) fun _ => ?_
  exact .ite (.pure _) (.exception _)

/-! ## The floating-point unit -/

theorem undefined {α : Type} :
    Composed model grant fun β _ => (Execution.undefined : MachineM β α) :=
  .exception _

theorem unit : Composed model grant fun _ _ => Execution.unit := by
  refine .cpu (fun _ _ _ => rfl) fun c _ => ?_
  split
  · exact .pure _
  · exact undefined

theorem opcodeMode : Composed model grant fun _ _ => Execution.opcodeMode := by
  refine .cpu (fun _ _ _ => rfl) fun c _ => ?_
  split
  · exact .pure _
  · exact undefined

theorem arithmetic (command : BitVec 16) :
    Composed model grant fun _ _ => Execution.arithmetic command := by
  refine .bind unit fun fpu => ?_
  dsimp only
  split
  · exact .pure _
  · exact undefined

/-- An action that is a change of the unit. -/
theorem ofUnit {x : Action α} (vector : VectorNumber) (change : Fpu → Option (α × Fpu))
    (does : ∀ (β : Type) [Bus β], x β = MachineM.onUnit vector change)
    (changes : ∀ fpu a fpu', change fpu = some (a, fpu') → Fpu.Change grant.loads fpu fpu') :
    Composed model grant x := by
  have same : x = fun _ _ => MachineM.onUnit vector change := funext fun β => funext fun _ => does β
  rw [same]
  exact .onUnit vector changes

/-- The start of an instruction that reports exceptions, and what it makes of the unit. -/
theorem begun (change : Fpu → α × Fpu)
    (changes : ∀ fpu address,
      Fpu.Change grant.loads fpu (change (fpu.beginInstruction address)).2) :
    Composed model grant fun _ _ => (do
      let fpu ← Execution.beginUnit
      Execution.setUnit (change fpu).2
      Pure.pure (change fpu).1) := by
  have answered : Composed model grant fun _ _ => (do
      let rs ← MachineM.registers
      MachineM.onUnit .lineF fun fpu => some (change (fpu.beginInstruction rs.ppc))) := by
    refine .bind registers fun rs => .onUnit _ fun fpu a fpu' found => ?_
    obtain rfl : (change (fpu.beginInstruction rs.ppc)).2 = fpu' :=
      congrArg Prod.snd (Option.some.inj found)
    exact changes fpu rs.ppc
  refine cast (congrArg (Composed model grant) ?_) answered
  funext β _ m
  rw [MachineM.bind_ok (MachineM.registers_apply m), MachineM.onUnit_apply]
  unfold Execution.beginUnit
  rw [MachineM.bind_apply, MachineM.bind_apply, MachineM.unit_apply]
  cases m.cpu.fpu <;> rfl

/-- The same without an answer. -/
theorem begunUnit {change : Fpu → Fpu}
    (changes : ∀ fpu address, Fpu.Change grant.loads fpu (change (fpu.beginInstruction address))) :
    Composed model grant fun _ _ => (do
      let fpu ← Execution.beginUnit
      Execution.setUnit (change fpu)) :=
  begun (fun fpu => ((), change fpu)) changes

theorem changeUnit {change : Fpu → Fpu} (changes : ∀ fpu, Fpu.Change grant.loads fpu (change fpu)) :
    Composed model grant fun _ _ => (do
      let fpu ← Execution.unit
      Execution.setUnit (change fpu)) := by
  refine ofUnit .lineF (fun fpu => some ((), change fpu)) (fun _ _ => rfl)
    fun fpu _ fpu' found => ?_
  obtain rfl : change fpu = fpu' := congrArg Prod.snd (Option.some.inj found)
  exact changes fpu

theorem computeRegister (host : Fpu.HostMath) (command : BitVec 16) :
    Composed model grant fun _ _ => Execution.computeRegister host command :=
  .bind (arithmetic command) fun _ => begunUnit fun _ _ => .compute ..

theorem loadConstant (command : BitVec 16) :
    Composed model grant fun _ _ => Execution.loadConstant command :=
  begunUnit fun _ _ => .constant ..

theorem setUnitControl (r : Execution.UnitControl) (value : BitVec 32)
    (may : grant.loads = true) :
    Composed model grant fun _ _ => Execution.setUnitControl r value :=
  changeUnit fun _ => .loadControl may r value

theorem unitHolds (predicate : BitVec 16) :
    Composed model grant fun _ _ => Execution.unitHolds predicate := by
  refine ofUnit .lineF (·.testCondition (predicate.toNat % 64)) (fun _ _ => ?_)
    fun _ _ _ tested => .test tested
  unfold Execution.unitHolds MachineM.onUnit
  refine bind_congr fun fpu => ?_
  dsimp only
  cases fpu.testCondition (predicate.toNat % 64) <;> rfl

theorem readLongs (program : Bool) (count : Nat) (place : BitVec 32) :
    Composed model grant fun _ _ => Execution.readLongs program count place := by
  induction count generalizing place with
  | zero => exact .pure _
  | succ count ih =>
    refine .bind (load .long _) fun value => ?_
    refine .bind (ih _) fun _ => ?_
    exact .pure _

theorem writeLongs (place : BitVec 32) (words : List (BitVec 32)) :
    Composed model grant fun _ _ => Execution.writeLongs place words := by
  induction words generalizing place with
  | nil => exact .pure ()
  | cons word rest ih => exact .bind (.write .long place word) fun _ => ih _

theorem fetchLongs (count : Nat) : Composed model grant fun _ _ => Execution.fetchLongs count := by
  induction count with
  | zero => exact .pure _
  | succ count ih =>
    refine .bind fetchLong fun constant => ?_
    refine .bind ih fun _ => ?_
    exact .pure _

theorem readImage (place : BitVec 32) (program : Bool) (bytes : Nat) :
    Composed model grant fun _ _ => Execution.readImage place program bytes :=
  .ite (.bind (load _ _) fun _ => .pure _) (.bind (readLongs program _ place) fun _ => .pure _)

theorem writeImage (place : BitVec 32) (image : Image) (bytes : Nat) :
    Composed model grant fun _ _ => Execution.writeImage place image bytes :=
  .ite (.write _ place _) (writeLongs place _)

theorem fetchImage (bytes : Nat) : Composed model grant fun _ _ => Execution.fetchImage bytes :=
  .ite (.bind (fetchConstant _) fun _ => .pure _) (.bind (fetchLongs _) fun _ => .pure _)

theorem sourceImage (mode : AddressMode) (format : Fpu.DataFormat) :
    Composed model grant fun _ _ => Execution.sourceImage mode format := by
  cases mode with
  | dataReg r => exact .ite (.bind (data r) fun _ => .pure _) undefined
  | addrReg r => exact undefined
  | immediate => exact fetchImage _
  | _ => exact .bind (memoryAddress _ _) fun place => readImage place _ _

theorem computeOperand (host : Fpu.HostMath) (command : BitVec 16) :
    Composed model grant fun _ _ => Execution.computeOperand host command := by
  refine .bind (arithmetic command) fun operation => ?_
  refine .bind opcodeMode fun mode => ?_
  refine .bind (sourceImage mode _) fun image => ?_
  exact begunUnit fun _ _ => .computeOperand ..

theorem convertOut (format : Fpu.DataFormat) (command : BitVec 16) :
    Composed model grant fun _ _ => Execution.convertOut format command :=
  .bind registers fun _ => begun (·.storeOperand format (.ofField command 7) _) fun _ _ => .store ..

theorem moveOut (command : BitVec 16) :
    Composed model grant fun _ _ => Execution.moveOut command := by
  refine .bind opcodeMode fun mode => ?_
  refine .ite (.bind undefined fun _ => ?_) ?_
  all_goals
    dsimp only
    split
    · refine .ite (.bind undefined fun _ => ?_) ?_
      all_goals exact .bind (convertOut _ command) fun _ => store _ (.dataReg _) _
    · refine .bind (memoryAddress _ _) fun place => ?_
      refine .bind (convertOut _ command) fun image => ?_
      exact writeImage place image _

theorem loadControls {source : BitVec 32 → Action (BitVec 32)}
    (reads : ∀ place, Composed model grant (source place)) (place : BitVec 32)
    (selected : List Execution.UnitControl) (may : grant.loads = true) :
    Composed model grant fun β _ =>
      Execution.loadControls (fun place => source place β) place selected := by
  induction selected generalizing place with
  | nil => exact .pure ()
  | cons r rest ih =>
    refine .bind (reads place) fun value => ?_
    refine .bind (setUnitControl r value may) fun _ => ?_
    exact ih _

/-- Moves from the unit are open to all, those to its registers are not. -/
theorem either {toMemory : Bool} {x y : Action α} (may : toMemory = true ∨ grant.loads = true)
    (stores : Composed model grant x) (loads : grant.loads = true → Composed model grant y) :
    Composed model grant fun β _ => if toMemory then x β else y β := by
  cases toMemory with
  | true => exact stores
  | false => exact loads (may.resolve_left Bool.false_ne_true)

theorem storeControls (mode : AddressMode) (selected : List Execution.UnitControl) :
    Composed model grant fun _ _ => Execution.storeControls mode selected := by
  have stored : Composed model grant fun β _ =>
      MachineM.memoryAddress (β := β) mode (4 * selected.length) >>= fun place =>
        Execution.unit >>= fun fpu =>
          Execution.writeLongs place (selected.map fun r => r.read fpu) := by
    refine .bind (memoryAddress mode _) fun place => ?_
    refine .bind unit fun fpu => ?_
    exact writeLongs place _
  exact .ite (.bind undefined fun _ => stored) stored

theorem moveControls (command : BitVec 16) (toMemory : Bool)
    (may : toMemory = true ∨ grant.loads = true) :
    Composed model grant fun _ _ => Execution.moveControls command toMemory := by
  refine .ite (.bind undefined fun _ => ?_) ?_
  all_goals
    refine .bind opcodeMode fun mode => ?_
    split
    · refine .either may ?_ fun loads => ?_
      · exact .bind unit fun fpu => setData _ _
      · exact .bind (data _) fun value => setUnitControl _ value loads
    · refine .either may ?_ fun loads => ?_
      · exact .bind unit fun fpu => setAddress _ _
      · exact .bind (address _) fun value => setUnitControl _ value loads
    · exact undefined
    · exact undefined
    · refine .either may (storeControls _ _) fun loads => ?_
      refine .ite (loadControls (fun _ => fetchLong) _ _ loads) ?_
      refine .bind (memoryAddress _ _) fun place => ?_
      exact loadControls (fun _ => load .long _) place _ loads

theorem storeDataRegisters (place : BitVec 32) (selected : List RegisterNumber) :
    Composed model grant fun _ _ => Execution.storeDataRegisters place selected := by
  induction selected generalizing place with
  | nil => exact .pure ()
  | cons r rest ih =>
    refine .bind unit fun fpu => ?_
    refine .bind (writeImage place _ _) fun _ => ?_
    exact ih _

theorem loadThen (r : RegisterNumber) (value : Extended) (may : grant.loads = true)
    {x : Action α} (rest : Composed model grant x) :
    Composed model grant fun β _ => (do
      Execution.setUnit ((← Execution.unit).setData r value)
      x β) := by
  have loaded : Composed model grant fun β _ => (do
      (do Execution.setUnit ((← Execution.unit).setData r value) : MachineM β Unit)
      x β) :=
    .bind (changeUnit fun _ => .loadData may r value) fun _ => rest
  simpa only [bind_assoc] using loaded

theorem loadDataRegisters (program : Bool) (place : BitVec 32)
    (selected : List RegisterNumber) (may : grant.loads = true) :
    Composed model grant fun _ _ => Execution.loadDataRegisters program place selected := by
  induction selected generalizing place with
  | nil => exact .pure ()
  | cons r rest ih =>
    refine .bind (readImage place program _) fun image => ?_
    exact loadThen r _ may (ih _)

theorem dataListAddress (mode : AddressMode) (toMemory ascending : Bool) (count : Nat) :
    Composed model grant fun _ _ => Execution.dataListAddress mode toMemory ascending count := by
  unfold Execution.dataListAddress
  split
  · exact .ite (preDecrement _ _) undefined
  · exact .ite (postIncrement _ _) undefined
  · exact .ite (controlAddress _) undefined

theorem moveDataRegisters (command : BitVec 16) (toMemory : Bool)
    (may : toMemory = true ∨ grant.loads = true) :
    Composed model grant fun _ _ => Execution.moveDataRegisters command toMemory := by
  refine .bind registers fun rs => ?_
  refine .bind opcodeMode fun mode => ?_
  refine .bind (dataListAddress mode toMemory _ _) fun place => ?_
  exact .either may (storeDataRegisters place _) (loadDataRegisters _ place _)

theorem general (host : Fpu.HostMath) (may : grant.loads = true) :
    Composed model grant fun _ _ => Execution.general host := by
  refine .bind .fetch fun command => ?_
  split
  · exact computeRegister host command
  · exact .ite (loadConstant command) (computeOperand host command)
  · exact moveOut command
  · exact moveControls command false (.inr may)
  · exact moveControls command true (.inl rfl)
  · exact moveDataRegisters command false (.inr may)
  · exact moveDataRegisters command true (.inl rfl)

theorem loopOnUnit (r : RegisterNumber) (predicate : BitVec 16) :
    Composed model grant fun _ _ => Execution.loopOnUnit r predicate := by
  refine .bind pc fun base => ?_
  refine .bind fetchSigned fun offset => ?_
  refine .bind (unitHolds predicate) fun truth => ?_
  refine .ite ?_ ?_
  · exact .pure _
  · refine .bind (countDown r) fun _ => ?_
    exact .ite (.jump _) (.pure _)

theorem conditional : Composed model grant fun _ _ => Execution.conditional := by
  refine .cpu (fun _ _ _ => rfl) fun c _ => ?_
  refine .bind .fetch fun predicate => ?_
  have trapWith (extra : Option Size) : Composed model grant (fun _ _ => do
      Execution.skipOperand extra
      if ← Execution.unitHolds predicate then throw (.trap .conditional)) := by
    refine .bind (skipOperand extra) fun _ => ?_
    refine .bind (unitHolds predicate) fun truth => ?_
    exact .ite (.trap _) (.pure _)
  dsimp only
  split
  · exact loopOnUnit _ predicate
  · exact trapWith _
  · exact trapWith _
  · exact trapWith _
  · refine .ite (.bind undefined fun _ => ?_) ?_
    all_goals
      refine .bind (locate _ .byte) fun location => ?_
      refine .bind (unitHolds predicate) fun truth => ?_
      exact store .byte location _
  · exact undefined

theorem branchOnUnit (long : Bool) :
    Composed model grant fun _ _ => Execution.branchOnUnit long := by
  refine .bind pc fun base => ?_
  refine .ite (.bind fetchLong ?follow) (.bind fetchSigned ?follow)
  intro offset
  refine .cpu (fun _ _ _ => rfl) fun c _ => ?_
  refine .bind (unitHolds _) fun truth => ?_
  exact .ite (.jump _) (.pure _)

theorem saveUnit : Composed model grant fun _ _ => Execution.saveUnit := by
  refine .guarded fun _ => ?_
  refine .bind unit fun fpu => ?_
  refine .bind opcodeMode fun mode => ?_
  dsimp only
  split
  · exact .bind (preDecrement _ _) fun place => writeLongs place _
  · exact .ite (.bind (controlAddress _) fun place => writeLongs place _)
      (.bind undefined fun place => writeLongs place _)

/-- Restores a frame and goes on with its size. -/
theorem restoreThen (header : BitVec 32) {rest : Nat → Action α}
    (goesOn : ∀ size, Composed model grant (rest size)) :
    Composed model grant fun β _ => (do
      match (← Execution.unit).restore header with
      | .error _ => throw (.exception .formatError)
      | .ok (size, fpu) =>
        Execution.setUnit fpu
        rest size β) := by
  have restored : Composed model grant fun β _ =>
      MachineM.onUnit .formatError (fun fpu => (fpu.restore header).toOption) >>= (rest · β) := by
    refine .bind (.onUnit .formatError fun fpu size fpu' found => ?_) goesOn
    cases restored : fpu.restore header with
    | error _ => simp [restored, Except.toOption] at found
    | ok answer =>
      obtain rfl : answer = (size, fpu') := by simpa [restored, Except.toOption] using found
      exact .restore restored
  refine cast (congrArg (Composed model grant) ?_) restored
  funext β _
  unfold MachineM.onUnit
  simp only [bind_assoc]
  refine bind_congr fun fpu => ?_
  cases fpu.restore header with
  | error _ => rfl
  | ok answer => simp [Except.toOption]

theorem restoreUnit : Composed model grant fun _ _ => Execution.restoreUnit := by
  refine .guarded fun _ => ?_
  refine .bind opcodeMode fun mode => ?_
  dsimp only
  split
  · refine .bind (address _) fun place => ?_
    refine .bind (.read .long place) fun header => ?_
    exact restoreThen header fun _ => setAddress _ _
  · refine .ite (.bind (controlAddress _) ?rest) (.bind undefined ?rest)
    intro place
    refine .bind (.read .long place) fun header => ?_
    refine restoreThen header fun size => ?_
    split
    · exact setAddress _ _
    · exact .pure _

theorem lineF (host : Fpu.HostMath) (may : grant.loads = true) :
    Composed model grant fun _ _ => Execution.lineF host := by
  refine .cpu (fun _ _ _ => rfl) fun c _ => ?_
  refine .ite (.bind undefined fun _ => ?_) ?_
  all_goals
    split
    · exact general host may
    · exact conditional
    · exact branchOnUnit false
    · exact branchOnUnit true
    · exact saveUnit
    · exact restoreUnit
    · exact undefined

/-- Every instruction is composed, except for the return from an exception. -/
theorem perform (host : Fpu.HostMath) (limit : Nat) (instruction : Instruction)
    (other : instruction ≠ .rte) (may : instruction = .lineF → grant.loads = true) :
    Composed model grant fun _ _ => Execution.perform host limit instruction := by
  cases instruction with
  | move size src dst => exact move size src dst
  | movea size src r => exact movea size src r
  | moveq r constant => exact moveq r constant
  | movem size toMemory mode => exact movem size toMemory mode
  | movep size toMemory dataRegister addressRegister =>
    exact movep size toMemory dataRegister addressRegister
  | lea src r => exact lea src r
  | pea src => exact pea src
  | exg rx ry => exact exg rx ry
  | swap r => exact swap r
  | ext r source size => exact ext r source size
  | link r long => exact link r long
  | unlk r => exact unlk r
  | moveFromSr dst => exact moveFromSr dst
  | moveFromCcr dst => exact moveFromCcr dst
  | moveToCcr src => exact moveToCcr src
  | moveToSr src => exact moveToSr src
  | moveUsp r toUsp => exact moveUsp r toUsp
  | movec toControl => exact movec toControl
  | moves size mode => exact moves size mode
  | move16 opcode => exact move16 opcode
  | alu op size mode r toOperand => exact alu op size mode r toOperand
  | aluAddress op size src r => exact aluAddress op size src r
  | aluImmediate op size mode => exact aluImmediate op size mode
  | aluQuick add size constant mode => exact aluQuick add size constant mode
  | aluExtend add size rx ry memory => exact aluExtend add size rx ry memory
  | cmpm size rx ry => exact cmpm size rx ry
  | toCcr op => exact toCcr op
  | toSr op => exact toSr op
  | unary op size mode => exact unary op size mode
  | tst size mode => exact tst size mode
  | tas mode => exact tas mode
  | mul signed src r => exact mul signed src r
  | div signed src r => exact div signed src r
  | mulLong src => exact mulLong src
  | divLong src => exact divLong src
  | bcd add rx ry memory => exact bcd add rx ry memory
  | nbcd mode => exact nbcd mode
  | pack unpack rx ry memory => exact packOrUnpack unpack rx ry memory
  | chk size src r => exact chk size src r
  | chk2 size mode => exact chk2 size mode
  | cas size mode => exact cas size mode
  | cas2 size => exact cas2 size
  | shiftRegister kind left size count r => exact shiftRegister kind left size count r
  | shiftMemory kind left mode => exact shiftMemory kind left mode
  | bit op src mode => exact bit op src mode
  | bitField op mode => exact bitField op mode
  | bcc condition displacement => exact bcc condition displacement
  | dbcc condition r => exact dbcc condition r
  | scc condition mode => exact scc condition mode
  | trapcc condition extra => exact trapcc condition extra
  | jmp mode => exact jmp mode
  | jsr mode => exact jsr mode
  | rts => exact rts
  | rtr => exact rtr
  | rte => exact absurd rfl other
  | rtd => exact rtd
  | trap number => exact .trap _
  | trapv => exact trapv
  | nop => exact .pure ()
  | reset => exact resetDevices
  | stop => exact stop
  | illegal => exact illegal
  | bkpt => exact illegal
  | lineA => exact .exception _
  | lineF => exact lineF host (may rfl)
  | cacheOp => exact .requireSupervisor
  | mmuOp => exact .requireSupervisor

/-! ## Exceptions -/

variable (may : grant.privileged = true)
include may

theorem enterSupervisor : Composed model grant fun _ _ => MachineM.enterSupervisor := by
  refine .bind status fun old => ?_
  refine .bind (.setStatus _ may) fun _ => ?_
  exact .pure old

theorem writeWords (place : BitVec 32) (words : List (BitVec 16)) :
    Composed model grant fun _ _ => MachineM.writeWords place words := by
  induction words generalizing place with
  | nil => exact .pure ()
  | cons word rest ih => exact .bind (.writeIn _ .word place _ may) fun _ => ih _

theorem pushFrame (format : FrameFormat) (vector : VectorNumber) (sr : StatusRegister)
    (returnAddress : BitVec 32) (access : Option AccessFault) :
    Composed model grant fun _ _ =>
      MachineM.pushFrame format vector sr returnAddress access := by
  refine .cpu (fun _ _ _ => rfl) fun _ _ => ?_
  refine .bind (writeWords may _ _) fun _ => ?_
  exact setSp _

theorem jumpToHandler (vector : VectorNumber) :
    Composed model grant fun _ _ => MachineM.jumpToHandler vector := by
  refine .cpu (fun _ _ _ => rfl) fun _ _ => ?_
  refine .bind (.readIn _ .long _ may) fun value => ?_
  refine .ite ?_ ?_
  · refine .bind (.readIn _ .long _ may) fun target => ?_
    exact .jump _
  · exact .jump _

theorem enter (vector : VectorNumber) (returnAddress : BitVec 32) (access : Option AccessFault) :
    Composed model grant fun _ _ => MachineM.enter vector returnAddress access := by
  refine .cpu (fun _ _ _ => rfl) fun _ _ => ?_
  refine .bind (enterSupervisor may) fun _ => ?_
  refine .bind (.setRunState .running (by decide) may) fun _ => ?_
  refine .bind (pushFrame may _ _ _ _ _) fun _ => ?_
  refine .bind (.spend _) fun _ => ?_
  exact jumpToHandler may vector

theorem enterAccess (vector : VectorNumber) (access : AccessFault) :
    Composed model grant fun _ _ => MachineM.enterAccess vector access :=
  .cpu (fun _ _ _ => rfl) fun _ _ => enter may vector _ _

theorem interrupt (level : BitVec 3) :
    Composed model grant fun _ _ => MachineM.interrupt level := by
  refine .bind (.acknowledge level may) fun answer => ?_
  refine .bind (enterSupervisor may) fun old => ?_
  refine .bind (.control may fun rs => rs.keepsMasks_setInterruptMask model level) fun _ => ?_
  refine .bind (.setRunState .running (by decide) may) fun _ => ?_
  refine .cpu (fun _ _ _ => rfl) fun c _ => ?_
  refine .bind (pushFrame may _ _ _ _ _) fun _ => ?_
  refine .ite ?_ ?_
  · refine .bind status fun sr => ?_
    refine .bind (.setStatus _ may) fun _ => ?_
    refine .bind (pushFrame may _ _ _ _ _) fun _ => ?_
    refine .bind (.spend _) fun _ => ?_
    exact jumpToHandler may _
  · exact .bind (.spend _) fun _ => jumpToHandler may _

end Composed

end M68k
