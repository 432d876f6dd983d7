import M68k.Cpu.Run
import M68k.Proofs.Cpu.OperandAccess
import M68k.Proofs.Cpu.Ram

/-!
# The spaces in which instructions reach their operands

Operands relative to the program counter are parts of the program, and most instructions read them
in program space.  Those that only take the address of their operand and then read memory on their
own, as the moves of several registers do, read it as data whatever the mode.  Everything else is
data, apart from what moves between address spaces reach.

One lemma for each action in `M68k.Execution`, whose proof follows the action.

* `Instruction.usage` — how each instruction uses the bus;
* `operand_spaces` — in which spaces instructions reach their operands, and what the bus sees;
* `relativeReader_reads_data` — operands relative to the program counter that are read as data.
-/

namespace M68k

open MachineM

variable {β : Type} [Bus β]

namespace KeepsTo

variable {u : Usage}

/-! ## Looking at registers -/

theorem registers : KeepsTo (β := β) u MachineM.registers := look fun _ => rfl

theorem status : KeepsTo (β := β) u MachineM.status := look fun _ => rfl

theorem data (r : RegisterNumber) : KeepsTo (β := β) u (MachineM.data r) := look fun _ => rfl

theorem address (r : RegisterNumber) : KeepsTo (β := β) u (MachineM.address r) := look fun _ => rfl

theorem cpu : KeepsTo (β := β) u MachineM.cpu := look fun _ => rfl

theorem pc : KeepsTo (β := β) u MachineM.pc := look fun _ => rfl

theorem sp : KeepsTo (β := β) u MachineM.sp := look fun _ => rfl

theorem requireSupervisor : KeepsTo (β := β) u MachineM.requireSupervisor := by
  refine look fun m => ?_
  rw [requireSupervisor_apply]

/-! ## Moves -/

theorem moveq (r : RegisterNumber) (constant : BitVec 8) :
    KeepsTo (β := β) u (Execution.moveq r constant) :=
  bind (setData r _) fun _ => bind status fun _ => setCodes _

theorem exg (rx ry : GeneralRegister) : KeepsTo (β := β) u (Execution.exg rx ry) :=
  modifyRegisters fun rs =>
    (rs.sameSystem_setGeneral rx _).trans (Registers.sameSystem_setGeneral _ ry _)

theorem swap (r : RegisterNumber) : KeepsTo (β := β) u (Execution.swap r) :=
  bind (data r) fun _ => bind (setData r _) fun _ => bind status fun _ => setCodes _

theorem ext (r : RegisterNumber) (source size : Size) :
    KeepsTo (β := β) u (Execution.ext r source size) :=
  bind (data r) fun _ => bind (setData r _) fun _ => bind status fun _ => setCodes _

theorem move (size : Size) {src dst : AddressMode} (reads : u.Reads src)
    (listed : dst ∈ u.modes) : KeepsTo (β := β) u (Execution.move size src dst) :=
  bind (operand reads size) fun value => storeThen listed size fun target =>
    bind status fun _ => bind (setCodes _) fun _ => store size target value

theorem movea (size : Size) {src : AddressMode} (reads : u.Reads src) (r : RegisterNumber) :
    KeepsTo (β := β) u (Execution.movea size src r) :=
  bind (operand reads size) fun _ => setAddress r _

theorem storeBelow (size : Size) (place value : BitVec 32) :
    KeepsTo (β := β) u (Execution.storeBelow size place value) :=
  bind (write size _ value) fun _ => bind (spend _) fun _ => pure _

theorem storeDownward (size : Size) (r : RegisterNumber) (list : BitVec 16) :
    KeepsTo (β := β) u (Execution.storeDownward size r list) :=
  bind (address r) fun start => bind cpu fun _ =>
    bind (foldlM (fun place _ => bind registers fun _ => storeBelow size place _) _ start)
      fun last => setAddress r last

theorem storeRegister (size : Size) (place : BitVec 32) (n : GeneralRegister) :
    KeepsTo (β := β) u (Execution.storeRegister size place n) :=
  bind registers fun _ => bind (write size place _) fun _ => bind (spend _) fun _ => pure _

theorem loadRegister (asData : u.program = false) (size : Size) (place : BitVec 32)
    (n : GeneralRegister) : KeepsTo (β := β) u (Execution.loadRegister size place n) :=
  bind (read asData size place) fun _ =>
    bind (modifyRegisters fun rs => rs.sameSystem_setGeneral n _) fun _ =>
      bind (spend _) fun _ => pure _

theorem movem (asData : u.program = false) (size : Size) (toMemory : Bool) {mode : AddressMode}
    (listed : mode ∈ u.modes) : KeepsTo (β := β) u (Execution.movem size toMemory mode) := by
  refine bind fetch fun list => ?_
  have transfer (start : BitVec 32) : KeepsTo (β := β) u
      ((Execution.upward list).foldlM
        (if toMemory then Execution.storeRegister size else Execution.loadRegister size)
        start) := by
    cases toMemory with
    | false => exact foldlM (loadRegister asData size) _ start
    | true => exact foldlM (storeRegister size) _ start
  cases mode with
  | preDecrement r => exact storeDownward size r list
  | postIncrement r =>
    exact bind (address r) fun start => bind (transfer start) fun last => setAddress r last
  | _ => exact bind (controlAddress listed) fun start => map _ (transfer start)

theorem movep (asData : u.program = false) (size : Size) (toMemory : Bool)
    (dataRegister addressRegister : RegisterNumber) :
    KeepsTo (β := β) u (Execution.movep size toMemory dataRegister addressRegister) := by
  refine bind fetchSigned fun _ => bind (address addressRegister) fun _ => ite ?_ ?_
  · exact bind (data dataRegister) fun _ => forM (fun _ => write .byte _ _) _
  · exact bind (foldlM (fun _ _ => bind (read asData .byte _) fun _ => pure _) _ _)
      fun value => store size (.dataReg dataRegister) value

theorem lea {src : AddressMode} (listed : src ∈ u.modes) (r : RegisterNumber) :
    KeepsTo (β := β) u (Execution.lea src r) :=
  bind (controlAddress listed) fun place => setAddress r place

theorem pea {src : AddressMode} (listed : src ∈ u.modes) :
    KeepsTo (β := β) u (Execution.pea src) :=
  bind (controlAddress listed) fun place => push .long place

theorem link (r : RegisterNumber) (long : Bool) : KeepsTo (β := β) u (Execution.link r long) := by
  refine ite (bind fetchLong ?rest) (bind fetchSigned ?rest)
  exact fun _ => bind sp fun _ => bind (address r) fun _ => bind (write .long _ _) fun _ =>
    bind (setSp _) fun _ => bind (setAddress r _) fun _ => setSp _

theorem unlk (asData : u.program = false) (r : RegisterNumber) :
    KeepsTo (β := β) u (Execution.unlk r) :=
  bind (address r) fun top => bind (read asData .long top) fun value => bind (setSp _) fun _ =>
    setAddress r value

theorem copyLine (asData : u.program = false) (src dst : BitVec 32) :
    KeepsTo (β := β) u (Execution.copyLine src dst) :=
  forM (fun _ => bind (read asData .long _) fun value => write .long _ value) _

theorem move16 (asData : u.program = false) (opcode : BitVec 16) :
    KeepsTo (β := β) u (Execution.move16 opcode) := by
  refine ite ?_ ?_
  · refine bind fetch fun _ => bind (address _) fun src => bind (address _) fun dst =>
      bind (setAddress _ _) fun _ => ite ?_ ?_
    · exact copyLine asData src dst
    · exact bind (setAddress _ _) fun _ => copyLine asData src dst
  · refine bind fetchLong fun constant => bind (address _) fun place => ite ?_ ?_
    · exact ite (copyLine asData constant place) (copyLine asData place constant)
    · exact bind (setAddress _ _) fun _ =>
        ite (copyLine asData constant place) (copyLine asData place constant)

/-! ## Arithmetic and logic -/

theorem combine (op : AluOp) (size : Size) (src dst : BitVec 32) (target : Location) :
    KeepsTo (β := β) u (Execution.combine op size src dst target) := by
  refine bind status fun sr => ?_
  obtain ⟨result, codes⟩ := op.compute size src dst sr
  cases result with
  | none => exact setCodes codes
  | some value => exact bind (store size target value) fun _ => setCodes codes

theorem alu (op : AluOp) (size : Size) {mode : AddressMode} (reads : u.Reads mode)
    (r : RegisterNumber) (toOperand : Bool) :
    KeepsTo (β := β) u (Execution.alu op size mode r toOperand) :=
  loadThen reads size fun location value => bind (data r) fun own =>
    ite (combine op size own value location) (combine op size value own (.dataReg r))

theorem aluAddress (op : AluOp) (size : Size) {src : AddressMode} (reads : u.Reads src)
    (r : RegisterNumber) : KeepsTo (β := β) u (Execution.aluAddress op size src r) := by
  refine bind (operand reads size) fun _ => bind (address r) fun _ => ?_
  cases op with
  | add => exact setAddress r _
  | sub => exact setAddress r _
  | _ => exact bind status fun _ => setCodes _

theorem aluImmediate (op : AluOp) (size : Size) {mode : AddressMode} (reads : u.Reads mode) :
    KeepsTo (β := β) u (Execution.aluImmediate op size mode) :=
  bind (constant size) fun constant => loadThen reads size fun location value =>
    combine op size constant value location

theorem aluQuick (add : Bool) (size : Size) (constant : Nat) {mode : AddressMode}
    (reads : u.Reads mode) :
    KeepsTo (β := β) u (Execution.aluQuick add size constant mode) := by
  cases mode with
  | addrReg r => exact bind (address r) fun _ => setAddress r _
  | _ => exact loadThen reads size fun location value => combine _ size _ value location

/-- The destination of a pair is data or a register. -/
theorem pairThen {α : Type} (asData : u.program = false) (size : Size) (rx ry : RegisterNumber)
    (memory : Bool) {f : BitVec 32 × Location → MachineM β α}
    (rest : ∀ pair : BitVec 32 × Location, pair.2.IsIn u.program → KeepsTo u (f pair)) :
    KeepsTo u (Execution.pairOperands size rx ry memory >>= f) := by
  unfold Execution.pairOperands
  cases memory with
  | false =>
    simp only [Bool.false_eq_true, if_false, bind_assoc, pure_bind]
    exact bind (data ry) fun src => rest (src, .dataReg rx) trivial
  | true =>
    simp only [if_true, bind_assoc, pure_bind]
    exact bind (preDecrement ry _) fun place => bind (read asData size place) fun src =>
      bind (preDecrement rx _) fun target => rest (src, .memory target false) asData.symm

theorem aluExtend (asData : u.program = false) (add : Bool) (size : Size) (rx ry : RegisterNumber)
    (memory : Bool) : KeepsTo (β := β) u (Execution.aluExtend add size rx ry memory) := by
  refine pairThen asData size rx ry memory fun (_, target) space => bind (load size space) fun _ =>
    bind status fun _ => ?_
  exact bind (store size target _) fun _ => setCodes _

theorem cmpm (size : Size) {rx ry : RegisterNumber} (src : u.Reads (.postIncrement ry))
    (dst : u.Reads (.postIncrement rx)) : KeepsTo (β := β) u (Execution.cmpm size rx ry) :=
  bind (operand src size) fun _ => bind (operand dst size) fun _ => bind status fun _ => setCodes _

theorem unary (op : UnaryOp) (size : Size) {mode : AddressMode} (reads : u.Reads mode) :
    KeepsTo (β := β) u (Execution.unary op size mode) :=
  loadThen reads size fun location _ => bind status fun _ => bind (store size location _) fun _ =>
    setCodes _

theorem tst (size : Size) {mode : AddressMode} (reads : u.Reads mode) :
    KeepsTo (β := β) u (Execution.tst size mode) :=
  bind (operand reads size) fun _ => bind status fun _ => setCodes _

theorem tas {mode : AddressMode} (reads : u.Reads mode) :
    KeepsTo (β := β) u (Execution.tas mode) :=
  loadThen reads .byte fun location _ => bind status fun _ => bind (setCodes _) fun _ =>
    store .byte location _

theorem finishDecimal (target : Location) (sum : Alu.DecimalSum) :
    KeepsTo (β := β) u (Execution.finishDecimal target sum) :=
  bind (store .byte target _) fun _ => bind status fun _ => setCodes _

theorem bcd (asData : u.program = false) (add : Bool) (rx ry : RegisterNumber) (memory : Bool) :
    KeepsTo (β := β) u (Execution.bcd add rx ry memory) :=
  pairThen asData .byte rx ry memory fun (_, target) space => bind (load .byte space) fun _ =>
    bind status fun _ => finishDecimal target _

theorem nbcd {mode : AddressMode} (reads : u.Reads mode) :
    KeepsTo (β := β) u (Execution.nbcd mode) :=
  loadThen reads .byte fun location _ => bind status fun _ => finishDecimal location _

theorem unpk {rx ry : RegisterNumber} (src : u.Reads (.preDecrement ry))
    (dst : .preDecrement rx ∈ u.modes) (memory : Bool) (constant : BitVec 16) :
    KeepsTo (β := β) u (Execution.unpk rx ry memory constant) := by
  cases memory with
  | false => exact bind (data ry) fun _ => store .word (.dataReg rx) _
  | true =>
    exact bind (operand src .byte) fun _ =>
      storeThen dst .byte fun low => bind (store .byte low _) fun _ =>
        storeThen dst .byte fun high => store .byte high _

theorem pack {rx ry : RegisterNumber} (src : u.Reads (.preDecrement ry))
    (dst : .preDecrement rx ∈ u.modes) (memory : Bool) (constant : BitVec 16) :
    KeepsTo (β := β) u (Execution.pack rx ry memory constant) := by
  cases memory with
  | false => exact bind (data ry) fun _ => store .byte (.dataReg rx) _
  | true =>
    exact bind (operand src .byte) fun _ => bind (operand src .byte) fun _ =>
      bind (pure _) fun _ => storeThen dst .byte fun target => store .byte target _

theorem packOrUnpack (unpack : Bool) {rx ry : RegisterNumber} (src : u.Reads (.preDecrement ry))
    (dst : .preDecrement rx ∈ u.modes) (memory : Bool) :
    KeepsTo (β := β) u (Execution.packOrUnpack unpack rx ry memory) :=
  bind fetch fun constant => ite (unpk src dst memory constant) (pack src dst memory constant)

theorem chk (size : Size) {src : AddressMode} (reads : u.Reads src) (r : RegisterNumber) :
    KeepsTo (β := β) u (Execution.chk size src r) := by
  refine bind (operand reads size) fun _ => bind (data r) fun _ => bind status fun _ => ?_
  refine ite (bind (setCodes _) fun _ => bind (raise _) fun _ => ?_) ?_
  all_goals exact ite (bind (setCodes _) fun _ => bind (raise _) fun _ => setCodes _) (setCodes _)

theorem chk2 (asData : u.program = false) (size : Size) {mode : AddressMode}
    (listed : mode ∈ u.modes) : KeepsTo (β := β) u (Execution.chk2 size mode) :=
  bind fetch fun _ => bind (controlAddress listed) fun place =>
    bind (read asData size place) fun _ => bind (read asData size _) fun _ =>
      bind registers fun _ => bind status fun _ => bind (setCodes _) fun _ => ite (raise _) (pure _)

theorem cas (size : Size) {mode : AddressMode} (reads : u.Reads mode) :
    KeepsTo (β := β) u (Execution.cas size mode) := by
  refine bind fetch fun extension => loadThen reads size fun location value =>
    bind (data _) fun _ => bind status fun _ => bind (setCodes _) fun _ => ite ?_ ?_
  · exact bind (data _) fun new => store size location new
  · exact store size (.dataReg _) value

theorem cas2 (asData : u.program = false) (size : Size) :
    KeepsTo (β := β) u (Execution.cas2 size) := by
  refine bind fetch fun _ => bind fetch fun _ => bind registers fun _ => bind registers fun _ => ?_
  refine bind (read asData size _) fun value1 => bind (read asData size _) fun value2 =>
    bind (data _) fun _ => bind (data _) fun _ => bind status fun _ =>
      bind (setCodes _) fun _ => ite ?_ ?_
  · exact bind (data _) fun _ => bind (write size _ _) fun _ => bind (data _) fun _ =>
      write size _ _
  · exact bind (store size (.dataReg _) value1) fun _ => store size (.dataReg _) value2

theorem mul (signed : Bool) {src : AddressMode} (reads : u.Reads src) (r : RegisterNumber) :
    KeepsTo (β := β) u (Execution.mul signed src r) :=
  bind (operand reads .word) fun _ => bind (data r) fun _ => bind (setData r _) fun _ =>
    bind status fun _ => bind (setCodes _) fun _ => bind cpu fun _ => ite (spend _) (pure _)

theorem mulLong {src : AddressMode} (reads : u.Reads src) :
    KeepsTo (β := β) u (Execution.mulLong src) := by
  refine bind fetch fun _ => bind (operand reads .long) fun _ => bind (data _) fun _ =>
    bind status fun _ => ite ?_ ?_
  · exact bind (setData _ _) fun _ => bind (setData _ _) fun _ => setCodes _
  · exact bind (setData _ _) fun _ => setCodes _

theorem divideByZero : KeepsTo (β := β) u Execution.divideByZero :=
  bind status fun _ => bind (setCodes _) fun _ => raise _

theorem div (signed : Bool) {src : AddressMode} (reads : u.Reads src) (r : RegisterNumber) :
    KeepsTo (β := β) u (Execution.div signed src r) := by
  refine bind (operand reads .word) fun divisor => bind (data r) fun dividend =>
    ite divideByZero (bind cpu fun c => ite (bind (spend _) fun _ => ?_) ?_)
  all_goals
    dsimp only
    split
    · exact bind (setData r _) fun _ => bind status fun _ => setCodes _
    · exact bind status fun _ => setCodes _

theorem divLong {src : AddressMode} (reads : u.Reads src) :
    KeepsTo (β := β) u (Execution.divLong src) := by
  refine bind fetch fun extension => bind (operand reads .long) fun divisor =>
    ite divideByZero (bind (data _) fun low => bind (data _) fun high => ?_)
  dsimp only
  split
  · exact bind (setData _ _) fun _ => bind (setData _ _) fun _ => bind status fun _ => setCodes _
  · exact bind status fun _ => setCodes _

/-! ## Shifts, bits and bit fields -/

theorem shiftRegister (kind : ShiftKind) (left : Bool) (size : Size) (count : ShiftCount)
    (r : RegisterNumber) :
    KeepsTo (β := β) u (Execution.shiftRegister kind left size count r) := by
  have counts : KeepsTo (β := β) u (Execution.countOf count) := by
    cases count with
    | immediate count => exact pure count
    | register r => exact bind (data r) fun _ => pure _
  exact bind counts fun _ => bind (data r) fun _ => bind status fun _ =>
    bind (setData r _) fun _ => bind (setCodes _) fun _ => bind cpu fun _ =>
      ite (spend _) (pure _)

theorem shiftMemory (kind : ShiftKind) (left : Bool) {mode : AddressMode} (reads : u.Reads mode) :
    KeepsTo (β := β) u (Execution.shiftMemory kind left mode) :=
  loadThen reads .word fun location _ => bind status fun _ => bind (store .word location _) fun _ =>
    setCodes _

theorem bitNumber (src : BitSource) : KeepsTo (β := β) u (Execution.bitNumber src) := by
  cases src with
  | immediate => exact bind fetch fun _ => pure _
  | register r => exact bind (data r) fun _ => pure _

theorem bit (op : BitOp) (src : BitSource) {mode : AddressMode} (reads : u.Reads mode) :
    KeepsTo (β := β) u (Execution.bit op src mode) := by
  refine bind (bitNumber src) fun number => loadThen reads _ fun location value =>
    bind status fun _ => bind (setCodes _) fun _ => ?_
  dsimp only
  split
  · exact ite (bind (spend _) fun _ => store _ location _) (store _ location _)
  · exact pure _

theorem useField (op : BitFieldOp) (r : RegisterNumber) (place : Execution.FieldPlace)
    (field : BitVec 32) : KeepsTo (β := β) u (Execution.useField op r place field) := by
  refine bind (data r) fun _ => bind status fun _ => bind (setCodes _) fun _ => ?_
  split
  · exact bind (setData r _) fun _ => pure _
  · exact pure _

theorem registerField (op : BitFieldOp) (r : RegisterNumber) (place : Execution.FieldPlace)
    (holder : RegisterNumber) :
    KeepsTo (β := β) u (Execution.registerField op r place holder) := by
  refine bind (data holder) fun _ => bind (useField op r place _) fun new => ?_
  cases new with
  | none => exact pure _
  | some new => exact modifyRegisters fun rs => rs.sameSystem_setData holder _

theorem memoryField (asData : u.program = false) (op : BitFieldOp) (r : RegisterNumber)
    (place : Execution.FieldPlace) (base : BitVec 32) :
    KeepsTo (β := β) u (Execution.memoryField op r place base) := by
  refine bind (read asData .long _) fun first =>
    ite (bind (read asData .byte _) ?rest) (bind (pure 0) ?rest)
  refine fun fifth => bind (useField op r place _) fun new => ?_
  cases new with
  | none => exact pure _
  | some new => exact bind (write .long _ _) fun _ => ite (write .byte _ _) (pure _)

theorem bitField (asData : u.program = false) (op : BitFieldOp) {mode : AddressMode}
    (listed : mode ∈ u.modes) : KeepsTo (β := β) u (Execution.bitField op mode) := by
  refine bind fetch fun extension => bind registers fun rs => ?_
  cases mode with
  | dataReg holder => exact registerField op _ _ holder
  | _ => exact bind (controlAddress listed) fun base => memoryField asData op _ _ base

/-! ## Changes of flow -/

theorem holds (condition : BitVec 4) : KeepsTo (β := β) u (Execution.holds condition) :=
  bind status fun _ => pure _

theorem trapv : KeepsTo (β := β) u Execution.trapv :=
  bind status fun _ => ite (raise _) (pure _)

theorem countDown (r : RegisterNumber) : KeepsTo (β := β) u (Execution.countDown r) :=
  bind (data r) fun _ => bind (setData r _) fun _ => pure _

theorem bcc (condition : BitVec 4) (displacement : BitVec 8) :
    KeepsTo (β := β) u (Execution.bcc condition displacement) := by
  refine bind pc fun base => bind (look fun _ => rfl) fun caps =>
    ite (bind fetchSigned ?rest) (ite (bind fetchLong ?rest) (bind (pure _) ?rest))
  refine fun offset => ite (jump _) (ite ?_ ?_)
  · exact bind pc fun _ => bind (push .long _) fun _ => jump _
  · exact bind (holds condition) fun _ => ite (bind (spend 2) fun _ => jump _) (pure _)

theorem dbcc (condition : BitVec 4) (r : RegisterNumber) :
    KeepsTo (β := β) u (Execution.dbcc condition r) :=
  bind pc fun _ => bind fetchSigned fun _ => bind (holds condition) fun _ =>
    ite (spend 4) (bind (countDown r) fun _ => ite (jump _) (spend 6))

theorem scc (condition : BitVec 4) {mode : AddressMode} (listed : mode ∈ u.modes) :
    KeepsTo (β := β) u (Execution.scc condition mode) :=
  storeThen listed .byte fun location => bind (holds condition) fun _ =>
    ite (bind (spend 2) fun _ => store .byte location _) (store .byte location _)

theorem skipOperand (extra : Option Size) : KeepsTo (β := β) u (Execution.skipOperand extra) := by
  unfold Execution.skipOperand
  split
  · exact map _ fetchLong
  · exact map _ fetch
  · exact pure ()

theorem trapcc (condition : BitVec 4) (extra : Option Size) :
    KeepsTo (β := β) u (Execution.trapcc condition extra) :=
  bind (skipOperand extra) fun _ => bind (holds condition) fun _ => ite (raise _) (pure _)

theorem jmp {mode : AddressMode} (listed : mode ∈ u.modes) :
    KeepsTo (β := β) u (Execution.jmp mode) :=
  bind (controlAddress listed) fun target => jump target

theorem jsr {mode : AddressMode} (listed : mode ∈ u.modes) :
    KeepsTo (β := β) u (Execution.jsr mode) :=
  bind (controlAddress listed) fun target => bind pc fun _ => bind (push .long _) fun _ =>
    jump target

theorem rts (asData : u.program = false) : KeepsTo (β := β) u Execution.rts :=
  bind (pop asData .long) fun target => jump target

theorem rtr (asData : u.program = false) : KeepsTo (β := β) u Execution.rtr :=
  bind (pop asData .word) fun _ => bind (pop asData .long) fun target => bind (setCodes _) fun _ =>
    jump target

theorem rtd (asData : u.program = false) : KeepsTo (β := β) u Execution.rtd :=
  bind fetchSigned fun _ => bind (pop asData .long) fun target => bind sp fun _ =>
    bind (setSp _) fun _ => jump target

/-! ## Control of the processor -/

theorem moveUsp (r : RegisterNumber) (toUsp : Bool) :
    KeepsTo (β := β) u (Execution.moveUsp r toUsp) := by
  refine bind requireSupervisor fun _ => modifyCpu fun c => ⟨rfl, rfl, ?_⟩
  dsimp only
  split
  · rfl
  · exact (c.registers.sameSystem_setAddress r _).has .s (by decide)

theorem toCcr (op : AluOp) : KeepsTo (β := β) u (Execution.toCcr op) :=
  bind fetch fun _ => bind status fun _ => setCodes _

theorem toSr (may : u.switches = true) (op : AluOp) : KeepsTo (β := β) u (Execution.toSr op) :=
  bind requireSupervisor fun _ => bind fetch fun _ => bind status fun _ => setStatus may _

theorem moveFromCcr {dst : AddressMode} (listed : dst ∈ u.modes) :
    KeepsTo (β := β) u (Execution.moveFromCcr dst) :=
  storeThen listed .word fun location => bind status fun _ => store .word location _

theorem moveFromSr {dst : AddressMode} (listed : dst ∈ u.modes) :
    KeepsTo (β := β) u (Execution.moveFromSr dst) := by
  have rest : KeepsTo (β := β) u (do
      let location ← MachineM.locate dst .word
      MachineM.store .word location ((← MachineM.status).setWidth 32)) :=
    storeThen listed .word fun location => bind status fun _ => store .word location _
  exact bind (look fun _ => rfl) fun caps => ite (bind requireSupervisor fun _ => rest) rest

theorem moveToCcr {src : AddressMode} (reads : u.Reads src) :
    KeepsTo (β := β) u (Execution.moveToCcr src) :=
  bind (operand reads .word) fun _ => setCodes _

theorem moveToSr (may : u.switches = true) {src : AddressMode} (reads : u.Reads src) :
    KeepsTo (β := β) u (Execution.moveToSr src) :=
  bind requireSupervisor fun _ => bind (operand reads .word) fun _ => setStatus may _

theorem movec (toControl : Bool) : KeepsTo (β := β) u (Execution.movec toControl) := by
  refine bind requireSupervisor fun _ => bind fetch fun extension => bind cpu fun c => ?_
  dsimp only
  split
  · exact raise _
  next control _ =>
    refine modifyCpu fun c => ⟨rfl, rfl, ?_⟩
    dsimp only
    split
    · cases control <;> rfl
    · exact (c.registers.sameSystem_setGeneral _ _).has .s (by decide)

theorem moves (may : u.named = true) (size : Size) {mode : AddressMode} (listed : mode ∈ u.modes) :
    KeepsTo (β := β) u (Execution.moves size mode) := by
  refine bind requireSupervisor fun _ => bind fetch fun extension =>
    bind (memoryAddress listed _) fun place => bind registers fun rs =>
      ite (fun m _ => .writeIn m may _ size place _) ?_
  exact bind (fun m _ => .readIn m may _ size place) fun value =>
    ite (store size (.dataReg _) value) (setAddress _ _)

theorem resetDevices : KeepsTo (β := β) u Execution.resetDevices := by
  have resets : KeepsTo (β := β) u (MachineM.onBus fun b => ((), Bus.reset b)) :=
    fun _ _ => .signal .reset trivial
  exact bind requireSupervisor fun _ => resets

theorem stop (may : u.switches = true) : KeepsTo (β := β) u Execution.stop :=
  bind requireSupervisor fun _ => bind fetch fun value => bind (setStatus may value) fun _ =>
    modifyCpu fun _ => ⟨rfl, rfl, rfl⟩

theorem illegal : KeepsTo (β := β) u Execution.illegal := by
  have asks (opcode : BitVec 16) : KeepsTo (β := β) u (MachineM.onBus (Bus.illegal opcode)) :=
    fun _ _ => .signal (.illegal opcode) trivial
  exact bind cpu fun c => bind (asks c.opcode) fun _ => ite (pure _) (raise _)

theorem returnFromException (asData : u.program = false) (may : u.switches = true) (limit : Nat) :
    KeepsTo (β := β) u (MachineM.returnFromException limit) := by
  induction limit with
  | zero => exact raise _
  | succ limit ih =>
    refine bind sp fun top => bind (read asData .word top) fun sr =>
      bind (read asData .long _) fun target => bind (look fun _ => rfl) fun caps => ite ?_ ?_
    · exact bind (setSp _) fun _ => bind (setStatus may _) fun _ => jump target
    · refine bind (read asData .word _) fun word => ite ?_ ?_
      · exact bind (setSp _) fun _ => bind (setStatus may _) fun _ => ih
      · split
        · exact raise _
        · exact bind (setSp _) fun _ => bind (setStatus may _) fun _ => jump target

/-! ## The floating-point unit -/

theorem undefined {α : Type} : KeepsTo u (Execution.undefined : MachineM β α) := raise _

theorem unit : KeepsTo (β := β) u Execution.unit := by
  refine look fun m => ?_
  rw [unit_apply]
  split <;> rfl

/-- The opcode is that of the instruction. -/
theorem cpuThen {α : Type} {f : Cpu → MachineM β α}
    (rest : ∀ c : Cpu, c.opcode = u.opcode → KeepsTo u (f c)) : KeepsTo u (MachineM.cpu >>= f) := by
  intro m known
  rw [bind_ok (cpu_apply m)]
  exact rest m.cpu known m known

theorem opcodeThen {α : Type} {f : AddressMode → MachineM β α}
    (rest : ∀ mode, AddressMode.ofOpcode? u.opcode = some mode → KeepsTo u (f mode)) :
    KeepsTo u (Execution.opcodeMode >>= f) := by
  unfold Execution.opcodeMode
  rw [bind_assoc]
  refine cpuThen fun c known => ?_
  rw [known]
  cases found : AddressMode.ofOpcode? u.opcode with
  | none => exact fun m _ => .refl m
  | some mode => exact rest mode found

theorem arithmetic (command : BitVec 16) : KeepsTo (β := β) u (Execution.arithmetic command) := by
  refine bind unit fun fpu => ?_
  dsimp only
  split
  · exact pure _
  · exact undefined

theorem beginUnit : KeepsTo (β := β) u Execution.beginUnit :=
  bind unit fun _ => bind registers fun _ => pure _

theorem computeRegister (host : Fpu.HostMath) (command : BitVec 16) :
    KeepsTo (β := β) u (Execution.computeRegister host command) :=
  bind (arithmetic command) fun _ => bind beginUnit fun _ => setUnit _

theorem loadConstant (command : BitVec 16) :
    KeepsTo (β := β) u (Execution.loadConstant command) :=
  bind beginUnit fun _ => setUnit _

theorem setUnitControl (r : Execution.UnitControl) (value : BitVec 32) :
    KeepsTo (β := β) u (Execution.setUnitControl r value) :=
  bind unit fun _ => setUnit _

theorem unitHolds (predicate : BitVec 16) :
    KeepsTo (β := β) u (Execution.unitHolds predicate) := by
  refine bind unit fun fpu => ?_
  split
  · exact bind (setUnit _) fun _ => pure _
  · exact undefined

theorem readLongs {program : Bool} (space : program = u.program) (count : Nat)
    (place : BitVec 32) : KeepsTo (β := β) u (Execution.readLongs program count place) := by
  induction count generalizing place with
  | zero => exact pure _
  | succ count ih => exact bind (load .long space) fun _ => bind (ih _) fun _ => pure _

theorem writeLongs (place : BitVec 32) (words : List (BitVec 32)) :
    KeepsTo (β := β) u (Execution.writeLongs place words) := by
  induction words generalizing place with
  | nil => exact pure ()
  | cons word rest ih => exact bind (write .long place word) fun _ => ih _

theorem fetchLongs (count : Nat) : KeepsTo (β := β) u (Execution.fetchLongs count) := by
  induction count with
  | zero => exact pure _
  | succ count ih => exact bind fetchLong fun _ => bind ih fun _ => pure _

theorem readImage {program : Bool} (space : program = u.program) (place : BitVec 32)
    (bytes : Nat) : KeepsTo (β := β) u (Execution.readImage place program bytes) :=
  ite (bind (load _ space) fun _ => pure _) (bind (readLongs space _ place) fun _ => pure _)

theorem writeImage (place : BitVec 32) (image : Image) (bytes : Nat) :
    KeepsTo (β := β) u (Execution.writeImage place image bytes) :=
  ite (write _ place _) (writeLongs place _)

theorem fetchImage (bytes : Nat) : KeepsTo (β := β) u (Execution.fetchImage bytes) :=
  ite (bind (fetchConstant _) fun _ => pure _) (bind (fetchLongs _) fun _ => pure _)

theorem sourceImage {mode : AddressMode} (reads : u.Reads mode) (format : Fpu.DataFormat) :
    KeepsTo (β := β) u (Execution.sourceImage mode format) := by
  cases mode with
  | dataReg r => exact ite (bind (data r) fun _ => pure _) undefined
  | addrReg r => exact undefined
  | immediate => exact fetchImage _
  | _ =>
    exact bind (memoryAddress reads.listed _) fun place => readImage reads.space.symm place _

theorem computeOperand (host : Fpu.HostMath) (command : BitVec 16)
    (reads : ∀ mode, AddressMode.ofOpcode? u.opcode = some mode → u.Reads mode) :
    KeepsTo (β := β) u (Execution.computeOperand host command) :=
  bind (arithmetic command) fun _ => opcodeThen fun mode found =>
    bind (sourceImage (reads mode found) _) fun _ => bind beginUnit fun _ => setUnit _

theorem convertOut (format : Fpu.DataFormat) (command : BitVec 16) :
    KeepsTo (β := β) u (Execution.convertOut format command) :=
  bind registers fun _ => bind beginUnit fun _ => bind (setUnit _) fun _ => pure _

theorem moveOut (command : BitVec 16)
    (listed : ∀ mode, AddressMode.ofOpcode? u.opcode = some mode → mode ∈ u.modes) :
    KeepsTo (β := β) u (Execution.moveOut command) := by
  refine opcodeThen fun mode found => ite (bind undefined fun _ => ?_) ?_
  all_goals
    dsimp only
    split
    · refine ite (bind undefined fun _ => ?_) ?_
      all_goals exact bind (convertOut _ command) fun _ => store _ (.dataReg _) _
    · exact bind (memoryAddress (listed _ found) _) fun place =>
        bind (convertOut _ command) fun image => writeImage place image _

theorem loadControls {source : BitVec 32 → MachineM β (BitVec 32)}
    (reads : ∀ place, KeepsTo u (source place)) (place : BitVec 32)
    (selected : List Execution.UnitControl) :
    KeepsTo u (Execution.loadControls source place selected) := by
  induction selected generalizing place with
  | nil => exact pure ()
  | cons r rest ih =>
    exact bind (reads place) fun value => bind (setUnitControl r value) fun _ => ih _

theorem storeControls {mode : AddressMode} (listed : mode ∈ u.modes)
    (selected : List Execution.UnitControl) :
    KeepsTo (β := β) u (Execution.storeControls mode selected) := by
  refine ite (bind undefined fun _ => ?_) ?_
  all_goals
    exact bind (memoryAddress listed _) fun place => bind unit fun _ => writeLongs place _

theorem moveControls (command : BitVec 16) (toMemory : Bool)
    (reads : ∀ mode, AddressMode.ofOpcode? u.opcode = some mode → u.Reads mode) :
    KeepsTo (β := β) u (Execution.moveControls command toMemory) := by
  refine ite (bind undefined fun _ => opcodeThen fun mode found => ?_)
    (opcodeThen fun mode found => ?_)
  all_goals
    split
    · exact ite (bind unit fun _ => setData _ _) (bind (data _) fun _ => setUnitControl _ _)
    · exact ite (bind unit fun _ => setAddress _ _) (bind (address _) fun _ => setUnitControl _ _)
    · exact undefined
    · exact undefined
    · refine ite (storeControls (reads _ found).listed _)
        (ite (loadControls (fun _ => fetchLong) _ _) ?_)
      have loads (place : BitVec 32) :
          KeepsTo (β := β) u (MachineM.load .long (.memory place (AddressMode.isPcRelative _))) :=
        load .long (reads _ found).space.symm
      exact bind (memoryAddress (reads _ found).listed _) fun place => loadControls loads place _

theorem storeDataRegisters (place : BitVec 32) (selected : List RegisterNumber) :
    KeepsTo (β := β) u (Execution.storeDataRegisters place selected) := by
  induction selected generalizing place with
  | nil => exact pure ()
  | cons r rest ih => exact bind unit fun _ => bind (writeImage place _ _) fun _ => ih _

theorem loadDataRegisters {program : Bool} (space : program = u.program) (place : BitVec 32)
    (selected : List RegisterNumber) :
    KeepsTo (β := β) u (Execution.loadDataRegisters program place selected) := by
  induction selected generalizing place with
  | nil => exact pure ()
  | cons r rest ih =>
    exact bind (readImage space place _) fun image => bind unit fun _ => bind (setUnit _) fun _ =>
      ih _

theorem dataListAddress {mode : AddressMode} (listed : mode ∈ u.modes) (toMemory ascending : Bool)
    (count : Nat) :
    KeepsTo (β := β) u (Execution.dataListAddress mode toMemory ascending count) := by
  unfold Execution.dataListAddress
  split
  · exact ite (preDecrement _ _) undefined
  · exact ite (postIncrement _ _) undefined
  · exact ite (controlAddress listed) undefined

theorem moveDataRegisters (command : BitVec 16) (toMemory : Bool)
    (reads : ∀ mode, AddressMode.ofOpcode? u.opcode = some mode → u.Reads mode) :
    KeepsTo (β := β) u (Execution.moveDataRegisters command toMemory) :=
  bind registers fun _ => opcodeThen fun mode found =>
    bind (dataListAddress (reads mode found).listed toMemory _ _) fun place =>
      ite (storeDataRegisters place _) (loadDataRegisters (reads mode found).space.symm place _)

theorem general (host : Fpu.HostMath)
    (reads : ∀ mode, AddressMode.ofOpcode? u.opcode = some mode → u.Reads mode) :
    KeepsTo (β := β) u (Execution.general host) := by
  refine bind fetch fun command => ?_
  split
  · exact computeRegister host command
  · exact ite (loadConstant command) (computeOperand host command reads)
  · exact moveOut command fun mode found => (reads mode found).listed
  · exact moveControls command false reads
  · exact moveControls command true reads
  · exact moveDataRegisters command false reads
  · exact moveDataRegisters command true reads

theorem loopOnUnit (r : RegisterNumber) (predicate : BitVec 16) :
    KeepsTo (β := β) u (Execution.loopOnUnit r predicate) :=
  bind pc fun _ => bind fetchSigned fun _ => bind (unitHolds predicate) fun _ =>
    ite (pure _) (bind (countDown r) fun _ => ite (jump _) (pure _))

theorem conditional
    (listed : ∀ mode, AddressMode.ofOpcode? u.opcode = some mode → mode ∈ u.modes) :
    KeepsTo (β := β) u Execution.conditional := by
  refine cpuThen fun c known => bind fetch fun predicate => ?_
  have trapWith (extra : Option Size) : KeepsTo (β := β) u (do
      Execution.skipOperand extra
      if ← Execution.unitHolds predicate then throw (.trap .conditional)) :=
    bind (skipOperand extra) fun _ => bind (unitHolds predicate) fun _ => ite (raise _) (pure _)
  rw [known]
  dsimp only
  split
  · exact loopOnUnit _ predicate
  · exact trapWith _
  · exact trapWith _
  · exact trapWith _
  · next mode _ _ _ _ found =>
    refine ite (bind undefined fun _ => ?_) ?_
    all_goals
      exact storeThen (listed mode found) .byte fun location => bind (unitHolds predicate) fun _ =>
        store .byte location _
  · exact undefined

theorem branchOnUnit (long : Bool) : KeepsTo (β := β) u (Execution.branchOnUnit long) := by
  refine bind pc fun _ => ite (bind fetchLong ?rest) (bind fetchSigned ?rest)
  exact fun _ => bind cpu fun _ => bind (unitHolds _) fun _ => ite (jump _) (pure _)

theorem saveUnit (listed : ∀ mode, AddressMode.ofOpcode? u.opcode = some mode → mode ∈ u.modes) :
    KeepsTo (β := β) u Execution.saveUnit := by
  refine bind requireSupervisor fun _ => bind unit fun fpu => opcodeThen fun mode found => ?_
  dsimp only
  split
  · exact bind (preDecrement _ _) fun place => writeLongs place _
  · exact ite (bind (controlAddress (listed _ found)) fun place => writeLongs place _)
      (bind undefined fun place => writeLongs place _)

/-- The frame at an address is put into effect, and something else follows. -/
theorem restoreFrame (asData : u.program = false) {place : BitVec 32}
    {f : Nat → MachineM β Unit} (last : ∀ size, KeepsTo u (f size)) :
    KeepsTo (β := β) u (do
      let header ← MachineM.read .long place
      match (← Execution.unit).restore header with
      | .error _ => throw (.exception .formatError)
      | .ok (size, fpu) =>
        Execution.setUnit fpu
        f size) := by
  refine bind (read asData .long place) fun header => bind unit fun fpu => ?_
  split
  · exact raise _
  · exact bind (setUnit _) fun _ => last _

theorem restoreUnit (asData : u.program = false)
    (listed : ∀ mode, AddressMode.ofOpcode? u.opcode = some mode → mode ∈ u.modes) :
    KeepsTo (β := β) u Execution.restoreUnit := by
  refine bind requireSupervisor fun _ => opcodeThen fun mode found => ?_
  dsimp only
  split
  · exact bind (address _) fun place => restoreFrame asData fun size => setAddress _ _
  · refine ite (bind (controlAddress (listed _ found)) ?goesOn) (bind undefined ?goesOn)
    refine fun place => restoreFrame asData fun size => ?_
    split
    · exact setAddress _ _
    · exact pure _

theorem lineF (host : Fpu.HostMath)
    (listed : ∀ mode, AddressMode.ofOpcode? u.opcode = some mode → mode ∈ u.modes)
    (general : (u.opcode.extractLsb' 6 3).toNat = 0 →
      ∀ mode, AddressMode.ofOpcode? u.opcode = some mode → u.program = mode.isPcRelative)
    (restores : (u.opcode.extractLsb' 6 3).toNat = 5 → u.program = false) :
    KeepsTo (β := β) u (Execution.lineF host) := by
  refine cpuThen fun c known => ?_
  rw [known]
  refine ite (bind undefined fun _ => ?_) ?_
  all_goals
    split
    · next type =>
      exact KeepsTo.general host fun mode found => ⟨listed mode found, general type mode found⟩
    · exact conditional listed
    · exact branchOnUnit false
    · exact branchOnUnit true
    · exact saveUnit listed
    · next type => exact restoreUnit (restores type) listed
    · exact undefined

end KeepsTo

/-! ## Instructions -/

namespace Instruction

/-- The mode of the operand that an instruction reads, or whose address it takes.  For instructions
of line F it is in the opcode. -/
def source? (opcode : BitVec 16) : Instruction → Option AddressMode
  | move _ mode _ | movea _ mode _ | movem _ _ mode | lea mode _ | pea mode | moveToCcr mode
  | moveToSr mode | moves _ mode | alu _ _ mode _ _ | aluAddress _ _ mode _ | aluImmediate _ _ mode
  | aluQuick _ _ _ mode | unary _ _ mode | tst _ mode | tas mode | mul _ mode _ | div _ mode _
  | mulLong mode | divLong mode | nbcd mode | chk _ mode _ | chk2 _ mode | cas _ mode
  | shiftMemory _ _ mode | bit _ _ mode | bitField _ mode | jmp mode | jsr mode => some mode
  | lineF => AddressMode.ofOpcode? opcode
  | _ => none

/-- The modes by which an instruction finds addresses. -/
def modes (opcode : BitVec 16) : Instruction → List AddressMode
  | move _ src dst => [src, dst]
  | moveFromSr mode | moveFromCcr mode | scc _ mode => [mode]
  | cmpm _ rx ry => [.postIncrement ry, .postIncrement rx]
  | pack _ rx ry _ => [.preDecrement ry, .preDecrement rx]
  | instruction => (instruction.source? opcode).toList

/-- Instructions that take the address of their operand and read memory on their own: moves of
several registers to registers, comparisons with bounds, bit fields, and restoring the state of the
floating-point unit. -/
def readsByAddress (opcode : BitVec 16) : Instruction → Bool
  | movem .. | chk2 .. | bitField .. => true
  | lineF => (opcode.extractLsb' 6 3).toNat == 5
  | _ => false

/-- Whether an instruction reads its operand as part of the program. -/
def readsProgram (opcode : BitVec 16) (instruction : Instruction) : Bool :=
  (instruction.source? opcode).any (·.isPcRelative) && !instruction.readsByAddress opcode

/-- Whether an instruction moves an operand between address spaces. -/
def namesSpaces : Instruction → Bool
  | moves .. => true
  | _ => false

/-- Whether an instruction replaces the status register as a whole. -/
def replacesStatus : Instruction → Bool
  | toSr _ | moveToSr _ | stop | rte => true
  | _ => false

/-- How an instruction uses the bus. -/
def usage (opcode : BitVec 16) (instruction : Instruction) : Usage where
  opcode := opcode
  modes := instruction.modes opcode
  program := instruction.readsProgram opcode
  named := instruction.namesSpaces
  switches := instruction.replacesStatus

/-- The only operand of an instruction that does not read memory on its own. -/
theorem reads_source {opcode : BitVec 16} {instruction : Instruction} {mode : AddressMode}
    (source : instruction.source? opcode = some mode) (listed : mode ∈ instruction.modes opcode)
    (plain : instruction.readsByAddress opcode = false) :
    (instruction.usage opcode).Reads mode := by
  refine ⟨listed, ?_⟩
  simp [usage, readsProgram, source, plain]

theorem reads_only {opcode : BitVec 16} {instruction : Instruction} {mode : AddressMode}
    (source : instruction.source? opcode = some mode) (only : instruction.modes opcode = [mode])
    (plain : instruction.readsByAddress opcode = false) :
    (instruction.usage opcode).Reads mode :=
  reads_source source (only ▸ List.mem_cons_self) plain

theorem readsProgram_of_byAddress {opcode : BitVec 16} {instruction : Instruction}
    (byAddress : instruction.readsByAddress opcode = true) :
    (instruction.usage opcode).program = false := by
  simp [usage, readsProgram, byAddress]

end Instruction

open Instruction in
/-- Every instruction uses the bus as it is usual for it. -/
theorem perform_reaches (host : Fpu.HostMath) (limit : Nat) (instruction : Instruction)
    (m : Machine β) :
    m.Reaches (instruction.usage m.cpu.opcode) (Execution.perform host limit instruction m).2 := by
  refine (?_ : KeepsTo (instruction.usage m.cpu.opcode) _) m rfl
  generalize m.cpu.opcode = opcode
  cases instruction with
  | move size src dst =>
    exact .move size (reads_source rfl List.mem_cons_self rfl)
      (List.mem_cons_of_mem _ List.mem_cons_self)
  | movea size src r => exact .movea size (reads_only rfl rfl rfl) r
  | moveq r constant => exact .moveq r constant
  | movem size toMemory mode =>
    exact .movem (readsProgram_of_byAddress rfl) size toMemory List.mem_cons_self
  | movep size toMemory dataRegister addressRegister =>
    exact .movep rfl size toMemory dataRegister addressRegister
  | lea src r => exact .lea List.mem_cons_self r
  | pea src => exact .pea List.mem_cons_self
  | exg rx ry => exact .exg rx ry
  | swap r => exact .swap r
  | ext r source size => exact .ext r source size
  | link r long => exact .link r long
  | unlk r => exact .unlk rfl r
  | moveFromSr dst => exact .moveFromSr List.mem_cons_self
  | moveFromCcr dst => exact .moveFromCcr List.mem_cons_self
  | moveToCcr src => exact .moveToCcr (reads_only rfl rfl rfl)
  | moveToSr src => exact .moveToSr rfl (reads_only rfl rfl rfl)
  | moveUsp r toUsp => exact .moveUsp r toUsp
  | movec toControl => exact .movec toControl
  | moves size mode => exact .moves rfl size List.mem_cons_self
  | move16 opcode => exact .move16 rfl opcode
  | alu op size mode r toOperand => exact .alu op size (reads_only rfl rfl rfl) r toOperand
  | aluAddress op size src r => exact .aluAddress op size (reads_only rfl rfl rfl) r
  | aluImmediate op size mode => exact .aluImmediate op size (reads_only rfl rfl rfl)
  | aluQuick add size constant mode =>
    exact .aluQuick add size constant (reads_only rfl rfl rfl)
  | aluExtend add size rx ry memory => exact .aluExtend rfl add size rx ry memory
  | cmpm size rx ry =>
    exact .cmpm size ⟨List.mem_cons_self, rfl⟩ ⟨List.mem_cons_of_mem _ List.mem_cons_self, rfl⟩
  | toCcr op => exact .toCcr op
  | toSr op => exact .toSr rfl op
  | unary op size mode => exact .unary op size (reads_only rfl rfl rfl)
  | tst size mode => exact .tst size (reads_only rfl rfl rfl)
  | tas mode => exact .tas (reads_only rfl rfl rfl)
  | mul signed src r => exact .mul signed (reads_only rfl rfl rfl) r
  | div signed src r => exact .div signed (reads_only rfl rfl rfl) r
  | mulLong src => exact .mulLong (reads_only rfl rfl rfl)
  | divLong src => exact .divLong (reads_only rfl rfl rfl)
  | bcd add rx ry memory => exact .bcd rfl add rx ry memory
  | nbcd mode => exact .nbcd (reads_only rfl rfl rfl)
  | pack unpack rx ry memory =>
    exact .packOrUnpack unpack ⟨List.mem_cons_self, rfl⟩
      (List.mem_cons_of_mem _ List.mem_cons_self) memory
  | chk size src r => exact .chk size (reads_only rfl rfl rfl) r
  | chk2 size mode => exact .chk2 (readsProgram_of_byAddress rfl) size List.mem_cons_self
  | cas size mode => exact .cas size (reads_only rfl rfl rfl)
  | cas2 size => exact .cas2 rfl size
  | shiftRegister kind left size count r => exact .shiftRegister kind left size count r
  | shiftMemory kind left mode => exact .shiftMemory kind left (reads_only rfl rfl rfl)
  | bit op src mode => exact .bit op src (reads_only rfl rfl rfl)
  | bitField op mode => exact .bitField (readsProgram_of_byAddress rfl) op List.mem_cons_self
  | bcc condition displacement => exact .bcc condition displacement
  | dbcc condition r => exact .dbcc condition r
  | scc condition mode => exact .scc condition List.mem_cons_self
  | trapcc condition extra => exact .trapcc condition extra
  | jmp mode => exact .jmp List.mem_cons_self
  | jsr mode => exact .jsr List.mem_cons_self
  | rts => exact .rts rfl
  | rtr => exact .rtr rfl
  | rte => exact .bind .requireSupervisor fun _ => .returnFromException rfl rfl limit
  | rtd => exact .rtd rfl
  | trap number => exact .raise _
  | trapv => exact .trapv
  | nop => exact .pure ()
  | reset => exact .resetDevices
  | stop => exact .stop rfl
  | illegal => exact .illegal
  | bkpt => exact .illegal
  | lineA => exact .raise _
  | lineF =>
    refine .lineF host (fun mode found => ?_) (fun type mode found => ?_) fun type => ?_
    · exact Option.mem_toList.mpr found
    · have source : Instruction.lineF.source? opcode = some mode := found
      have plain : Instruction.lineF.readsByAddress opcode = false := by
        have moves : (opcode.extractLsb' 6 3).toNat = 0 := type
        rw [readsByAddress, moves]
        rfl
      exact (reads_source source (Option.mem_toList.mpr found) plain).space
    · exact readsProgram_of_byAddress (beq_iff_eq.mpr type)
  | cacheOp => exact .requireSupervisor
  | mmuOp => exact .requireSupervisor

/-- **Which space operands are in.**  Besides fetching its words, an instruction finds addresses by
its own modes, reads operands and writes them.  It reads them in program space, in the mode that the
processor is in, if its source is relative to the program counter and it is none of those that read
memory by an address; everything else that it reads, and all that it writes, is data.  Only moves
between address spaces choose other spaces.

On the bus pointers are seen too.  They are long words of data, which only indexed modes read. -/
theorem operand_spaces (host : Fpu.HostMath) (limit : Nat) (instruction : Instruction)
    (m : Machine β) :
    let usage := instruction.usage m.cpu.opcode
    let m' := (Execution.perform host limit instruction m).2
    m.Reaches usage m' ∧
      (usage.named = false → usage.switches = false →
        m.Uses (usage.Shows m.cpu.registers.isSupervisor) m') :=
  have reaches := perform_reaches host limit instruction m
  ⟨reaches, fun unnamed steady => (reaches.shows unnamed steady).uses⟩

/-- A machine that keeps a log and has fetched an opcode; this follows in memory. -/
def relativeReader (opcode : BitVec 16) (rest : List (BitVec 8)) : Machine (Logged Bytes) where
  cpu := { (Cpu.new .m68020).resetTo 0x2000 0x1002 with opcode }
  bus := ⟨fun address : BitVec 32 => rest.getD (address.toNat - 0x1002) 0, []⟩

/-- A move from an address relative to the program counter finds its operand in the program. -/
theorem operand_spaces_relativeReader :
    let m := relativeReader 0x303A [0x00, 0x02, 0x12, 0x34]
    let log := (Execution.perform .native 1 (.move .word .pcDisplacement (.dataReg 0)) m).2.bus.log
    log = [.fetch 0x1002 .supervisorProgram, .read .word 0x1004 .supervisorProgram] ∧
      ∀ e ∈ log,
        ((Instruction.move .word .pcDisplacement (.dataReg 0)).usage 0x303A).Shows true e := by
  obtain ⟨-, uses⟩ := operand_spaces .native 1 (.move .word .pcDisplacement (.dataReg 0))
    (relativeReader 0x303A [0x00, 0x02, 0x12, 0x34])
  exact ⟨by decide +kernel, Logged.mem_log_of_uses (uses rfl rfl) rfl⟩

/-- The instruction of an opcode and these bytes has an operand relative to the program counter, and
reads it as data. -/
def ReadsRelativeAsData (opcode : BitVec 16) (rest : List (BitVec 8)) : Prop :=
  let instruction := Instruction.ofOpcode Model.m68020.capabilities opcode
  let m' := (Execution.perform .native 1 instruction (relativeReader opcode rest)).2
  instruction.source? opcode = some .pcDisplacement ∧
    ∃ e ∈ m'.bus.log, ∃ size place, e = .read size place .supervisorData

/-- Instructions that read memory by an address read it as data, whatever the mode: the move of
several registers, the comparison with bounds, the extraction of a bit field and the restoring of
the unit. -/
theorem relativeReader_reads_data :
    ReadsRelativeAsData 0x4CFA [0x00, 0x01, 0x00, 0x02] ∧
      ReadsRelativeAsData 0x02FA [0x08, 0x00, 0x00, 0x02] ∧
      ReadsRelativeAsData 0xE9FA [0x01, 0x08, 0x00, 0x02] ∧
      ReadsRelativeAsData 0xF37A [0x00, 0x02] := by
  refine ⟨?_, ?_, ?_, ?_⟩
  · exact ⟨by decide, _, List.mem_of_getElem? (i := 2) (by decide +kernel), .long, 0x1006, rfl⟩
  · exact ⟨by decide, _, List.mem_of_getElem? (i := 2) (by decide +kernel), .word, 0x1006, rfl⟩
  · exact ⟨by decide, _, List.mem_of_getElem? (i := 2) (by decide +kernel), .long, 0x1006, rfl⟩
  · exact ⟨by decide, _, List.mem_of_getElem? (i := 1) (by decide +kernel), .long, 0x1004, rfl⟩

end M68k
