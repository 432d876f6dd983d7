import M68k.Cpu.Execution.Dispatch
import M68k.Proofs.Cpu.DecodedModes
import M68k.Proofs.Cpu.Refusal

/-!
# Every instruction but one is refused precisely

One lemma for each action in `M68k.Execution`.  What has found its operands is never refused; the
instructions that find a single operand, or test for supervisor mode, do so before all else.  A move
alone finds a second operand, when the first one was read already.

* `Precise.perform` — an instruction that is no move is refused precisely;
* `move_refused` — where a move is refused.
-/

namespace M68k

namespace Refuses

section AnyBus

variable {β : Type} {R : Machine β → Machine β → Prop}

/-! ## Registers and the floating-point unit -/

theorem moveq (r : RegisterNumber) (constant : BitVec 8) :
    Refuses R (Execution.moveq r constant) :=
  (setData r _).bind fun _ => status.bind fun _ => setCodes _

theorem exg (rx ry : GeneralRegister) : Refuses R (Execution.exg rx ry) := modifyRegisters _

theorem swap (r : RegisterNumber) : Refuses R (Execution.swap r) :=
  (data r).bind fun _ => (setData r _).bind fun _ => status.bind fun _ => setCodes _

theorem ext (r : RegisterNumber) (source size : Size) : Refuses R (Execution.ext r source size) :=
  (data r).bind fun _ => (setData r _).bind fun _ => status.bind fun _ => setCodes _

theorem divideByZero : Refuses R Execution.divideByZero :=
  status.bind fun _ => (setCodes _).bind fun _ => trap _

theorem countOf (count : ShiftCount) : Refuses R (Execution.countOf count) := by
  cases count with
  | immediate count => exact .pure count
  | register r => exact (data r).bind fun _ => .pure _

theorem shiftRegister (kind : ShiftKind) (left : Bool) (size : Size) (count : ShiftCount)
    (r : RegisterNumber) : Refuses R (Execution.shiftRegister kind left size count r) :=
  (countOf count).bind fun _ => (data r).bind fun _ => status.bind fun _ =>
    (setData r _).bind fun _ => (setCodes _).bind fun _ => cpu.bind fun _ =>
      ite (spend _) (.pure _)

theorem useField (op : BitFieldOp) (r : RegisterNumber) (place : Execution.FieldPlace)
    (field : BitVec 32) : Refuses R (Execution.useField op r place field) := by
  refine (data r).bind fun _ => status.bind fun _ => (setCodes _).bind fun _ => ?_
  split
  · exact (setData r _).bind fun _ => .pure _
  · exact .pure _

theorem registerField (op : BitFieldOp) (r : RegisterNumber) (place : Execution.FieldPlace)
    (holder : RegisterNumber) : Refuses R (Execution.registerField op r place holder) := by
  refine (data holder).bind fun _ => (useField op r place _).bind fun new => ?_
  cases new with
  | none => exact .pure _
  | some new => exact modifyRegisters _

theorem holds (condition : BitVec 4) : Refuses R (Execution.holds condition) :=
  status.bind fun _ => .pure _

theorem trapv : Refuses R Execution.trapv := status.bind fun _ => ite (trap _) (.pure _)

theorem countDown (r : RegisterNumber) : Refuses R (Execution.countDown r) :=
  (data r).bind fun _ => (setData r _).bind fun _ => .pure _

theorem undefined {α : Type} : Refuses R (Execution.undefined : MachineM β α) :=
  exception (by decide)

theorem unit : Refuses R Execution.unit := by
  refine cpu.bind fun c => ?_
  split
  · exact .pure _
  · exact undefined

theorem setUnit (fpu : Fpu) : Refuses R (Execution.setUnit fpu) := modifyCpu _

theorem arithmetic (command : BitVec 16) : Refuses R (Execution.arithmetic command) := by
  refine unit.bind fun fpu => ?_
  dsimp only
  split
  · exact .pure _
  · exact undefined

theorem beginUnit : Refuses R Execution.beginUnit :=
  unit.bind fun _ => registers.bind fun _ => .pure _

theorem computeRegister (host : Fpu.HostMath) (command : BitVec 16) :
    Refuses R (Execution.computeRegister host command) :=
  (arithmetic command).bind fun _ => beginUnit.bind fun _ => setUnit _

theorem loadConstant (command : BitVec 16) : Refuses R (Execution.loadConstant command) :=
  beginUnit.bind fun _ => setUnit _

theorem setUnitControl (r : Execution.UnitControl) (value : BitVec 32) :
    Refuses R (Execution.setUnitControl r value) :=
  unit.bind fun _ => setUnit _

theorem unitHolds (predicate : BitVec 16) : Refuses R (Execution.unitHolds predicate) := by
  refine unit.bind fun fpu => ?_
  split
  · exact (setUnit _).bind fun _ => .pure _
  · exact undefined

theorem convertOut (format : Fpu.DataFormat) (command : BitVec 16) :
    Refuses R (Execution.convertOut format command) :=
  registers.bind fun _ => beginUnit.bind fun _ => (setUnit _).bind fun _ => .pure _

theorem loadControls {source : BitVec 32 → MachineM β (BitVec 32)}
    (reads : ∀ place, NeverRefuses (source place)) (place : BitVec 32)
    (selected : List Execution.UnitControl) :
    Refuses R (Execution.loadControls source place selected) := by
  suffices never : NeverRefuses (Execution.loadControls source place selected) from of_never never
  induction selected generalizing place with
  | nil => exact .pure ()
  | cons r rest ih =>
    exact (reads place).bind fun value => (setUnitControl r value).bind fun _ => ih _

/-- Restores a frame and goes on with its size. -/
theorem restoreThen (header : BitVec 32) {rest : Nat → MachineM β Unit}
    (goesOn : ∀ size, NeverRefuses (rest size)) :
    Refuses R (do
      match (← Execution.unit).restore header with
      | .error _ => throw (.exception .formatError)
      | .ok (size, fpu) =>
        Execution.setUnit fpu
        rest size) := by
  refine unit.bind fun fpu => ?_
  split
  · exact exception (by decide)
  · exact (setUnit _).bind fun _ => goesOn _

end AnyBus

variable {β : Type} [Bus β] {R : Machine β → Machine β → Prop}

/-! ## Instructions that are never refused -/

theorem storeBelow (size : Size) (place value : BitVec 32) :
    Refuses R (Execution.storeBelow size place value) :=
  (write size _ value).bind fun _ => (spend _).bind fun _ => .pure _

theorem storeDownward (size : Size) (r : RegisterNumber) (list : BitVec 16) :
    Refuses R (Execution.storeDownward size r list) := by
  refine (address r).bind fun start => cpu.bind fun _ => .bind ?_ fun last => setAddress r last
  exact foldlM (fun place _ => registers.bind fun _ => storeBelow size place _) _ start

theorem storeRegister (size : Size) (place : BitVec 32) (n : GeneralRegister) :
    Refuses R (Execution.storeRegister size place n) :=
  registers.bind fun _ => (write size place _).bind fun _ => (spend _).bind fun _ => .pure _

theorem loadRegister (size : Size) (place : BitVec 32) (n : GeneralRegister) :
    Refuses R (Execution.loadRegister size place n) :=
  (read size place).bind fun _ => (modifyRegisters _).bind fun _ => (spend _).bind fun _ => .pure _

theorem movep (size : Size) (toMemory : Bool) (dataRegister addressRegister : RegisterNumber) :
    Refuses R (Execution.movep size toMemory dataRegister addressRegister) := by
  refine fetchSigned.bind fun _ => (address addressRegister).bind fun _ => ite ?_ ?_
  · exact (data dataRegister).bind fun _ => forM (fun _ => write .byte _ _) _
  · refine .bind ?_ fun value => storeData dataRegister size value
    exact foldlM (fun _ _ => (read .byte _).bind fun _ => .pure _) _ _

theorem link (r : RegisterNumber) (long : Bool) : Refuses R (Execution.link r long) := by
  refine ite (fetchLong.bind ?rest) (fetchSigned.bind ?rest)
  exact fun _ => sp.bind fun _ => (address r).bind fun _ => (write .long _ _).bind fun _ =>
    (setSp _).bind fun _ => (setAddress r _).bind fun _ => setSp _

theorem unlk (r : RegisterNumber) : Refuses R (Execution.unlk r) :=
  (address r).bind fun top => (read .long top).bind fun value => (setSp _).bind fun _ =>
    setAddress r value

theorem copyLine (src dst : BitVec 32) : Refuses R (Execution.copyLine (β := β) src dst) :=
  forM (fun _ => (read .long _).bind fun value => write .long _ value) _

theorem move16 (opcode : BitVec 16) : Refuses R (Execution.move16 opcode) := by
  refine ite ?_ ?_
  · refine fetch.bind fun _ => (address _).bind fun src => (address _).bind fun dst =>
      (setAddress _ _).bind fun _ => ite ?_ ?_
    · exact copyLine src dst
    · exact (setAddress _ _).bind fun _ => copyLine src dst
  · refine fetchLong.bind fun constant => (address _).bind fun place => ite ?_ ?_
    · exact ite (copyLine constant place) (copyLine place constant)
    · exact (setAddress _ _).bind fun _ =>
        ite (copyLine constant place) (copyLine place constant)

/-- A result is stored at a place, and a comparison has none. -/
theorem combine {op : AluOp} {target : Location} (place : op ≠ .cmp → target.IsPlace)
    (size : Size) (src dst : BitVec 32) : Refuses R (Execution.combine op size src dst target) := by
  refine status.bind fun sr => ?_
  dsimp only
  by_cases compares : op = .cmp
  · subst compares
    exact setCodes _
  · split
    · exact (store (place compares) size _).bind fun _ => setCodes _
    · exact setCodes _

theorem pairOperands (size : Size) (rx ry : RegisterNumber) (memory : Bool) :
    Refuses R (Execution.pairOperands size rx ry memory) := by
  refine ite ?_ ((data ry).bind fun _ => .pure _)
  exact (preDecrement ry _).bind fun place => (read size place).bind fun _ =>
    (preDecrement rx _).bind fun _ => .pure _

/-- The second of two operands like that can be written. -/
theorem pairOperands_isPlace (size : Size) (rx ry : RegisterNumber) (memory : Bool) :
    Answers (β := β) (fun operands => operands.2.IsPlace)
      (Execution.pairOperands size rx ry memory) := by
  cases memory with
  | false => exact .bind fun _ => .pure trivial
  | true => exact .bind fun _ => .bind fun _ => .bind fun _ => .pure trivial

theorem aluExtend (add : Bool) (size : Size) (rx ry : RegisterNumber) (memory : Bool) :
    Refuses R (Execution.aluExtend add size rx ry memory) := by
  refine (pairOperands size rx ry memory).bind_answers (pairOperands_isPlace size rx ry memory) ?_
  intro (src, target) place
  exact (load size target).bind fun _ => status.bind fun _ =>
    (store place size _).bind fun _ => setCodes _

theorem cmpm (size : Size) (rx ry : RegisterNumber) : Refuses R (Execution.cmpm size rx ry) :=
  (operand rfl size).bind fun _ => (operand rfl size).bind fun _ => status.bind fun _ => setCodes _

theorem toCcr (op : AluOp) : Refuses R (Execution.toCcr op) :=
  fetch.bind fun _ => status.bind fun _ => setCodes _

theorem finishDecimal {target : Location} (place : target.IsPlace) (sum : Alu.DecimalSum) :
    Refuses R (Execution.finishDecimal target sum) :=
  (store place .byte _).bind fun _ => status.bind fun _ => setCodes _

theorem bcd (add : Bool) (rx ry : RegisterNumber) (memory : Bool) :
    Refuses R (Execution.bcd add rx ry memory) := by
  refine (pairOperands .byte rx ry memory).bind_answers (pairOperands_isPlace .byte rx ry memory) ?_
  intro (src, target) place
  exact (load .byte target).bind fun _ => status.bind fun _ => finishDecimal place _

/-- A place that is counted down to is found, and the rest of the instruction uses it. -/
theorem locateDown {α : Type} (r : RegisterNumber) {f : Location → MachineM β α}
    (rest : ∀ location, location.IsPlace → NeverRefuses (f location)) :
    Refuses R (MachineM.locate (.preDecrement r) .byte >>= f) := by
  have place : AddressMode.preDecrement r ≠ .immediate := nofun
  exact (locate rfl .byte).bind_answers (.locate place .byte) rest

theorem unpk (rx ry : RegisterNumber) (memory : Bool) (constant : BitVec 16) :
    Refuses R (Execution.unpk rx ry memory constant) := by
  cases memory with
  | false => exact (data ry).bind fun _ => storeData rx .word _
  | true =>
    refine (operand rfl .byte).bind fun _ => locateDown rx fun _ low => ?_
    exact (store low .byte _).bind fun _ => locateDown rx fun _ high => store high .byte _

theorem pack (rx ry : RegisterNumber) (memory : Bool) (constant : BitVec 16) :
    Refuses R (Execution.pack rx ry memory constant) := by
  cases memory with
  | false => exact (data ry).bind fun _ => storeData rx .byte _
  | true =>
    exact (operand rfl .byte).bind fun _ => (operand rfl .byte).bind fun _ =>
      (pure _).bind fun _ => locateDown rx fun _ place => store place .byte _

theorem packOrUnpack (unpack : Bool) (rx ry : RegisterNumber) (memory : Bool) :
    Refuses R (Execution.packOrUnpack unpack rx ry memory) :=
  fetch.bind fun constant => ite (unpk rx ry memory constant) (pack rx ry memory constant)

theorem cas2 (size : Size) : Refuses R (Execution.cas2 size) := by
  refine fetch.bind fun _ => fetch.bind fun _ => registers.bind fun _ => registers.bind fun _ => ?_
  refine (read size _).bind fun value1 => (read size _).bind fun value2 => (data _).bind fun _ =>
    (data _).bind fun _ => status.bind fun _ => (setCodes _).bind fun _ => ite ?_ ?_
  · exact (data _).bind fun _ => (write size _ _).bind fun _ => (data _).bind fun _ =>
      write size _ _
  · exact (storeData _ size value1).bind fun _ => storeData _ size value2

theorem memoryField (op : BitFieldOp) (r : RegisterNumber) (place : Execution.FieldPlace)
    (base : BitVec 32) : Refuses R (Execution.memoryField op r place base) := by
  refine (read .long _).bind fun first =>
    ite ((read .byte _).bind ?rest) ((pure 0).bind ?rest)
  refine fun fifth => (useField op r place _).bind fun new => ?_
  cases new with
  | none => exact .pure _
  | some new => exact (write .long _ _).bind fun _ => ite (write .byte _ _) (.pure _)

/-! ## Changes of flow -/

theorem bcc (condition : BitVec 4) (displacement : BitVec 8) :
    Refuses R (Execution.bcc condition displacement) := by
  refine pc.bind fun base => capabilities.bind fun caps =>
    ite (fetchSigned.bind ?rest) (ite (fetchLong.bind ?rest) ((pure _).bind ?rest))
  refine fun offset => ite (jump _) (ite ?_ ?_)
  · exact pc.bind fun _ => (push .long _).bind fun _ => jump _
  · exact (holds condition).bind fun _ => ite ((spend 2).bind fun _ => jump _) (.pure _)

theorem dbcc (condition : BitVec 4) (r : RegisterNumber) :
    Refuses R (Execution.dbcc condition r) :=
  pc.bind fun _ => fetchSigned.bind fun _ => (holds condition).bind fun _ =>
    ite (spend 4) ((countDown r).bind fun _ => ite (jump _) (spend 6))

theorem skipOperand (extra : Option Size) : Refuses R (Execution.skipOperand extra) := by
  unfold Execution.skipOperand
  split
  · exact fetchLong.map _
  · exact fetch.map _
  · exact .pure ()

theorem trapcc (condition : BitVec 4) (extra : Option Size) :
    Refuses R (Execution.trapcc condition extra) :=
  (skipOperand extra).bind fun _ => (holds condition).bind fun _ => ite (trap _) (.pure _)

theorem rts : Refuses R Execution.rts := (pop .long).bind fun target => jump target

theorem rtr : Refuses R Execution.rtr :=
  (pop .word).bind fun _ => (pop .long).bind fun target => (setCodes _).bind fun _ => jump target

theorem rtd : Refuses R Execution.rtd :=
  fetchSigned.bind fun _ => (pop .long).bind fun target => sp.bind fun _ =>
    (setSp _).bind fun _ => jump target

/-- A return that has passed the test for supervisor mode meets faults of other kinds only. -/
theorem returnFromException (limit : Nat) :
    NeverRefuses (β := β) (MachineM.returnFromException limit) := by
  induction limit with
  | zero =>
    intro m vector m' fails _
    cases Except.error.inj (congrArg Prod.fst fails)
  | succ limit ih =>
    refine sp.bind fun top => (read .word top).bind fun _ => (read .long _).bind fun target =>
      capabilities.bind fun caps => ite ?_ ?_
    · exact (setSp _).bind fun _ => (setStatus _).bind fun _ => jump target
    · refine (read .word _).bind fun _ => ite ?_ ?_
      · exact (setSp _).bind fun _ => (setStatus _).bind fun _ => ih
      · split
        · exact exception (by decide)
        · exact (setSp _).bind fun _ => (setStatus _).bind fun _ => jump target

/-! ## The floating-point unit -/

theorem readLongs (program : Bool) (count : Nat) (place : BitVec 32) :
    Refuses R (Execution.readLongs program count place) := by
  suffices never : NeverRefuses (β := β) (Execution.readLongs program count place) from
    of_never never
  induction count generalizing place with
  | zero => exact .pure _
  | succ count ih => exact (load .long _).bind fun _ => (ih _).bind fun _ => .pure _

theorem writeLongs (place : BitVec 32) (words : List (BitVec 32)) :
    Refuses R (Execution.writeLongs place words) := by
  suffices never : NeverRefuses (β := β) (Execution.writeLongs place words) from of_never never
  induction words generalizing place with
  | nil => exact .pure ()
  | cons word rest ih => exact (write .long place word).bind fun _ => ih _

theorem fetchLongs (count : Nat) : Refuses R (Execution.fetchLongs count) := by
  suffices never : NeverRefuses (β := β) (Execution.fetchLongs count) from of_never never
  induction count with
  | zero => exact .pure _
  | succ count ih => exact fetchLong.bind fun _ => ih.bind fun _ => .pure _

theorem readImage (place : BitVec 32) (program : Bool) (bytes : Nat) :
    Refuses R (Execution.readImage place program bytes) :=
  ite ((load _ _).bind fun _ => .pure _) ((readLongs program _ place).bind fun _ => .pure _)

theorem writeImage (place : BitVec 32) (image : Image) (bytes : Nat) :
    Refuses R (Execution.writeImage place image bytes) :=
  ite (write _ place _) (writeLongs place _)

theorem fetchImage (bytes : Nat) : Refuses R (Execution.fetchImage bytes) :=
  ite ((fetchConstant _).bind fun _ => .pure _) ((fetchLongs _).bind fun _ => .pure _)

theorem storeDataRegisters (place : BitVec 32) (selected : List RegisterNumber) :
    Refuses R (Execution.storeDataRegisters place selected) := by
  suffices never : NeverRefuses (β := β) (Execution.storeDataRegisters place selected) from
    of_never never
  induction selected generalizing place with
  | nil => exact .pure ()
  | cons r rest ih => exact unit.bind fun _ => (writeImage place _ _).bind fun _ => ih _

theorem loadDataRegisters (program : Bool) (place : BitVec 32) (selected : List RegisterNumber) :
    Refuses R (Execution.loadDataRegisters program place selected) := by
  suffices never : NeverRefuses (β := β) (Execution.loadDataRegisters program place selected) from
    of_never never
  induction selected generalizing place with
  | nil => exact .pure ()
  | cons r rest ih =>
    exact (readImage place program _).bind fun image => unit.bind fun _ =>
      (setUnit _).bind fun _ => ih _

theorem loopOnUnit (r : RegisterNumber) (predicate : BitVec 16) :
    Refuses R (Execution.loopOnUnit r predicate) :=
  pc.bind fun _ => fetchSigned.bind fun _ => (unitHolds predicate).bind fun _ =>
    ite (.pure _) ((countDown r).bind fun _ => ite (jump _) (.pure _))

theorem branchOnUnit (long : Bool) : Refuses R (Execution.branchOnUnit long) := by
  refine pc.bind fun _ => ite (fetchLong.bind ?rest) (fetchSigned.bind ?rest)
  exact fun _ => cpu.bind fun _ => (unitHolds _).bind fun _ => ite (jump _) (.pure _)

end Refuses

namespace Quiet

variable {β : Type} [Bus β] {allowed : BusEvent → Prop}

/-! ## Looking at the floating-point unit -/

theorem unit : Quiet (β := β) allowed Execution.unit := by
  refine .bind (.of_same fun _ => rfl) fun c => ?_
  split
  · exact .pure _
  · exact .throw _

theorem opcodeMode : Quiet (β := β) allowed Execution.opcodeMode := by
  refine .bind (.of_same fun _ => rfl) fun c => ?_
  split
  · exact .pure _
  · exact .throw _

theorem arithmetic (command : BitVec 16) :
    Quiet (β := β) allowed (Execution.arithmetic command) := by
  refine .bind unit fun fpu => ?_
  dsimp only
  split
  · exact .pure _
  · exact .throw _

end Quiet

namespace Precise

open Refuses (status setCodes setData data registers cpu spend trap)

variable {β : Type} [Bus β]

/-- An operand is found, and the rest of the instruction uses the place of it. -/
theorem locateThen {α : Type} {mode : AddressMode} (place : mode ≠ .immediate) (size : Size)
    {f : Location → MachineM β α}
    (rest : ∀ location, location.IsPlace → NeverRefuses (f location)) :
    Precise (MachineM.locate mode size >>= f) :=
  (locate mode size).bind_answers (.locate place size) rest

/-! ## Moves -/

theorem movea (size : Size) (src : AddressMode) (r : RegisterNumber) :
    Precise (β := β) (Execution.movea size src r) :=
  (operand src size).bind fun _ => .setAddress r _

theorem movem (size : Size) (toMemory : Bool) (mode : AddressMode) :
    Precise (β := β) (Execution.movem size toMemory mode) := by
  refine after .asks fun list => ?_
  have transfer (start : BitVec 32) : NeverRefuses (β := β)
      ((Execution.upward list).foldlM
        (if toMemory then Execution.storeRegister size else Execution.loadRegister size)
        start) := by
    cases toMemory with
    | false => exact .foldlM (.loadRegister size) _ start
    | true => exact .foldlM (.storeRegister size) _ start
  cases mode with
  | preDecrement r => exact .storeDownward size r list
  | postIncrement r =>
    exact (Refuses.address r).bind fun start => (transfer start).bind fun last =>
      .setAddress r last
  | _ => exact (controlAddress _).bind fun start => (transfer start).map _

theorem lea (src : AddressMode) (r : RegisterNumber) : Precise (β := β) (Execution.lea src r) :=
  (controlAddress src).bind fun place => .setAddress r place

theorem pea (src : AddressMode) : Precise (β := β) (Execution.pea src) :=
  (controlAddress src).bind fun place => .push .long place

/-! ## Arithmetic and logic -/

theorem alu {mode : AddressMode} {toOperand : Bool} (place : toOperand = true → mode ≠ .immediate)
    (op : AluOp) (size : Size) (r : RegisterNumber) :
    Precise (β := β) (Execution.alu op size mode r toOperand) := by
  cases toOperand with
  | false =>
    exact (locate mode size).bind fun location => (Refuses.load size location).bind fun _ =>
      (data r).bind fun _ => .combine (fun _ => by trivial) size _ _
  | true =>
    exact locateThen (place rfl) size fun location found =>
      (Refuses.load size location).bind fun _ => (data r).bind fun _ =>
        .combine (fun _ => found) size _ _

theorem aluAddress (op : AluOp) (size : Size) (src : AddressMode) (r : RegisterNumber) :
    Precise (β := β) (Execution.aluAddress op size src r) := by
  refine (operand src size).bind fun _ => (Refuses.address r).bind fun _ => ?_
  cases op with
  | add => exact .setAddress r _
  | sub => exact .setAddress r _
  | _ => exact status.bind fun _ => setCodes _

theorem aluImmediate {op : AluOp} {mode : AddressMode} (place : op ≠ .cmp → mode ≠ .immediate)
    (size : Size) : Precise (β := β) (Execution.aluImmediate op size mode) := by
  refine after (.operand rfl size) fun constant => ?_
  by_cases compares : op = .cmp
  · exact (locate mode size).bind fun location => (Refuses.load size location).bind fun _ =>
      .combine (absurd compares) size _ _
  · exact locateThen (place compares) size fun location found =>
      (Refuses.load size location).bind fun _ => .combine (fun _ => found) size _ _

theorem aluQuick {mode : AddressMode} (place : mode ≠ .immediate) (add : Bool) (size : Size)
    (constant : Nat) : Precise (β := β) (Execution.aluQuick add size constant mode) := by
  cases mode with
  | addrReg r => exact (Refuses.address r).bind fun _ => .setAddress r _
  | _ =>
    exact locateThen place size fun location found => (Refuses.load size location).bind fun _ =>
      .combine (fun _ => found) size _ _

theorem unary {mode : AddressMode} (place : mode ≠ .immediate) (op : UnaryOp) (size : Size) :
    Precise (β := β) (Execution.unary op size mode) :=
  locateThen place size fun location found => (Refuses.load size location).bind fun _ =>
    status.bind fun _ => (Refuses.store found size _).bind fun _ => setCodes _

theorem tst (size : Size) (mode : AddressMode) : Precise (β := β) (Execution.tst size mode) :=
  (operand mode size).bind fun _ => status.bind fun _ => setCodes _

theorem tas {mode : AddressMode} (place : mode ≠ .immediate) :
    Precise (β := β) (Execution.tas mode) :=
  locateThen place .byte fun location found => (Refuses.load .byte location).bind fun _ =>
    status.bind fun _ => (setCodes _).bind fun _ => .store found .byte _

theorem nbcd {mode : AddressMode} (place : mode ≠ .immediate) :
    Precise (β := β) (Execution.nbcd mode) :=
  locateThen place .byte fun location found => (Refuses.load .byte location).bind fun _ =>
    status.bind fun _ => .finishDecimal found _

theorem chk (size : Size) (src : AddressMode) (r : RegisterNumber) :
    Precise (β := β) (Execution.chk size src r) := by
  refine (operand src size).bind fun _ => (data r).bind fun _ => status.bind fun _ => ?_
  refine .ite ((setCodes _).bind fun _ => (trap _).bind fun _ => ?_) ?_
  all_goals
    exact .ite ((setCodes _).bind fun _ => (trap _).bind fun _ => setCodes _) (setCodes _)

theorem chk2 (size : Size) (mode : AddressMode) : Precise (β := β) (Execution.chk2 size mode) :=
  after .asks fun _ => (controlAddress mode).bind fun place =>
    (Refuses.read size place).bind fun _ => (Refuses.read size _).bind fun _ =>
      registers.bind fun _ => status.bind fun _ => (setCodes _).bind fun _ =>
        .ite (trap _) (.pure _)

theorem cas {mode : AddressMode} (place : mode ≠ .immediate) (size : Size) :
    Precise (β := β) (Execution.cas size mode) := by
  refine after .asks fun extension => locateThen place size fun location found => ?_
  refine (Refuses.load size location).bind fun value => (data _).bind fun _ =>
    status.bind fun _ => (setCodes _).bind fun _ => .ite ?_ ?_
  · exact (data _).bind fun new => .store found size new
  · exact .storeData _ size value

theorem mul (signed : Bool) (src : AddressMode) (r : RegisterNumber) :
    Precise (β := β) (Execution.mul signed src r) :=
  (operand src .word).bind fun _ => (data r).bind fun _ => (setData r _).bind fun _ =>
    status.bind fun _ => (setCodes _).bind fun _ => cpu.bind fun _ => .ite (spend _) (.pure _)

theorem mulLong (src : AddressMode) : Precise (β := β) (Execution.mulLong src) := by
  refine after .asks fun _ => (operand src .long).bind fun _ => (data _).bind fun _ =>
    status.bind fun _ => .ite ?_ ?_
  · exact (setData _ _).bind fun _ => (setData _ _).bind fun _ => setCodes _
  · exact (setData _ _).bind fun _ => setCodes _

theorem div (signed : Bool) (src : AddressMode) (r : RegisterNumber) :
    Precise (β := β) (Execution.div signed src r) := by
  refine (operand src .word).bind fun divisor => (data r).bind fun dividend =>
    .ite .divideByZero (cpu.bind fun c => .ite ((spend _).bind fun _ => ?_) ?_)
  all_goals
    dsimp only
    split
    · exact (setData r _).bind fun _ => status.bind fun _ => setCodes _
    · exact status.bind fun _ => setCodes _

theorem divLong (src : AddressMode) : Precise (β := β) (Execution.divLong src) := by
  refine after .asks fun extension => (operand src .long).bind fun divisor =>
    .ite .divideByZero ((data _).bind fun low => (data _).bind fun high => ?_)
  dsimp only
  split
  · exact (setData _ _).bind fun _ => (setData _ _).bind fun _ => status.bind fun _ => setCodes _
  · exact status.bind fun _ => setCodes _

/-! ## Shifts, bits and bit fields -/

theorem shiftMemory {mode : AddressMode} (place : mode ≠ .immediate) (kind : ShiftKind)
    (left : Bool) : Precise (β := β) (Execution.shiftMemory kind left mode) :=
  locateThen place .word fun location found => (Refuses.load .word location).bind fun _ =>
    status.bind fun _ => (Refuses.store found .word _).bind fun _ => setCodes _

/-- A test of a bit stores nothing. -/
theorem bit {op : BitOp} {mode : AddressMode} (place : op ≠ .test → mode ≠ .immediate)
    (src : BitSource) : Precise (β := β) (Execution.bit op src mode) := by
  have number : Quiet (β := β) BusEvent.IsInquiry (Execution.bitNumber src) := by
    cases src with
    | immediate => exact .bind .asks fun _ => .pure _
    | register r => exact .bind (.of_same fun _ => rfl) fun _ => .pure _
  refine after number fun number => ?_
  by_cases tests : op = .test
  · subst tests
    exact (locate mode _).bind fun location => (Refuses.load _ location).bind fun _ =>
      status.bind fun _ => setCodes _
  · refine locateThen (place tests) _ fun location found =>
      (Refuses.load _ location).bind fun _ => status.bind fun _ => (setCodes _).bind fun _ => ?_
    dsimp only
    split
    · exact .ite ((spend _).bind fun _ => .store found _ _) (.store found _ _)
    · exact .pure _

theorem bitField (op : BitFieldOp) (mode : AddressMode) :
    Precise (β := β) (Execution.bitField op mode) := by
  refine after .asks fun extension => after (.of_same fun _ => rfl) fun rs => ?_
  cases mode with
  | dataReg holder => exact .registerField op _ _ holder
  | _ => exact (controlAddress _).bind fun base => .memoryField op _ _ base

/-! ## Changes of flow -/

theorem scc {mode : AddressMode} (place : mode ≠ .immediate) (condition : BitVec 4) :
    Precise (β := β) (Execution.scc condition mode) :=
  locateThen place .byte fun _ found => (Refuses.holds condition).bind fun _ =>
    .ite ((spend 2).bind fun _ => .store found .byte _) (.store found .byte _)

theorem jmp (mode : AddressMode) : Precise (β := β) (Execution.jmp mode) :=
  (controlAddress mode).bind fun target => .jump target

theorem jsr (mode : AddressMode) : Precise (β := β) (Execution.jsr mode) :=
  (controlAddress mode).bind fun target => Refuses.pc.bind fun _ =>
    (Refuses.push .long _).bind fun _ => .jump target

/-! ## Control of the processor -/

theorem requireSupervisor : Precise (β := β) MachineM.requireSupervisor :=
  of_quiet .requireSupervisor

theorem moveUsp (r : RegisterNumber) (toUsp : Bool) :
    Precise (β := β) (Execution.moveUsp r toUsp) :=
  guarded fun _ => .modifyRegisters _

theorem toSr (op : AluOp) : Precise (β := β) (Execution.toSr op) :=
  guarded fun _ => Refuses.fetch.bind fun _ => status.bind fun _ => .setStatus _

theorem moveFromSr {dst : AddressMode} (place : dst ≠ .immediate) :
    Precise (β := β) (Execution.moveFromSr dst) := by
  have rest : Precise (β := β) (do
      let location ← MachineM.locate dst .word
      MachineM.store .word location ((← MachineM.status).setWidth 32)) :=
    locateThen place .word fun _ found => status.bind fun _ => .store found .word _
  exact after (.of_same fun _ => rfl) fun caps => .ite (guarded fun _ => rest) rest

theorem moveFromCcr {dst : AddressMode} (place : dst ≠ .immediate) :
    Precise (β := β) (Execution.moveFromCcr dst) :=
  locateThen place .word fun _ found => status.bind fun _ => .store found .word _

theorem moveToCcr (src : AddressMode) : Precise (β := β) (Execution.moveToCcr src) :=
  (operand src .word).bind fun _ => setCodes _

theorem moveToSr (src : AddressMode) : Precise (β := β) (Execution.moveToSr src) :=
  guarded fun _ => (operand src .word).bind fun _ => .setStatus _

/-- Whether there is such a control register is found out first. -/
theorem movec (toControl : Bool) : Precise (β := β) (Execution.movec toControl) := by
  refine guarded fun _ => after .asks fun extension => after (.of_same fun _ => rfl) fun c => ?_
  dsimp only
  split
  · exact of_quiet (.throw _)
  · exact .modifyRegisters _

theorem moves (size : Size) (mode : AddressMode) :
    Precise (β := β) (Execution.moves size mode) := by
  refine guarded fun _ => after .asks fun extension => (memoryAddress mode _).bind fun place =>
    registers.bind fun rs => .ite (.writeIn _ size place _) ?_
  exact (Refuses.readIn _ size place).bind fun value =>
    .ite (.storeData _ size value) (.setAddress _ _)

theorem resetDevices : Precise (β := β) Execution.resetDevices := guarded fun _ => .onBus _

theorem stop : Precise (β := β) Execution.stop :=
  guarded fun _ => Refuses.fetch.bind fun value => (Refuses.setStatus value).bind fun _ =>
    .modifyCpu _

/-- The machine around the processor is asked first. -/
theorem illegal : Precise (β := β) Execution.illegal := by
  have asks (opcode : BitVec 16) :
      Quiet (β := β) BusEvent.IsInquiry (MachineM.onBus (Bus.illegal opcode)) :=
    fun m => .of_event (.illegal opcode) trivial m.cpu.cycles
  refine after (.of_same fun _ => rfl) fun c => after (asks c.opcode) fun known => ?_
  exact .ite (.pure _) (of_quiet (.throw _))

/-! ## The floating-point unit -/

theorem sourceImage (mode : AddressMode) (format : Fpu.DataFormat) :
    Precise (β := β) (Execution.sourceImage mode format) := by
  cases mode with
  | dataReg r => exact .ite ((data r).bind fun _ => .pure _) .undefined
  | addrReg r => exact .undefined
  | immediate => exact .fetchImage _
  | _ => exact (memoryAddress _ _).bind fun place => .readImage place _ _

theorem computeOperand (host : Fpu.HostMath) (command : BitVec 16) :
    Precise (β := β) (Execution.computeOperand host command) :=
  after (.arithmetic command) fun _ => after .opcodeMode fun mode =>
    (sourceImage mode _).bind fun _ => Refuses.beginUnit.bind fun _ => .setUnit _

theorem moveOut (command : BitVec 16) : Precise (β := β) (Execution.moveOut command) := by
  refine after .opcodeMode fun mode => .ite (after (.throw _) fun _ => ?_) ?_
  all_goals
    dsimp only
    split
    · refine .ite (after (.throw _) fun _ => ?_) ?_
      all_goals exact (Refuses.convertOut _ command).bind fun _ => .storeData _ _ _
    · exact (memoryAddress _ _).bind fun place => (Refuses.convertOut _ command).bind fun image =>
        .writeImage place image _

theorem storeControls (mode : AddressMode) (selected : List Execution.UnitControl) :
    Precise (β := β) (Execution.storeControls mode selected) := by
  refine .ite (after (.throw _) fun _ => ?_) ?_
  all_goals
    exact (memoryAddress mode _).bind fun place => Refuses.unit.bind fun _ => .writeLongs place _

theorem moveControls (command : BitVec 16) (toMemory : Bool) :
    Precise (β := β) (Execution.moveControls command toMemory) := by
  refine .ite (after (.throw _) fun _ => after .opcodeMode fun mode => ?_)
    (after .opcodeMode fun mode => ?_)
  all_goals
    split
    · exact .ite (Refuses.unit.bind fun _ => setData _ _)
        ((data _).bind fun _ => .setUnitControl _ _)
    · exact .ite (Refuses.unit.bind fun _ => .setAddress _ _)
        ((Refuses.address _).bind fun _ => .setUnitControl _ _)
    · exact .undefined
    · exact .undefined
    · refine .ite (storeControls _ _) (.ite (.loadControls (fun _ => .fetchLong) _ _) ?_)
      exact (memoryAddress _ _).bind fun place => .loadControls (fun _ => .load .long _) place _

theorem dataListAddress (mode : AddressMode) (toMemory ascending : Bool) (count : Nat) :
    Precise (β := β) (Execution.dataListAddress mode toMemory ascending count) := by
  unfold Execution.dataListAddress
  split
  · exact .ite (.preDecrement _ _) .undefined
  · exact .ite (.postIncrement _ _) .undefined
  · exact .ite (controlAddress _) .undefined

theorem moveDataRegisters (command : BitVec 16) (toMemory : Bool) :
    Precise (β := β) (Execution.moveDataRegisters command toMemory) :=
  after (.of_same fun _ => rfl) fun _ => after .opcodeMode fun mode =>
    (dataListAddress mode toMemory _ _).bind fun place =>
      .ite (.storeDataRegisters place _) (.loadDataRegisters _ place _)

theorem general (host : Fpu.HostMath) : Precise (β := β) (Execution.general host) := by
  refine after .asks fun command => ?_
  split
  · exact .computeRegister host command
  · exact .ite (.loadConstant command) (computeOperand host command)
  · exact moveOut command
  · exact moveControls command false
  · exact moveControls command true
  · exact moveDataRegisters command false
  · exact moveDataRegisters command true

theorem conditional : Precise (β := β) Execution.conditional := by
  refine after (.of_same fun _ => rfl) fun c => after .asks fun predicate => ?_
  have trapWith (extra : Option Size) : Precise (β := β) (do
      Execution.skipOperand extra
      if ← Execution.unitHolds predicate then throw (.trap .conditional)) :=
    (Refuses.skipOperand extra).bind fun _ => (Refuses.unitHolds predicate).bind fun _ =>
      .ite (trap _) (.pure _)
  dsimp only
  split
  · exact .loopOnUnit _ predicate
  · exact trapWith _
  · exact trapWith _
  · exact trapWith _
  · next mode _ _ _ _ _ =>
    by_cases alterable : mode.isDataAlterable = true
    · have place := AddressMode.ne_immediate_of_isAlterable
        (AddressMode.alterable_of_data mode alterable)
      rw [alterable]
      exact locateThen place .byte fun _ found => (Refuses.unitHolds predicate).bind fun _ =>
        .store found .byte _
    · rw [Bool.not_eq_true] at alterable
      rw [alterable]
      exact .undefined
  · exact .undefined

theorem saveUnit : Precise (β := β) Execution.saveUnit := by
  refine guarded fun _ => after .unit fun fpu => after .opcodeMode fun mode => ?_
  dsimp only
  split
  · exact (Refuses.preDecrement _ _).bind fun place => .writeLongs place _
  · exact .ite ((controlAddress _).bind fun place => .writeLongs place _)
      (after (.throw _) fun place => .writeLongs place _)

theorem restoreUnit : Precise (β := β) Execution.restoreUnit := by
  refine guarded fun _ => after .opcodeMode fun mode => ?_
  dsimp only
  split
  · exact (Refuses.address _).bind fun place => (Refuses.read .long place).bind fun header =>
      .restoreThen header fun _ => .setAddress _ _
  · refine .ite ((controlAddress _).bind ?rest) (Refuses.undefined.bind ?rest)
    refine fun place => (Refuses.read .long place).bind fun header =>
      .restoreThen header fun size => ?_
    split
    · exact .setAddress _ _
    · exact .pure _

theorem lineF (host : Fpu.HostMath) : Precise (β := β) (Execution.lineF host) := by
  refine after (.of_same fun _ => rfl) fun c => .ite (after (.throw _) fun _ => ?_) ?_
  all_goals
    split
    · exact general host
    · exact conditional
    · exact .branchOnUnit false
    · exact .branchOnUnit true
    · exact saveUnit
    · exact restoreUnit
    · exact .undefined

/-! ## All instructions -/

/-- **An instruction that is no move is refused precisely**, if the operand that it writes can be
written. -/
theorem perform (host : Fpu.HostMath) (limit : Nat) {instruction : Instruction}
    (other : ∀ size src dst, instruction ≠ .move size src dst)
    (writable : instruction.WritesAlterable) :
    Precise (β := β) (Execution.perform host limit instruction) := by
  have place {mode : AddressMode} (written : instruction.written? = some mode) :
      mode ≠ .immediate :=
    AddressMode.ne_immediate_of_isAlterable (writable mode written)
  cases instruction with
  | move size src dst => exact (other size src dst rfl).elim
  | movea size src r => exact movea size src r
  | moveq r constant => exact .moveq r constant
  | movem size toMemory mode => exact movem size toMemory mode
  | movep size toMemory dataRegister addressRegister =>
    exact .movep size toMemory dataRegister addressRegister
  | lea src r => exact lea src r
  | pea src => exact pea src
  | exg rx ry => exact .exg rx ry
  | swap r => exact .swap r
  | ext r source size => exact .ext r source size
  | link r long => exact .link r long
  | unlk r => exact .unlk r
  | moveFromSr dst => exact moveFromSr (place rfl)
  | moveFromCcr dst => exact moveFromCcr (place rfl)
  | moveToCcr src => exact moveToCcr src
  | moveToSr src => exact moveToSr src
  | moveUsp r toUsp => exact moveUsp r toUsp
  | movec toControl => exact movec toControl
  | moves size mode => exact moves size mode
  | move16 opcode => exact .move16 opcode
  | alu op size mode r toOperand =>
    refine alu (fun stores => place ?_) op size r
    rw [stores]
    rfl
  | aluAddress op size src r => exact aluAddress op size src r
  | aluImmediate op size mode =>
    exact aluImmediate (fun stores => place (if_neg stores)) size
  | aluQuick add size constant mode => exact aluQuick (place rfl) add size constant
  | aluExtend add size rx ry memory => exact .aluExtend add size rx ry memory
  | cmpm size rx ry => exact .cmpm size rx ry
  | toCcr op => exact .toCcr op
  | toSr op => exact toSr op
  | unary op size mode => exact unary (place rfl) op size
  | tst size mode => exact tst size mode
  | tas mode => exact tas (place rfl)
  | mul signed src r => exact mul signed src r
  | div signed src r => exact div signed src r
  | mulLong src => exact mulLong src
  | divLong src => exact divLong src
  | bcd add rx ry memory => exact .bcd add rx ry memory
  | nbcd mode => exact nbcd (place rfl)
  | pack unpack rx ry memory => exact .packOrUnpack unpack rx ry memory
  | chk size src r => exact chk size src r
  | chk2 size mode => exact chk2 size mode
  | cas size mode => exact cas (place rfl) size
  | cas2 size => exact .cas2 size
  | shiftRegister kind left size count r => exact .shiftRegister kind left size count r
  | shiftMemory kind left mode => exact shiftMemory (place rfl) kind left
  | bit op src mode => exact bit (fun stores => place (if_neg stores)) src
  | bitField op mode => exact bitField op mode
  | bcc condition displacement => exact .bcc condition displacement
  | dbcc condition r => exact .dbcc condition r
  | scc condition mode => exact scc (place rfl) condition
  | trapcc condition extra => exact .trapcc condition extra
  | jmp mode => exact jmp mode
  | jsr mode => exact jsr mode
  | rts => exact .rts
  | rtr => exact .rtr
  | rte => exact guarded fun _ => .of_never (.returnFromException limit)
  | rtd => exact .rtd
  | trap number => exact trap _
  | trapv => exact .trapv
  | nop => exact .pure ()
  | reset => exact resetDevices
  | stop => exact stop
  | illegal => exact illegal
  | bkpt => exact illegal
  | lineA => exact .exception (by decide)
  | lineF => exact lineF host
  | cacheOp => exact requireSupervisor
  | mmuOp => exact requireSupervisor

end Precise

/-- What a move does with the value that it has read. -/
def Execution.moveValue {β : Type} [Bus β] (size : Size) (dst : AddressMode) (value : BitVec 32) :
    MachineM β Unit := do
  let target ← MachineM.locate dst size
  MachineM.setCodes (Alu.logicCodes size value (← MachineM.status))
  MachineM.store size target value

theorem Execution.move_eq {β : Type} [Bus β] (size : Size) (src dst : AddressMode) :
    Execution.move (β := β) size src dst =
      MachineM.operand src size >>= Execution.moveValue size dst :=
  rfl

/-- A value that was read can be written wherever the destination is found. -/
theorem Refuses.moveValue {β : Type} [Bus β] {R : Machine β → Machine β → Prop} {size : Size}
    {dst : AddressMode} (found : Refuses R (MachineM.locate dst size)) (place : dst ≠ .immediate)
    (value : BitVec 32) : Refuses R (Execution.moveValue size dst value) :=
  found.bind_answers (.locate place size) fun _ isPlace => status.bind fun _ =>
    (setCodes _).bind fun _ => store isPlace size value

/-- Where a move is refused, everything is as before, or the destination with an index register was
not found and the source has counted its register. -/
theorem move_refused {β : Type} [Bus β] {size : Size} {src dst : AddressMode} {m m' : Machine β}
    {vector : VectorNumber} (place : dst ≠ .immediate)
    (refused : Execution.move size src dst m = (.error (.exception vector), m'))
    (refusal : vector.IsRefusal) :
    m.Stays BusEvent.IsInquiry m' ∨
      src.steps = true ∧ dst.isIndexed = true ∧
        m.StaysWith BusEvent.IsInquiry (src.stepped size.bytes m.cpu.registers) m' := by
  rw [Execution.move_eq] at refused
  rcases read : MachineM.operand src size m with ⟨fault | value, m₁⟩
  · rw [MachineM.bind_error read] at refused
    obtain ⟨same, rfl⟩ := Prod.mk.inj refused
    obtain rfl := Except.error.inj same
    exact .inl (Precise.operand src size read refusal)
  · rw [MachineM.bind_ok read] at refused
    have stays := Refuses.moveValue (Precise.locate dst size) place value refused refusal
    have counted := (MachineM.operand_ok read).trans stays
    cases steps : src.steps with
    | false =>
      rw [AddressMode.stepped_of_steady steps] at counted
      exact .inl counted
    | true =>
      cases indexed : dst.isIndexed with
      | false =>
        -- without an index register the destination would have been found
        have found : NeverRefuses (β := β) (MachineM.locate dst size) := .locate indexed size
        exact (found.moveValue place value refused refusal).elim
      | true => exact .inr ⟨rfl, rfl, counted⟩

end M68k
