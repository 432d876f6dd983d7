import M68k.Proofs.Cpu.StackFrame

/-!
# Handlers that start with a return

A machine has written its frames and enters a handler whose first instruction is a return from an
exception.  The return finds the frames as they were written, one in most cases, and two on
different stacks after an interrupt in the master state.

* `AtReturn.execute` — a handler that starts with a return does what the return does;
* `Handles.push_return`, `Handles.pushTwice_return` — the return gives back the registers.
-/

namespace M68k

open MachineM

variable {β : Type} [RamBus β]

/-- The bytes of an entry of the vector table, and of the first word of the handler. -/
def Cpu.handlerBytes (c : Cpu) (vector : VectorNumber) (handler : BitVec 32) : List (BitVec 32) :=
  [c.vectorPlace vector, c.vectorPlace vector + 1, c.vectorPlace vector + 2,
    c.vectorPlace vector + 2 + 1, c.model.place handler, c.model.place handler + 1]

namespace Machine

/-- The handler of a vector is at an address and starts with a return. -/
structure Handles (m : Machine β) (vector : VectorNumber) (handler : BitVec 32) : Prop where
  table : m.cpu.model.capabilities.misalignedData = false →
    (m.cpu.vectorBase + vector.setWidth 32 <<< 2).toNat % 2 = 0
  entry : (RamBus.bytes m.bus).long (m.cpu.vectorPlace vector) = handler
  present : handler ≠ 0
  even : handler.toNat % 2 = 0
  opcode : (RamBus.bytes m.bus).word (m.cpu.model.place handler) = 0x4E73

/-- A machine that is about to perform a return, the first instruction of a handler. -/
structure AtReturn (m : Machine β) : Prop where
  running : m.cpu.runState = .running
  status : m.cpu.registers.sr.IsEntry
  fresh : m.cpu.prefetched = none
  even : m.cpu.registers.pc.toNat % 2 = 0
  opcode : (RamBus.bytes m.bus).word (m.cpu.model.place m.cpu.registers.pc) = 0x4E73

/-- A machine that has fetched the return with which a handler starts, on the stacks of another. -/
structure IsReturning (m : Machine β) (handler : BitVec 32) (m' : Machine β) : Prop where
  registers : m'.cpu.registers = { m.cpu.registers with pc := handler + 2, ppc := handler }
  model : m'.cpu.model = m.cpu.model
  bytes : RamBus.bytes m'.bus = RamBus.bytes m.bus

/-- The registers to which a return leads that is fetched at the program counter. -/
def ReturnsTo (m : Machine β) (registers : Registers) : Prop :=
  ∀ limit m', m.IsReturning m.cpu.registers.pc m' →
    ∃ m'', returnFromException (limit + 2) m' = (.ok (), m'') ∧ m''.cpu.registers = registers

namespace IsReturning

variable {m m' : Machine β} {handler : BitVec 32}

theorem sp (h : m.IsReturning handler m') : m'.cpu.registers.sp = m.cpu.registers.sp := by
  rw [h.registers]
  rfl

theorem unwindable (h : m.IsReturning handler m') {ctx : FrameContext} {format : FrameFormat}
    (frame : m.Unwindable ctx format) : m'.Unwindable ctx format :=
  frame.kept h.model h.sp fun byte _ => congrFun h.bytes byte

end IsReturning

namespace Handles

variable {m m' : Machine β} {vector : VectorNumber} {handler : BitVec 32}

/-- A handler stays as long as its bytes do. -/
theorem kept (h : m.Handles vector handler) (model : m'.cpu.model = m.cpu.model)
    (vbr : m'.cpu.registers.vbr = m.cpu.registers.vbr)
    (same : ∀ byte ∈ m.cpu.handlerBytes vector handler,
      RamBus.bytes m'.bus byte = RamBus.bytes m.bus byte) : m'.Handles vector handler := by
  refine ⟨?_, ?_, h.present, h.even, ?_⟩
  · rw [model, Cpu.vectorBase_congr model vbr]
    exact h.table
  · rw [← h.entry, Cpu.vectorPlace_congr model vbr]
    simp only [Bytes.long, Bytes.word]
    rw [same _ (by simp [Cpu.handlerBytes]), same _ (by simp [Cpu.handlerBytes]),
      same _ (by simp [Cpu.handlerBytes]), same _ (by simp [Cpu.handlerBytes])]
  · rw [← h.opcode, model, Bytes.word, Bytes.word, same _ (by simp [Cpu.handlerBytes]),
      same _ (by simp [Cpu.handlerBytes])]

/-- A handler is entered with the stacks as they are. -/
theorem arrive (h : m.Handles vector handler) (running : m.cpu.runState = .running)
    (status : m.cpu.registers.sr.IsEntry) (cycles : Nat) :
    ∃ m', (spend cycles >>= fun _ => jumpToHandler vector) m = (.ok (), m') ∧
      m.Becomes { m.cpu.registers with pc := handler } (RamBus.bytes m.bus) m' ∧ m'.AtReturn := by
  obtain ⟨m', jumps, arrives, fresh⟩ :=
    jumpToHandler_ram (spend cycles m).2 vector h.table h.entry h.present h.even
  refine ⟨m', (bind_ok (spend_apply m cycles) _).trans jumps,
    ⟨arrives.registers, arrives.model, arrives.runState, arrives.bytes⟩,
    arrives.runState.trans running, ?_, fresh, ?_, ?_⟩
  · rw [arrives.registers]
    exact status
  · rw [arrives.registers]
    exact h.even
  · rw [arrives.registers, arrives.bytes, arrives.model]
    exact h.opcode

end Handles

end Machine

/-- The models with a master state have format words and all flags. -/
theorem Model.of_masterState {model : Model} (late : model.capabilities.masterState = true) :
    model.capabilities.frames ≠ .f68000 ∧ ∀ flag, model.statusMask.has flag = true := by
  cases model with
  | m68000 | m68010 => exact nomatch late
  | m68020 | m68030 | m68040 => exact ⟨by decide, fun flag => by cases flag <;> rfl⟩

theorem Cpu.of_masterState {c : Cpu} (late : c.capabilities.masterState = true) :
    c.capabilities.frames ≠ .f68000 ∧ ∀ flag, c.model.statusMask.has flag = true := by
  rw [c.capabilities_eq] at late ⊢
  exact Model.of_masterState late

theorem Instruction.ofOpcode_rte (model : Model) :
    ofOpcode model.capabilities 0x4E73 = .rte := by
  cases model <;> rfl

/-- A handler that starts with a return does what the return does. -/
theorem Machine.AtReturn.execute {m : Machine β} (ready : m.AtReturn) {registers : Registers}
    (returns : m.ReturnsTo registers) (host : Fpu.HostMath)
    (quiet : takesInterrupt m.cpu ((Bus.interruptLevel m.bus).1.setWidth 3) = false) :
    ∃ cycles m', m.execute host = (.ok cycles, m') ∧ m'.cpu.registers = registers := by
  have bytes : RamBus.bytes m.polled.started.bus = RamBus.bytes m.bus :=
    RamBus.bytes_interruptLevel m.bus
  obtain ⟨m₁, fetches, fetched⟩ := fetch_ram m.polled.started ready.fresh ready.even
  have found : (RamBus.bytes m.polled.started.bus).word
      (m.polled.started.cpu.model.place m.polled.started.cpu.registers.pc) = 0x4E73 :=
    bytes ▸ ready.opcode
  rw [found] at fetches
  rw [bytes] at fetched
  have begins : begin m.polled =
      (.ok (.perform m.cpu.registers.sr .rte), m₁.decoded 0x4E73) := by
    rw [begin_apply, fetches]
    dsimp only
    rw [show Instruction.ofOpcode m₁.cpu.capabilities 0x4E73 = .rte from
      Instruction.ofOpcode_rte m₁.cpu.model]
    rfl
  obtain ⟨limit, bound⟩ : ∃ limit, frameLimit = limit + 2 :=
    ⟨2 ^ 64 - 2, (Nat.sub_add_cancel (by decide)).symm⟩
  obtain ⟨m₂, returned, restored⟩ := returns limit (m₁.decoded 0x4E73)
    ⟨fetched.registers, fetched.model, fetched.bytes⟩
  have supervisor : (m₁.decoded 0x4E73).cpu.registers.isSupervisor = true := by
    show m₁.cpu.registers.isSupervisor = true
    rw [fetched.registers]
    exact ready.status.1
  have performs : Execution.perform host frameLimit .rte (m₁.decoded 0x4E73) = (.ok (), m₂) := by
    show (requireSupervisor >>= fun _ => returnFromException frameLimit) _ = _
    rw [bind_apply, requireSupervisor_apply, if_pos supervisor, bound]
    exact returned
  have untraced : isTraced m.cpu.registers.sr m₂.cpu.settled = false := by
    rw [isTraced, ready.status.2.1, ready.status.2.2]
    rfl
  have done : work host frameLimit m = (.ok (), { m₂ with cpu := m₂.cpu.settled }) := by
    rw [work_of_quiet host frameLimit ready.running quiet, step_eq, bind_ok begins]
    exact bind_settle performs untraced
  refine ⟨_, _, executeWithin_ok (by simp [ready.running]) done, ?_⟩
  show m₂.cpu.settled.registers = registers
  rw [← restored, Cpu.settled]
  split <;> rfl

namespace Registers

/-- The program counters are apart from the stacks. -/
theorem setSp_counters (r : Registers) (value pc ppc : BitVec 32) :
    ({ r with pc, ppc } : Registers).setSp value = { r.setSp value with pc, ppc } := by
  show ({ r with pc, ppc } : Registers).setStack (stackOf r.sr) value =
    { r.setStack (stackOf r.sr) value with pc, ppc }
  cases stackOf r.sr <;> rfl

/-- Writing back the stack pointer in use. -/
theorem setSp_setSp_sp (r : Registers) (value : BitVec 32) : (r.setSp value).setSp r.sp = r := by
  have same : (r.setSp value).sr = r.sr := r.sr_setStack _ value
  rw [setSp, same, setSp, sp]
  cases stackOf r.sr <;> rfl

end Registers

namespace MachineM

/-- A return that meets a frame that leads on. -/
theorem return_next {m : Machine β} {ctx : FrameContext} (h : m.Unwindable ctx .format1)
    (limit : Nat) :
    ∃ m', returnFromException (limit + 1) m = returnFromException limit m' ∧
      m.Becomes
        ((m.cpu.registers.setSp (m.cpu.registers.sp + 8)).setStatus ctx.sr m.cpu.model.statusMask)
        (RamBus.bytes m.bus) m' := by
  obtain ⟨m', unwinds, becomes⟩ := unwindOnce_ram m h
  refine ⟨m', ?_, ?_, becomes.model, becomes.runState, becomes.bytes⟩
  · rw [returnFromException_succ, bind_ok unwinds]
    rfl
  · have pc := (m.cpu.registers.sameSystem_setSp (m.cpu.registers.sp + 8)).pc
    rw [becomes.registers, if_pos rfl, ← pc]
    rfl

/-- A return that meets another frame. -/
theorem return_last {m : Machine β} {ctx : FrameContext} {format : FrameFormat}
    (h : m.Unwindable ctx format) (last : format ≠ .format1) (limit : Nat) :
    ∃ m', returnFromException (limit + 1) m = (.ok (), m') ∧
      m'.cpu.registers =
        { (m.cpu.registers.setSp
              (m.cpu.registers.sp + BitVec.ofNat 32 (2 * format.words))).setStatus ctx.sr
            m.cpu.model.statusMask with
          pc := ctx.returnAddress } := by
  obtain ⟨m', unwinds, becomes⟩ := unwindOnce_ram m h
  rw [show (format == .format1) = false from beq_false_of_ne last] at unwinds
  refine ⟨m', ?_, ?_⟩
  · rw [returnFromException_succ, bind_ok unwinds, if_neg Bool.false_ne_true]
    rfl
  · rw [becomes.registers, if_neg last]

/-- A return goes through a frame on the interrupt stack to one on the master stack. -/
theorem return_twice {m : Machine β} {outer inner : FrameContext}
    (interrupt : Registers.stackOf m.cpu.registers.sr = .interrupt)
    (master : Registers.stackOf (outer.sr &&& m.cpu.model.statusMask) = .master)
    (first : m.Unwindable outer .format1)
    (second : (m.withRegisters (m.cpu.registers.setStatus outer.sr
      m.cpu.model.statusMask)).Unwindable inner .format0) (limit : Nat) :
    ∃ m', returnFromException (limit + 2) m = (.ok (), m') ∧
      m'.cpu.registers =
        { m.cpu.registers with
          isp := m.cpu.registers.isp + 8
          msp := m.cpu.registers.msp + 8
          sr := inner.sr &&& m.cpu.model.statusMask
          pc := inner.returnAddress } := by
  obtain ⟨m₁, next, led⟩ := return_next first (limit + 1)
  have stacked : m₁.cpu.registers =
      { m.cpu.registers with
        isp := m.cpu.registers.isp + 8
        sr := outer.sr &&& m.cpu.model.statusMask } := by
    rw [led.registers, Registers.setSp, Registers.sp, interrupt]
    rfl
  have sp : m₁.cpu.registers.sp = m.cpu.registers.msp := by
    rw [stacked, Registers.sp, master]
    rfl
  have kept : m₁.Unwindable inner .format0 := by
    refine second.kept led.model ?_ fun byte _ => congrFun led.bytes byte
    show _ = (m.cpu.registers.setStatus _ _).stack (Registers.stackOf (outer.sr &&& _))
    rw [sp, master]
    rfl
  obtain ⟨m', returns, restored⟩ := return_last kept (by decide) limit
  refine ⟨m', next.trans returns, ?_⟩
  rw [restored, sp, led.model, Registers.setSp, stacked, master]
  rfl

end MachineM

/-- Between two machines a frame was pushed on the master stack, and on the interrupt stack, which
is then in use, one that leads to it. -/
structure Machine.StacksTwice (m : Machine β) (inner outer : FrameContext) (m' : Machine β) :
    Prop where
  becomes : m.Becomes
    { m.cpu.registers with
      msp := m.cpu.registers.msp - 8
      isp := m.cpu.registers.isp - 8
      sr := m.cpu.registers.sr.set .m false &&& m.cpu.model.statusMask }
    (RamBus.bytes m'.bus) m'
  status : m'.cpu.registers.sr.IsEntry
  interrupt : Registers.stackOf m'.cpu.registers.sr = .interrupt
  around : ∀ byte, ¬m.cpu.model.Covers (m.cpu.registers.msp - 8) 4 byte →
    ¬m.cpu.model.Covers (m.cpu.registers.isp - 8) 4 byte →
    RamBus.bytes m'.bus byte = RamBus.bytes m.bus byte
  first : m'.Unwindable outer .format1
  second : (m'.withRegisters { m'.cpu.registers with sr := m.cpu.registers.sr }).Unwindable inner
    .format0

namespace MachineM

/-- Pushes a frame on the master stack, and on the interrupt stack one that leads to it. -/
def pushTwice {β : Type} [Bus β] (vector : VectorNumber) (sr : StatusRegister)
    (returnAddress : BitVec 32) : MachineM β Unit := do
  pushFrame .format0 vector sr returnAddress none
  setStatus ((← status).set .m false)
  pushFrame .format1 vector (sr.set .s true) returnAddress none

/-- The later models push a short frame on the stack that is in use. -/
theorem pushFrame_late {m : Machine β} (late : m.cpu.capabilities.masterState = true)
    {which : StackPointer} (used : Registers.stackOf m.cpu.registers.sr = which)
    {format : FrameFormat} (short : format = .format0 ∨ format = .format1)
    (vector : VectorNumber) (sr : StatusRegister) {returnAddress : BitVec 32}
    (target : returnAddress.toNat % 2 = 0) :
    ∃ m', pushFrame format vector sr returnAddress none m = (.ok (), m') ∧
      m.Becomes (m.cpu.registers.setStack which (m.cpu.registers.stack which - 8))
        (RamBus.bytes m'.bus) m' ∧
      (∀ byte, ¬m.cpu.model.Covers (m.cpu.registers.stack which - 8) 4 byte →
        RamBus.bytes m'.bus byte = RamBus.bytes m.bus byte) ∧
      m'.Unwindable ⟨m.cpu.opcode, m.cpu.registers.ppc, vector, sr, returnAddress, none⟩
        format := by
  have known : format.IsReturnable m.cpu.capabilities.frames := by
    have family : m.cpu.capabilities.frames ≠ .f68000 := (Cpu.of_masterState late).1
    rw [FrameFormat.IsReturnable, if_neg family]
    rcases short with rfl | rfl <;> decide
  have words : format.words = 4 := by rcases short with rfl | rfl <;> rfl
  have sp : m.cpu.registers.sp = m.cpu.registers.stack which := by rw [Registers.sp, used]
  have room := Machine.HasRoom.of_late late format
  rw [sp, words] at room
  obtain ⟨m', pushes, pushed, around, frame⟩ :=
    pushFrame_unwindable room known vector sr target none
  rw [Registers.setSp, used] at pushed
  rw [words] at around
  exact ⟨m', pushes, pushed, around, frame⟩

theorem pushTwice_unwindable {m : Machine β} (entry : m.cpu.registers.sr.IsEntry)
    (late : m.cpu.capabilities.masterState = true)
    (master : Registers.stackOf m.cpu.registers.sr = .master)
    (disjoint : ∀ byte, m.cpu.model.Covers (m.cpu.registers.msp - 8) 4 byte →
      ¬m.cpu.model.Covers (m.cpu.registers.isp - 8) 4 byte)
    (vector : VectorNumber) (sr : StatusRegister) {returnAddress : BitVec 32}
    (target : returnAddress.toNat % 2 = 0) :
    ∃ inner outer m', pushTwice vector sr returnAddress m = (.ok (), m') ∧
      m.StacksTwice inner outer m' ∧ inner.sr = sr ∧ outer.sr = sr.set .s true ∧
      inner.returnAddress = returnAddress := by
  obtain ⟨m₁, pushes₁, pushed₁, around₁, frame₁⟩ :=
    pushFrame_late late master (.inl rfl) vector sr target
  -- The second frame goes to the interrupt stack.
  obtain ⟨m₂, switches, switched⟩ : ∃ m₂, setStatus (m₁.cpu.registers.sr.set .m false) m₁ =
      (.ok (), m₂) ∧ m.Becomes
        { m.cpu.registers with
          msp := m.cpu.registers.msp - 8
          sr := m.cpu.registers.sr.set .m false &&& m.cpu.model.statusMask }
        (RamBus.bytes m₁.bus) m₂ := by
    refine ⟨_, setStatus_apply m₁ _, pushed₁.trans ⟨?_, rfl, rfl, rfl⟩⟩
    show m₁.cpu.registers.setStatus _ _ = _
    rw [pushed₁.registers, pushed₁.model]
    rfl
  have capabilities : m₂.cpu.capabilities = m.cpu.capabilities :=
    Cpu.capabilities_congr switched.model
  have interrupt : Registers.stackOf m₂.cpu.registers.sr = .interrupt := by
    rw [switched.registers, ((entry.set_m false).masked m.cpu.model).stackOf_eq,
      StatusRegister.has_masked ((Cpu.of_masterState late).2 .m), StatusRegister.has_set_self]
    rfl
  obtain ⟨m₃, pushes₃, pushed₃, around₃, frame₃⟩ := pushFrame_late (capabilities ▸ late) interrupt
    (.inr rfl) vector (sr.set .s true) target
  have becomes := switched.trans pushed₃
  rw [switched.registers] at becomes around₃
  rw [switched.model] at around₃
  refine ⟨⟨m.cpu.opcode, m.cpu.registers.ppc, vector, sr, returnAddress, none⟩, _, m₃, ?_,
    ⟨becomes, ?_, ?_, ?_, frame₃, ?_⟩, rfl, rfl, rfl⟩
  · exact (bind_ok pushes₁ _).trans ((bind_ok (status_apply m₁) _).trans
      ((bind_ok switches _).trans pushes₃))
  · rw [becomes.registers]
    exact (entry.set_m false).masked m.cpu.model
  · rw [switched.registers] at interrupt
    rw [becomes.registers]
    exact interrupt
  · intro byte outside outside'
    rw [around₃ byte outside', switched.bytes, around₁ byte outside]
  · have top : m₁.cpu.registers.sp = m.cpu.registers.msp - 8 := by
      rw [pushed₁.registers, Registers.sp, Registers.sr_setStack, master]
      rfl
    refine frame₁.kept (becomes.model.trans pushed₁.model.symm) ?_ fun byte covered => ?_
    · rw [top, Machine.withRegisters, Registers.sp, master, becomes.registers]
      rfl
    · rw [top, pushed₁.model] at covered
      exact (around₃ byte (disjoint byte covered)).trans (congrFun switched.bytes byte)

end MachineM

namespace Machine

namespace Handles

variable {m : Machine β} {vector : VectorNumber} {handler : BitVec 32}

/-- Where a handler is entered that starts with a return, the return meets the same stacks. -/
theorem enter_return (h : m.Handles vector handler) (running : m.cpu.runState = .running)
    (status : m.cpu.registers.sr.IsEntry) (cycles : Nat) {registers : Registers}
    (returns : ∀ limit m', m.IsReturning handler m' →
      ∃ m'', returnFromException (limit + 2) m' = (.ok (), m'') ∧ m''.cpu.registers = registers) :
    ∃ m', (spend cycles >>= fun _ => jumpToHandler vector) m = (.ok (), m') ∧ m'.AtReturn ∧
      m'.ReturnsTo registers := by
  obtain ⟨m₁, arrives, arrived, ready⟩ := h.arrive running status cycles
  refine ⟨m₁, arrives, ready, fun limit m' fetched => returns limit m' ⟨?_, ?_, ?_⟩⟩
  · rw [fetched.registers, arrived.registers]
  · exact fetched.model.trans arrived.model
  · exact fetched.bytes.trans arrived.bytes

/-- A frame that is pushed does not reach the handler. -/
theorem pushed {m' : Machine β} (h : m.Handles vector handler) {top : BitVec 32} {count : Nat}
    {bytes : Bytes} (becomes : m.Becomes (m.cpu.registers.setSp top) bytes m')
    (around : ∀ byte, ¬m.cpu.model.Covers top count byte →
      RamBus.bytes m'.bus byte = RamBus.bytes m.bus byte)
    (apart : ∀ byte ∈ m.cpu.handlerBytes vector handler, ¬m.cpu.model.Covers top count byte) :
    m'.Handles vector handler := by
  refine h.kept becomes.model ?_ fun byte member => around byte (apart byte member)
  rw [becomes.registers]
  exact (m.cpu.registers.sameSystem_setSp top).vbr

/-- Behind one frame, which gives back the status register. -/
theorem push_return (h : m.Handles vector handler) (running : m.cpu.runState = .running)
    (status : m.cpu.registers.sr.IsEntry) {format : FrameFormat} {top : BitVec 32}
    (room : m.HasRoom format top)
    (apart : ∀ byte ∈ m.cpu.handlerBytes vector handler,
      ¬m.cpu.model.Covers top format.words byte)
    (known : format.IsReturnable m.cpu.capabilities.frames) (last : format ≠ .format1)
    (sr : StatusRegister) {returnAddress : BitVec 32} (target : returnAddress.toNat % 2 = 0)
    (access : Option AccessFault) (cycles : Nat) :
    ∃ m', (pushFrame format vector sr returnAddress access >>= fun _ => spend cycles >>= fun _ =>
        jumpToHandler vector) m = (.ok (), m') ∧ m'.AtReturn ∧
      m'.ReturnsTo
        { m.cpu.registers with
          sr := sr &&& m.cpu.model.statusMask
          pc := returnAddress
          ppc := handler } := by
  obtain ⟨m₁, pushes, pushed, around, frame⟩ :=
    pushFrame_unwindable room known vector sr target access
  have same : (m.cpu.registers.setSp top).sr = m.cpu.registers.sr := Registers.sr_setStack _ _ _
  rw [bind_ok pushes]
  refine (h.pushed pushed around apart).enter_return (pushed.runState.trans running)
    (by rw [pushed.registers]; exact same ▸ status) cycles fun limit m' returning => ?_
  obtain ⟨m'', returns, restored⟩ := return_last (returning.unwindable frame) last (limit + 1)
  refine ⟨m'', returns, ?_⟩
  rw [restored, returning.sp, returning.registers, returning.model, pushed.registers, pushed.model,
    Registers.sp_setSp, ← room.below, BitVec.sub_add_cancel, Registers.setSp_counters,
    Registers.setSp_setSp_sp]
  rfl

/-- Behind a frame on the master stack and one on the interrupt stack that leads to it. -/
theorem pushTwice_return (h : m.Handles vector handler) (running : m.cpu.runState = .running)
    (status : m.cpu.registers.sr.IsEntry) (late : m.cpu.capabilities.masterState = true)
    (master : Registers.stackOf m.cpu.registers.sr = .master)
    (apart : ∀ byte ∈ m.cpu.handlerBytes vector handler,
      ¬m.cpu.model.Covers (m.cpu.registers.msp - 8) 4 byte ∧
        ¬m.cpu.model.Covers (m.cpu.registers.isp - 8) 4 byte)
    (disjoint : ∀ byte, m.cpu.model.Covers (m.cpu.registers.msp - 8) 4 byte →
      ¬m.cpu.model.Covers (m.cpu.registers.isp - 8) 4 byte)
    {sr : StatusRegister} (old : sr.has .m = true) {returnAddress : BitVec 32}
    (target : returnAddress.toNat % 2 = 0) (cycles : Nat) :
    ∃ m', (pushTwice vector sr returnAddress >>= fun _ => spend cycles >>= fun _ =>
        jumpToHandler vector) m = (.ok (), m') ∧ m'.AtReturn ∧
      m'.ReturnsTo
        { m.cpu.registers with
          sr := sr &&& m.cpu.model.statusMask
          pc := returnAddress
          ppc := handler } := by
  obtain ⟨inner, outer, m₁, pushes, frames, rfl, leads, rfl⟩ :=
    pushTwice_unwindable status late master disjoint vector sr target
  have handles : m₁.Handles vector handler := by
    refine h.kept frames.becomes.model ?_ fun byte member =>
      frames.around byte (apart byte member).1 (apart byte member).2
    rw [frames.becomes.registers]
  rw [bind_ok pushes]
  refine handles.enter_return (frames.becomes.runState.trans running) frames.status cycles
    fun limit m' returning => ?_
  have flags := (Cpu.of_masterState late).2
  have interrupt : Registers.stackOf m'.cpu.registers.sr = .interrupt := by
    rw [returning.registers]
    exact frames.interrupt
  have back : Registers.stackOf (outer.sr &&& m'.cpu.model.statusMask) = .master := by
    rw [returning.model, frames.becomes.model, leads, Registers.stackOf,
      StatusRegister.has_masked (flags .s), StatusRegister.has_masked (flags .m),
      StatusRegister.has_set_self, StatusRegister.has_set_of_ne _ (by decide), old]
    rfl
  have second : (m'.withRegisters (m'.cpu.registers.setStatus outer.sr
      m'.cpu.model.statusMask)).Unwindable inner .format0 := by
    refine frames.second.kept returning.model ?_ fun byte _ => congrFun returning.bytes byte
    rw [Machine.withRegisters, Machine.withRegisters, Registers.sp, Registers.sp]
    dsimp only [Registers.setStatus]
    rw [back, master, returning.registers]
    rfl
  obtain ⟨m'', returns, restored⟩ := return_twice interrupt back
    (returning.unwindable frames.first) second limit
  refine ⟨m'', returns, ?_⟩
  rw [restored, returning.registers, returning.model, frames.becomes.registers,
    frames.becomes.model]
  dsimp only
  rw [BitVec.sub_add_cancel, BitVec.sub_add_cancel]

end Handles

end Machine

end M68k
