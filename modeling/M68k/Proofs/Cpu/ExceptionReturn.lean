import M68k.Proofs.Cpu.HandlerReturn

/-!
# A return undoes an exception

An exception that is entered in a memory and returned from by the first instruction of its handler
leaves the registers as they were, apart from the program counter, which is the return address.  An
interrupt in the master state goes through two frames on two stacks.

* `Entry.return_undoes` — entering an exception and returning from it.
-/

namespace M68k

open MachineM

/-- The frames that exceptions push can be returned from, except those for failed accesses on the
first model. -/
theorem FrameFormat.isReturnable_ofVector {family : FrameFamily} {vector : VectorNumber}
    (known : family = .f68000 → isAccessVector vector = false) :
    (ofVector family vector).IsReturnable family ∧ ofVector family vector ≠ .format1 := by
  cases access : isAccessVector vector with
  | true =>
    cases family with
    | f68000 => exact nomatch (known rfl).symm.trans access
    | f68010 | f68020 | f68040 => simp [ofVector, access, IsReturnable]
  | false =>
    cases address : hasInstructionAddress vector <;> cases family <;>
      simp [ofVector, access, address, IsReturnable]

/-- Ways into a handler. -/
inductive Entry where
  /-- An interrupt of a level, whatever acknowledges it. -/
  | interrupt (level : BitVec 3)
  /-- An exception of an instruction, with the address to return to. -/
  | exception (vector : VectorNumber) (returnAddress : BitVec 32)
  /-- An access that failed. -/
  | access (vector : VectorNumber) (fault : AccessFault)

namespace Entry

/-- Whether a family has this way, such that its frame can be returned from.  The first model does
not return from failed accesses, whose vectors no other exception uses. -/
def IsPossible (family : FrameFamily) : Entry → Prop
  | interrupt _ => True
  | exception vector _ => family = .f68000 → FrameFormat.isAccessVector vector = false
  | access _ _ => family ≠ .f68000

/-- The layout of the frame with the return address. -/
def format (family : FrameFamily) : Entry → FrameFormat
  | interrupt _ => if family = .f68000 then .short else .format0
  | exception vector _ => .ofVector family vector
  | access vector _ => .ofVector family vector

theorem format_isReturnable {family : FrameFamily} {e : Entry} (possible : e.IsPossible family) :
    (e.format family).IsReturnable family ∧ e.format family ≠ .format1 := by
  cases e with
  | interrupt level =>
    show (if family = .f68000 then FrameFormat.short else .format0).IsReturnable family ∧ _ ≠ _
    cases family <;> simp [FrameFormat.IsReturnable, format]
  | exception vector returnAddress => exact FrameFormat.isReturnable_ofVector possible
  | access vector fault =>
    exact FrameFormat.isReturnable_ofVector fun early => absurd early possible

variable {β : Type}

/-- What enters the exception. -/
def action [Bus β] : Entry → MachineM β Unit
  | interrupt level => MachineM.interrupt level
  | exception vector returnAddress => enter vector returnAddress none
  | access vector fault => enterAccess vector fault

/-- The vector that is used. -/
def vector [Bus β] (m : Machine β) : Entry → VectorNumber
  | interrupt level => interruptVector level (Bus.acknowledge level m.bus).1
  | exception vector _ => vector
  | access vector _ => vector

/-- Where the handler returns to: behind what was executed, or to the instruction whose access
failed. -/
def returnAddress (m : Machine β) : Entry → BitVec 32
  | interrupt _ => m.cpu.registers.pc
  | exception _ returnAddress => returnAddress
  | access _ _ => m.cpu.registers.ppc

/-- Whether a second frame is written. -/
def pushesTwice (m : Machine β) : Entry → Bool
  | interrupt _ => m.cpu.capabilities.masterState && m.supervised.cpu.registers.isMaster
  | _ => false

/-- The frame with the return address, as the address of its first word and the number of its
words. -/
def frame (m : Machine β) (e : Entry) : BitVec 32 × Nat :=
  let words := (e.format m.cpu.capabilities.frames).words
  (m.supervised.cpu.registers.sp - BitVec.ofNat 32 (2 * words), words)

/-- All frames that are written. -/
def frames (m : Machine β) (e : Entry) : List (BitVec 32 × Nat) :=
  e.frame m :: if e.pushesTwice m then [(m.cpu.registers.isp - 8, 4)] else []

/-- The two words of each return address are next to each other on the bus. -/
def Contiguous (m : Machine β) (e : Entry) : Prop :=
  ∀ frame ∈ e.frames m, m.cpu.model.place (frame.1 + 2) + 2 = m.cpu.model.place (frame.1 + 4)

/-- With 32 address lines they always are. -/
theorem contiguous_of_lines {m : Machine β}
    (lines : m.cpu.model.capabilities.addressBus32 = true) (e : Entry) : e.Contiguous m := by
  intro frame _
  rw [Model.place_of_lines lines, Model.place_of_lines lines, BitVec.add_assoc]
  rfl

theorem frame_mem_frames (m : Machine β) (e : Entry) : e.frame m ∈ e.frames m :=
  List.mem_cons_self

variable [RamBus β]

/-- What an entry needs for its return: the stack, the handler and the return address are where they
can be reached, and the frames overlap neither each other nor the entry of the vector table nor the
return in the handler. -/
structure Fits (e : Entry) (m : Machine β) (handler : BitVec 32) : Prop where
  possible : e.IsPossible m.cpu.capabilities.frames
  target : (e.returnAddress m).toNat % 2 = 0
  stack : m.cpu.model.capabilities.misalignedData = false → m.cpu.registers.isp.toNat % 2 = 0
  handles : m.Handles (e.vector m) handler
  apart : ∀ frame ∈ e.frames m, ∀ byte ∈ m.cpu.handlerBytes (e.vector m) handler,
    ¬m.cpu.model.Covers frame.1 frame.2 byte
  disjoint : (e.frames m).Pairwise fun frame other =>
    ∀ byte, m.cpu.model.Covers frame.1 frame.2 byte → ¬m.cpu.model.Covers other.1 other.2 byte
end Entry

namespace StatusRegister

/-- The interrupt mask is apart from the flags that select the mode. -/
theorem has_setInterruptMask (sr : StatusRegister) (level : BitVec 3) {flag : Flag}
    (system : 11 ≤ flag.position) : (sr.setInterruptMask level).has flag = sr.has flag := by
  cases flag <;> first
    | exact absurd system (by decide)
    | simp [has, setInterruptMask, Flag.position]

theorem isMaster_entryStatus (sr : StatusRegister) : sr.entryStatus.has .m = sr.has .m := by
  rw [entryStatus, has_set_of_ne _ (by decide), has_set_of_ne _ (by decide),
    has_set_of_ne _ (by decide)]

end StatusRegister

namespace Machine

variable {β : Type}

/-- The early models have one stack for supervisor mode. -/
theorem sp_supervised_of_early {m : Machine β}
    (early : m.cpu.model.capabilities.misalignedData = false) :
    m.supervised.cpu.registers.sp = m.cpu.registers.isp := by
  have state : m.supervised.cpu.registers.sr.has .m = false := by
    have masked : m.cpu.model.statusMask.has .m = false := by
      generalize m.cpu.model = model at early
      cases model <;> first | rfl | exact nomatch early
    rw [m.sr_supervised, StatusRegister.has, BitVec.getLsbD_and, ← StatusRegister.has,
      ← StatusRegister.has, masked, Bool.and_false]
  rw [Registers.sp, m.isEntry_supervised.stackOf_eq, state]
  rfl

theorem stackOf_supervised (m : Machine β) (master : m.supervised.cpu.registers.isMaster = true) :
    Registers.stackOf m.supervised.cpu.registers.sr = .master := by
  rw [m.isEntry_supervised.stackOf_eq]
  exact if_pos master

variable [Bus β]

/-- The machine when an interrupt was acknowledged and has switched to supervisor mode. -/
def acknowledged (m : Machine β) (level : BitVec 3) : Machine β :=
  ⟨{ m.supervised.cpu with
      registers := m.supervised.cpu.registers.setInterruptMask level },
    (Bus.acknowledge level m.bus).2⟩

theorem isEntry_acknowledged (m : Machine β) (level : BitVec 3) :
    (m.acknowledged level).cpu.registers.sr.IsEntry := by
  have entry := m.isEntry_supervised
  exact ⟨(StatusRegister.has_setInterruptMask _ level (by decide)).trans entry.1,
    (StatusRegister.has_setInterruptMask _ level (by decide)).trans entry.2.1,
    (StatusRegister.has_setInterruptMask _ level (by decide)).trans entry.2.2⟩

theorem isMaster_acknowledged (m : Machine β) (level : BitVec 3) :
    (m.acknowledged level).cpu.registers.isMaster = m.supervised.cpu.registers.isMaster :=
  StatusRegister.has_setInterruptMask _ level (by decide)

/-- An interrupt uses the same stack as any other exception. -/
theorem stackOf_acknowledged (m : Machine β) (level : BitVec 3) :
    Registers.stackOf (m.acknowledged level).cpu.registers.sr =
      Registers.stackOf m.supervised.cpu.registers.sr := by
  have master := m.isMaster_acknowledged level
  unfold Registers.isMaster at master
  rw [(m.isEntry_acknowledged level).stackOf_eq, m.isEntry_supervised.stackOf_eq, master]

theorem sp_acknowledged (m : Machine β) (level : BitVec 3) :
    (m.acknowledged level).cpu.registers.sp = m.supervised.cpu.registers.sp := by
  rw [Registers.sp, Registers.sp, m.stackOf_acknowledged level]
  cases Registers.stackOf m.supervised.cpu.registers.sr <;> rfl

end Machine

namespace MachineM

variable {β : Type} [Bus β]

theorem interrupt_apply (level : BitVec 3) (m : Machine β) :
    interrupt level m =
      (pushFrame (if m.cpu.capabilities.frames = .f68000 then .short else .format0)
          (interruptVector level (Bus.acknowledge level m.bus).1) m.cpu.registers.sr
          m.cpu.registers.pc none >>= fun _ =>
        if m.cpu.capabilities.masterState && (m.acknowledged level).cpu.registers.isMaster then
          status >>= fun sr => setStatus (sr.set .m false) >>= fun _ =>
            pushFrame .format1 (interruptVector level (Bus.acknowledge level m.bus).1)
              (m.cpu.registers.sr.set .s true) m.cpu.registers.pc none >>= fun _ =>
            spend Timing.interrupt >>= fun _ =>
            jumpToHandler (interruptVector level (Bus.acknowledge level m.bus).1)
        else
          spend Timing.interrupt >>= fun _ =>
          jumpToHandler (interruptVector level (Bus.acknowledge level m.bus).1))
        (m.acknowledged level) :=
  rfl

/-- Where no second frame is written, an interrupt pushes one like other exceptions. -/
theorem interrupt_apply_of_single {level : BitVec 3} {m : Machine β}
    (single : (Entry.interrupt level).pushesTwice m = false) :
    interrupt level m =
      (pushFrame ((Entry.interrupt level).format m.cpu.capabilities.frames)
          ((Entry.interrupt level).vector m) m.cpu.registers.sr m.cpu.registers.pc none >>= fun _ =>
        spend Timing.interrupt >>= fun _ => jumpToHandler ((Entry.interrupt level).vector m))
        (m.acknowledged level) := by
  rw [interrupt_apply, m.isMaster_acknowledged level]
  refine congrFun (bind_congr fun _ => if_neg ?_) _
  rw [show (_ && _) = false from single]
  exact Bool.false_ne_true

/-- In the master state it pushes two. -/
theorem interrupt_apply_of_twice {level : BitVec 3} {m : Machine β}
    (twice : (Entry.interrupt level).pushesTwice m = true) :
    interrupt level m =
      (pushTwice ((Entry.interrupt level).vector m) m.cpu.registers.sr m.cpu.registers.pc >>=
        fun _ => spend Timing.interrupt >>= fun _ =>
        jumpToHandler ((Entry.interrupt level).vector m)) (m.acknowledged level) := by
  have late : m.cpu.capabilities.frames ≠ .f68000 :=
    (Cpu.of_masterState (Bool.and_eq_true_iff.mp twice).1).1
  rw [interrupt_apply, m.isMaster_acknowledged level, if_neg late, pushTwice]
  simp only [bind_assoc]
  exact congrFun (bind_congr fun _ => if_pos twice) _

end MachineM

namespace Entry

variable {β : Type} [RamBus β] {m : Machine β} {handler : BitVec 32}

/-- What the frames, the handler and the registers of an entry come to. -/
def Undoes (e : Entry) (m : Machine β) (handler : BitVec 32) (m' : Machine β) : Prop :=
  m'.AtReturn ∧ m'.ReturnsTo
    { m.cpu.registers with
      sr := m.cpu.registers.sr &&& m.cpu.model.statusMask
      pc := e.returnAddress m
      ppc := handler }

theorem Fits.room {e : Entry} (fits : e.Fits m handler) (contiguous : e.Contiguous m) :
    m.supervised.HasRoom (e.format m.cpu.capabilities.frames) (e.frame m).1 := by
  refine ⟨rfl, fun early => ?_, contiguous _ (e.frame_mem_frames m)⟩
  have even := fits.stack early
  have words := (e.format m.cpu.capabilities.frames).words_le
  rw [frame, Machine.sp_supervised_of_early (m := m) early, BitVec.toNat_sub, BitVec.toNat_ofNat]
  omega

/-- An exception other than an interrupt. -/
theorem enter_undoes {e : Entry} (fits : e.Fits m handler) (contiguous : e.Contiguous m)
    (access : Option AccessFault)
    (format : e.format m.cpu.capabilities.frames =
      .ofVector m.cpu.capabilities.frames (e.vector m)) :
    ∃ m', enter (e.vector m) (e.returnAddress m) access m = (.ok (), m') ∧
      e.Undoes m handler m' := by
  have handles : m.supervised.Handles (e.vector m) handler :=
    fits.handles.kept rfl rfl fun _ _ => rfl
  obtain ⟨known, last⟩ := format_isReturnable fits.possible
  rw [enter_apply, ← format]
  exact handles.push_return rfl m.isEntry_supervised (fits.room contiguous)
    (fits.apart _ (e.frame_mem_frames m)) known last m.cpu.registers.sr fits.target access _

omit [RamBus β] in
/-- In the master state one frame is on each stack for supervisor mode. -/
theorem frames_of_twice {level : BitVec 3} (twice : (interrupt level).pushesTwice m = true) :
    (interrupt level).frames m =
      [(m.cpu.registers.msp - 8, 4), (m.cpu.registers.isp - 8, 4)] := by
  obtain ⟨late, master⟩ := Bool.and_eq_true_iff.mp twice
  have sp : m.supervised.cpu.registers.sp = m.cpu.registers.msp := by
    rw [Registers.sp, m.stackOf_supervised master]
    rfl
  have format : (interrupt level).format m.cpu.capabilities.frames = .format0 :=
    if_neg (Cpu.of_masterState late).1
  rw [frames, if_pos twice, frame, format, sp]
  rfl

/-- An interrupt. -/
theorem interrupt_undoes {level : BitVec 3} (fits : (interrupt level).Fits m handler)
    (contiguous : (interrupt level).Contiguous m) :
    ∃ m', MachineM.interrupt level m = (.ok (), m') ∧
      (Entry.interrupt level).Undoes m handler m' := by
  have handles : (m.acknowledged level).Handles ((Entry.interrupt level).vector m) handler :=
    fits.handles.kept rfl rfl fun byte _ => congrFun (RamBus.bytes_acknowledge level m.bus) byte
  have entry := m.isEntry_acknowledged level
  cases twice : (Entry.interrupt level).pushesTwice m with
  | false =>
    obtain ⟨known, last⟩ := format_isReturnable fits.possible
    have room := fits.room contiguous
    rw [interrupt_apply_of_single twice]
    exact handles.push_return rfl entry
      ⟨congrArg (· - _) (m.sp_acknowledged level), room.even, room.adjacent⟩
      (fits.apart _ (frame_mem_frames m _)) known last m.cpu.registers.sr fits.target none _
  | true =>
    obtain ⟨late, master⟩ := Bool.and_eq_true_iff.mp twice
    have stack := (m.stackOf_acknowledged level).trans (m.stackOf_supervised master)
    have old : m.cpu.registers.sr.has .m = true := by
      have kept := StatusRegister.has_masked ((Cpu.of_masterState late).2 .m)
        m.cpu.registers.sr.entryStatus
      rw [← m.cpu.registers.sr.isMaster_entryStatus, ← kept, ← m.sr_supervised]
      exact master
    have apart := fits.apart
    have disjoint := fits.disjoint
    rw [frames_of_twice twice] at apart disjoint
    rw [interrupt_apply_of_twice twice]
    exact handles.pushTwice_return rfl entry late stack
      (fun byte member => ⟨apart _ List.mem_cons_self byte member,
        apart _ (List.mem_cons_of_mem _ List.mem_cons_self) byte member⟩)
      (List.pairwise_pair.mp disjoint) old fits.target _

/-- **A return undoes an exception.**  Entering an exception in a memory leads to its handler, and
if that starts with a return and no interrupt comes in between, the return gives back all registers
but the program counter, which becomes the return address of the exception.  In between, the
handling of a failed access may have come to any stage. -/
theorem return_undoes (host : Fpu.HostMath) (m : Machine β) (e : Entry)
    (fits : e.Fits m handler) (contiguous : e.Contiguous m) :
    ∃ m', e.action m = (.ok (), m') ∧
      ∀ stage, takesInterrupt m'.cpu ((Bus.interruptLevel m'.bus).1.setWidth 3) = false →
        ∃ cycles m'', (Handling.atStage stage m').charged.execute host = (.ok cycles, m'') ∧
          m''.cpu.registers =
            { m.cpu.registers with
              sr := m.cpu.registers.sr &&& m.cpu.model.statusMask
              pc := e.returnAddress m
              ppc := handler } := by
  have enters : ∃ m', e.action m = (.ok (), m') ∧ e.Undoes m handler m' := by
    cases e with
    | interrupt level => exact interrupt_undoes fits contiguous
    | exception vector returnAddress => exact enter_undoes fits contiguous none rfl
    | access vector fault =>
      have late : m.cpu.capabilities.frames ≠ .f68000 := fits.possible
      rw [action, enterAccess_apply, if_neg late]
      exact enter_undoes fits contiguous (some fault) rfl
  obtain ⟨m', acts, ready, returns⟩ := enters
  refine ⟨m', acts, fun stage quiet => ?_⟩
  have same : (Handling.atStage stage m').charged.AtReturn :=
    ⟨ready.running, ready.status, ready.fresh, ready.even, ready.opcode⟩
  exact same.execute (fun limit m'' h => returns limit m'' ⟨h.registers, h.model, h.bytes⟩) host
    quiet

/-- A processor in the master state, and a handler at 3000 for an interrupt of level 3. -/
def interruptible : Machine Bytes where
  cpu := { Cpu.new .m68020 with
    registers :=
      { Registers.initial with isp := 0x1000, msp := 0x2000, pc := 0x4000, sr := 0x3000 } }
  bus address :=
    match address.toNat with
    | 0x6E => 0x30
    | 0x3000 => 0x4E
    | 0x3001 => 0x73
    | _ => 0

theorem fits_interruptible : (interrupt 3).Fits interruptible 0x3000 := by
  have frames : (interrupt 3).frames interruptible = [(0x1FF8, 4), (0xFF8, 4)] := by decide
  have bytes : interruptible.cpu.handlerBytes ((interrupt 3).vector interruptible) 0x3000 =
      [0x6C, 0x6D, 0x6E, 0x6F, 0x3000, 0x3001] := by decide
  refine ⟨trivial, rfl, fun _ => rfl, ⟨fun _ => rfl, rfl, by decide, rfl, rfl⟩, ?_, ?_⟩
  · rw [frames, bytes]
    simp only [List.forall_mem_cons, List.not_mem_nil, false_imp_iff, implies_true]
    decide
  · have apart : ∀ i < 4, ¬Model.Covers .m68020 0xFF8 4 (0x1FF8 + BitVec.ofNat 32 (2 * i)) ∧
        ¬Model.Covers .m68020 0xFF8 4 (0x1FF8 + BitVec.ofNat 32 (2 * i) + 1) := by
      decide
    rw [frames, List.pairwise_pair]
    rintro byte ⟨i, hi, covered⟩
    rw [Model.place_of_lines rfl] at covered
    rcases covered with rfl | rfl
    · exact (apart i hi).1
    · exact (apart i hi).2

/-- The interrupt of a master goes through both of its stacks and leaves them as they were. -/
theorem return_undoes_interruptible :
    (interrupt 3).Fits interruptible 0x3000 ∧
      ∃ m', MachineM.interrupt 3 interruptible = (.ok (), m') ∧
        takesInterrupt m'.cpu ((Bus.interruptLevel m'.bus).1.setWidth 3) = false ∧
        ∃ cycles m'', m'.charged.execute .native = (.ok cycles, m'') ∧
          m''.cpu.registers = { interruptible.cpu.registers with ppc := 0x3000 } := by
  obtain ⟨m', enters, returns⟩ := return_undoes .native interruptible (interrupt 3)
    fits_interruptible (contiguous_of_lines rfl _)
  have quiet : takesInterrupt m'.cpu ((Bus.interruptLevel m'.bus).1.setWidth 3) = false := by
    show (decide (_ < 0) || decide ((0 : BitVec 3) = 7 ∧ _)) = false
    simp
  obtain ⟨cycles, m'', executes, registers⟩ := returns m'.cpu.faultState quiet
  exact ⟨fits_interruptible, m', enters, quiet, cycles, m'', executes, registers⟩

/-- A 68010 behind a trap at 2000, and the handler of two traps at 3000. -/
def trapping (isp vbr : BitVec 32) : Machine Bytes where
  cpu := { Cpu.new .m68010 with
    registers := { Registers.initial with isp, pc := 0x2002, ppc := 0x2000, vbr } }
  bus address :=
    match address.toNat with
    | 0x1082 => 0x30
    | 0x1087 => 0x30
    | 0x3000 => 0x4E
    | 0x3001 => 0x73
    | _ => 0

/-- Where the two words of the return address go to both ends of memory, the return does not find
the second one, and with a vector table at an odd address the handler is not entered. -/
theorem trapping_not_undone :
    ((exception (.trap 0) 0x2002).Fits (trapping 4 0x1000) 0x3000 ∧
      ∃ m', (exception (.trap 0) 0x2002).action (trapping 4 0x1000) = (.ok (), m') ∧
        takesInterrupt m'.cpu ((Bus.interruptLevel m'.bus).1.setWidth 3) = false ∧
        ∃ cycles m'', m'.charged.execute .native = (.ok cycles, m'') ∧
          m''.cpu.registers.pc ≠ 0x2002) ∧
      (trapping 0x2000 0x1001).bus.long ((trapping 0x2000 0x1001).cpu.vectorPlace (.trap 1)) =
          0x3000 ∧
        ((exception (.trap 1) 0x2002).action (trapping 0x2000 0x1001)).1 ≠ .ok () := by
  have frames : (exception (.trap 0) 0x2002).frames (trapping 4 0x1000) = [(0xFFFFFFFC, 4)] := by
    decide
  have bytes : (trapping 4 0x1000).cpu.handlerBytes (.trap 0) 0x3000 =
      [0x1080, 0x1081, 0x1082, 0x1083, 0x3000, 0x3001] := by decide
  refine ⟨⟨⟨fun _ => rfl, rfl, fun _ => rfl, ⟨fun _ => rfl, rfl, by decide, rfl, rfl⟩, ?_, ?_⟩,
    (enter (.trap 0) 0x2002 none (trapping 4 0x1000)).2, rfl, rfl, 20, _, rfl, ?_⟩, rfl, ?_⟩
  · show ∀ frame ∈ _, ∀ byte ∈ (trapping 4 0x1000).cpu.handlerBytes (.trap 0) 0x3000, _
    rw [frames, bytes]
    simp only [List.forall_mem_cons, List.not_mem_nil, false_imp_iff, implies_true]
    decide
  · rw [frames]
    exact List.pairwise_singleton _ _
  · show (0 : BitVec 32) ≠ 0x2002
    decide
  · show Except.error _ ≠ Except.ok ()
    exact fun same => nomatch same

end Entry

end M68k
