import M68k.Cpu.Operand
import M68k.Proofs.Cpu.Action
import M68k.Proofs.Fpu.Change

/-!
# What instructions are composed of

`Composed` says that an action is put together from elementary ones: it computes, reads and writes
memory in the current mode, changes registers that belong to every program, and may end in an
exception.  What more it may do is in its `Grant`.  What is privileged it may always do behind a
test for supervisor mode.

A property that holds of the elementary actions and survives sequencing is shown once, by induction
on `Composed`, and then holds of every instruction.  The actions that find, read and write operands
are composed in this sense, whatever is granted.
-/

namespace M68k

/-- Two register files that agree in what only supervisors can change, and in the program
counters. -/
structure Registers.SameSystem (r r' : Registers) : Prop where
  system : r'.sr &&& ~~~StatusRegister.codeMask = r.sr &&& ~~~StatusRegister.codeMask
  /-- Of the stack pointers only the one in use can change. -/
  stack : ∀ which, which ≠ Registers.stackOf r.sr → r'.stack which = r.stack which
  pc : r'.pc = r.pc
  ppc : r'.ppc = r.ppc
  vbr : r'.vbr = r.vbr
  sfc : r'.sfc = r.sfc
  dfc : r'.dfc = r.dfc
  cacr : r'.cacr = r.cacr
  caar : r'.caar = r.caar

namespace Registers

variable (r : Registers)

/-- A flag outside the condition codes is among the bits that stay. -/
theorem has_of_system {sr sr' : StatusRegister}
    (h : sr' &&& ~~~StatusRegister.codeMask = sr &&& ~~~StatusRegister.codeMask) (flag : Flag)
    (system : 5 ≤ flag.position) : sr'.has flag = sr.has flag := by
  have bit := congrArg (fun word : BitVec 16 => word.getLsbD flag.position) h
  have outside : (~~~StatusRegister.codeMask).getLsbD flag.position = true := by
    cases flag <;> first | rfl | simp [Flag.position] at system
  simpa [outside, StatusRegister.has, -BitVec.getLsbD_not] using bit

theorem SameSystem.has {r r' : Registers} (h : r.SameSystem r') (flag : Flag)
    (system : 5 ≤ flag.position) : r'.sr.has flag = r.sr.has flag :=
  has_of_system h.system flag system

theorem SameSystem.stackOf_eq {r r' : Registers} (h : r.SameSystem r') :
    stackOf r'.sr = stackOf r.sr := by
  simp only [stackOf, h.has .s (by decide), h.has .m (by decide)]

theorem SameSystem.trans {r r' r'' : Registers} (h : r.SameSystem r') (h' : r'.SameSystem r'') :
    r.SameSystem r'' where
  system := h'.system.trans h.system
  stack which other := by
    rw [h'.stack which (by rwa [h.stackOf_eq]), h.stack which other]
  pc := h'.pc.trans h.pc
  ppc := h'.ppc.trans h.ppc
  vbr := h'.vbr.trans h.vbr
  sfc := h'.sfc.trans h.sfc
  dfc := h'.dfc.trans h.dfc
  cacr := h'.cacr.trans h.cacr
  caar := h'.caar.trans h.caar

theorem sameSystem_setData (n : RegisterNumber) (value : BitVec 32) :
    r.SameSystem (r.setData n value) :=
  ⟨rfl, fun which _ => by cases which <;> rfl, rfl, rfl, rfl, rfl, rfl, rfl, rfl⟩

theorem sameSystem_setSp (value : BitVec 32) : r.SameSystem (r.setSp value) := by
  unfold setSp
  generalize hused : stackOf r.sr = used
  refine ⟨by rw [sr_setStack], fun which other => ?_, ?_, ?_, ?_, ?_, ?_, ?_, ?_⟩
  · rw [hused] at other
    cases used <;> cases which <;> first | rfl | exact absurd rfl other
  all_goals cases used <;> rfl

theorem sameSystem_setAddress (n : RegisterNumber) (value : BitVec 32) :
    r.SameSystem (r.setAddress n value) := by
  unfold setAddress
  split
  · exact ⟨rfl, fun which _ => by cases which <;> rfl, rfl, rfl, rfl, rfl, rfl, rfl, rfl⟩
  · exact sameSystem_setSp r value

theorem sameSystem_setGeneral (n : GeneralRegister) (value : BitVec 32) :
    r.SameSystem (r.setGeneral n value) := by
  unfold setGeneral
  split
  · exact sameSystem_setData r _ value
  · exact sameSystem_setAddress r _ value

theorem sameSystem_setCodes (codes : StatusRegister) : r.SameSystem (r.setCodes codes) := by
  refine ⟨?_, fun which _ => by cases which <;> rfl, rfl, rfl, rfl, rfl, rfl, rfl, rfl⟩
  show ((r.sr &&& ~~~_) ||| (codes &&& _)) &&& ~~~_ = _
  ext i hi
  simp only [BitVec.getElem_and, BitVec.getElem_or, BitVec.getElem_not]
  cases StatusRegister.codeMask[i] <;> simp

end Registers

/-- What a supervisor's change of the registers respects: no bit that the model lacks gets into the
status register, and the cache control register stays or is cut to its bits. -/
structure Registers.KeepsMasks (model : Model) (r r' : Registers) : Prop where
  status : Within model.statusMask r.sr → Within model.statusMask r'.sr
  cacr : r'.cacr = r.cacr ∨ Within model.cacheControlMask r'.cacr

/-- Every model has the condition codes. -/
theorem Registers.SameSystem.keepsMasks {r r' : Registers} (h : r.SameSystem r') (model : Model) :
    r.KeepsMasks model r' := by
  refine ⟨fun within => ?_, .inl h.cacr⟩
  have parts : r'.sr =
      (r.sr &&& ~~~StatusRegister.codeMask) ||| (r'.sr &&& StatusRegister.codeMask) := by
    rw [← h.system]
    exact r'.sr.setCodes_self.symm
  rw [parts]
  exact (within.and _).or ((Within.cut _ _).mono model.codeMask_and_statusMask)

/-- What the processor notes about the course of the instructions. -/
structure Cpu.Notes where
  ppc : BitVec 32
  opcode : BitVec 16
  faultState : FaultState
  lastLevel : BitVec 3
  flowChanged : Bool
  cycles : Nat

/-- What the processor has noted. -/
def Cpu.notes (c : Cpu) : Notes where
  ppc := c.registers.ppc
  opcode := c.opcode
  faultState := c.faultState
  lastLevel := c.lastLevel
  flowChanged := c.flowChanged
  cycles := c.cycles

/-- The processor with other notes. -/
def Cpu.noted (c : Cpu) (notes : Notes) : Cpu :=
  { c with
    registers := { c.registers with ppc := notes.ppc }
    opcode := notes.opcode
    faultState := notes.faultState
    lastLevel := notes.lastLevel
    flowChanged := notes.flowChanged
    cycles := notes.cycles }

namespace MachineM

variable {β α : Type}

/-- Lets the floating-point unit do something; where it has no answer, that is an exception. -/
def onUnit (vector : VectorNumber) (change : Fpu → Option (α × Fpu)) : MachineM β α := do
  match change (← Execution.unit) with
  | some (a, fpu) => do
    Execution.setUnit fpu
    return a
  | none => throw (.exception vector)

theorem unit_apply (m : Machine β) :
    Execution.unit m = match m.cpu.fpu with
      | some fpu => (.ok fpu, m)
      | none => (.error (.exception .lineF), m) := by
  unfold Execution.unit
  rw [bind_ok (cpu_apply m)]
  cases m.cpu.fpu <;> rfl

theorem onUnit_apply (vector : VectorNumber) (change : Fpu → Option (α × Fpu)) (m : Machine β) :
    onUnit vector change m =
      match m.cpu.fpu with
      | none => (.error (.exception .lineF), m)
      | some fpu =>
        match change fpu with
        | some (a, fpu') => (.ok a, { m with cpu := { m.cpu with fpu := some fpu' } })
        | none => (.error (.exception vector), m) := by
  unfold onUnit
  rw [bind_apply, unit_apply]
  cases m.cpu.fpu with
  | none => rfl
  | some fpu =>
    dsimp only
    cases change fpu <;> rfl

end MachineM

/-- An action on machines with any bus. -/
abbrev Action (α : Type) := (β : Type) → [Bus β] → MachineM β α

/-- What an action may do besides what is open to every program. -/
structure Grant where
  /-- What is reserved to supervisors. -/
  privileged : Bool
  /-- Loading registers of the floating-point unit, which does not count as using it. -/
  loads : Bool
  /-- Giving up a return from an exception. -/
  unwinds : Bool
  /-- Notes about the course of the instructions, and a look at the interrupt lines. -/
  notes : Bool

/-- An action on a processor of some model that is composed of elementary ones.  None of them knows
which bus there is, or whether a word was read ahead. -/
inductive Composed (model : Model) : Grant → {α : Type} → Action α → Prop where
  | pure (a : α) : Composed model grant fun _ _ => Pure.pure a
  | bind {x : Action α} {f : α → Action γ} (first : Composed model grant x)
      (rest : ∀ a, Composed model grant (f a)) :
      Composed model grant fun β _ => x β >>= fun a => f a β
  | exception (vector : VectorNumber) :
      Composed model grant fun β _ => (throw (.exception vector) : MachineM β α)
  | trap (vector : VectorNumber) :
      Composed model grant fun β _ => (throw (.trap vector) : MachineM β α)
  | cpu {f : Cpu → Action α}
      (blind : ∀ c (β : Type) [Bus β], f (c.setPrefetch false) β = f c β)
      (rest : ∀ c, c.model = model → Composed model grant (f c)) :
      Composed model grant fun β _ => MachineM.cpu >>= fun c => f c β
  | spend (cycles : Nat) : Composed model grant fun _ _ => MachineM.spend cycles
  | modifyRegisters {change : Registers → Registers}
      (same : ∀ r : Registers, r.SameSystem (change r)) :
      Composed model grant fun _ _ => MachineM.modifyRegisters change
  | onUnit (vector : VectorNumber) {change : Fpu → Option (α × Fpu)}
      (changes : ∀ fpu a fpu', change fpu = some (a, fpu') → fpu.Change grant.loads fpu') :
      Composed model grant fun _ _ => MachineM.onUnit vector change
  | read (size : Size) (address : BitVec 32) :
      Composed model grant fun _ _ => MachineM.read size address
  | readProgram (size : Size) (address : BitVec 32) :
      Composed model grant fun _ _ => do
        MachineM.readIn (← MachineM.cpu).programCode size address
  | write (size : Size) (address value : BitVec 32) :
      Composed model grant fun _ _ => MachineM.write size address value
  | fetch : Composed model grant fun _ _ => MachineM.fetch
  | jump (target : BitVec 32) : Composed model grant fun _ _ => MachineM.jump target
  | askIllegal (opcode : BitVec 16) :
      Composed model grant fun _ _ => MachineM.onBus (Bus.illegal opcode)
  | requireSupervisor : Composed model grant fun _ _ => MachineM.requireSupervisor
  | guarded {f : Unit → Action α}
      (rest : ∀ u, Composed model { grant with privileged := true } (f u)) :
      Composed model grant fun β _ => MachineM.requireSupervisor >>= fun u => f u β
  -- what is privileged
  | setStatus (value : StatusRegister) (may : grant.privileged = true) :
      Composed model grant fun _ _ => MachineM.setStatus value
  | control (may : grant.privileged = true) {change : Registers → Registers}
      (keeps : ∀ r : Registers, r.KeepsMasks model (change r)) :
      Composed model grant fun _ _ => MachineM.modifyRegisters change
  | readIn (space : FunctionCode) (size : Size) (address : BitVec 32)
      (may : grant.privileged = true) :
      Composed model grant fun _ _ => MachineM.readIn space size address
  | writeIn (space : FunctionCode) (size : Size) (address value : BitVec 32)
      (may : grant.privileged = true) :
      Composed model grant fun _ _ => MachineM.writeIn space size address value
  | setRunState (state : RunState) (active : state ≠ .halted) (may : grant.privileged = true) :
      Composed model grant fun _ _ => MachineM.modifyCpu fun c => { c with runState := state }
  | acknowledge (level : BitVec 3) (may : grant.privileged = true) :
      Composed model grant fun _ _ => MachineM.onBus (Bus.acknowledge level)
  | resetLine (may : grant.privileged = true) :
      Composed model grant fun _ _ => MachineM.onBus fun b => ((), Bus.reset b)
  -- what is not a matter of single instructions
  | unfinished (may : grant.unwinds = true) :
      Composed model grant fun β _ => (throw .unfinished : MachineM β α)
  | askLevel (may : grant.notes = true) :
      Composed model grant fun _ _ => MachineM.onBus Bus.interruptLevel
  | note (notes : Cpu → Cpu.Notes) (blind : ∀ c : Cpu, notes (c.setPrefetch false) = notes c)
      (may : grant.notes = true) :
      Composed model grant fun _ _ => MachineM.modifyCpu fun c => c.noted (notes c)

namespace Composed

variable {α γ : Type} {model : Model} {grant : Grant}

theorem ite {c : Prop} [Decidable c] {x y : Action α} (yes : Composed model grant x)
    (no : Composed model grant y) : Composed model grant fun β _ => if c then x β else y β := by
  split
  · exact yes
  · exact no

theorem map {x : Action α} (f : α → γ) (h : Composed model grant x) :
    Composed model grant fun β _ => f <$> x β := by
  simp only [map_eq_pure_bind]
  exact .bind h fun a => .pure (f a)

theorem foldlM {f : γ → α → Action γ} (step : ∀ c a, Composed model grant (f c a))
    (list : List α) (start : γ) :
    Composed model grant fun β _ => list.foldlM (fun c a => f c a β) start := by
  induction list generalizing start with
  | nil => exact .pure start
  | cons a rest ih => exact .bind (step start a) fun next => ih next

theorem forM {f : α → Action Unit} (step : ∀ a, Composed model grant (f a)) (list : List α) :
    Composed model grant fun β _ => list.forM fun a => f a β := by
  induction list with
  | nil => exact .pure ()
  | cons a rest ih => exact .bind (step a) fun _ => ih

/-! ## Reading and writing registers -/

theorem registers : Composed model grant fun _ _ => MachineM.registers :=
  .cpu (fun _ _ _ => rfl) fun c _ => .pure c.registers

theorem capabilities : Composed model grant fun _ _ => MachineM.capabilities :=
  .cpu (fun _ _ _ => rfl) fun c _ => .pure c.capabilities

theorem status : Composed model grant fun _ _ => MachineM.status :=
  .bind registers fun r => .pure r.sr

theorem data (r : RegisterNumber) : Composed model grant fun _ _ => MachineM.data r :=
  .bind registers fun rs => .pure (rs.data r)

theorem address (r : RegisterNumber) : Composed model grant fun _ _ => MachineM.address r :=
  .bind registers fun rs => .pure (rs.address r)

theorem sp : Composed model grant fun _ _ => MachineM.sp :=
  .bind registers fun rs => .pure rs.sp

theorem pc : Composed model grant fun _ _ => MachineM.pc :=
  .bind registers fun rs => .pure rs.pc

theorem setData (r : RegisterNumber) (value : BitVec 32) :
    Composed model grant fun _ _ => MachineM.setData r value :=
  .modifyRegisters fun rs => rs.sameSystem_setData r value

theorem setAddress (r : RegisterNumber) (value : BitVec 32) :
    Composed model grant fun _ _ => MachineM.setAddress r value :=
  .modifyRegisters fun rs => rs.sameSystem_setAddress r value

theorem setSp (value : BitVec 32) : Composed model grant fun _ _ => MachineM.setSp value :=
  .modifyRegisters fun rs => rs.sameSystem_setSp value

theorem setCodes (codes : StatusRegister) :
    Composed model grant fun _ _ => MachineM.setCodes codes :=
  .modifyRegisters fun rs => rs.sameSystem_setCodes codes

/-- The condition codes are made from what they are. -/
theorem updateCodes (codes : StatusRegister → StatusRegister) :
    Composed model grant fun _ _ => MachineM.status >>= fun sr => MachineM.setCodes (codes sr) :=
  .bind status fun sr => setCodes (codes sr)

theorem updateCodesThen (codes : StatusRegister → StatusRegister) {x : Action α}
    (rest : Composed model grant x) :
    Composed model grant fun β _ =>
      MachineM.status >>= fun sr => MachineM.setCodes (codes sr) >>= fun _ => x β := by
  refine .bind status fun sr => ?_
  exact .bind (setCodes (codes sr)) fun _ => rest

/-! ## The stack -/

theorem push (size : Size) (value : BitVec 32) :
    Composed model grant fun _ _ => MachineM.push size value := by
  refine .bind sp fun top => ?_
  refine .bind (.write size _ value) fun _ => ?_
  exact setSp _

theorem pop (size : Size) : Composed model grant fun _ _ => MachineM.pop size := by
  refine .bind sp fun top => ?_
  refine .bind (.read size top) fun value => ?_
  exact .bind (setSp _) fun _ => .pure value

/-! ## Operands -/

theorem fetchSigned : Composed model grant fun _ _ => MachineM.fetchSigned :=
  .bind .fetch fun _ => .pure _

theorem fetchLong : Composed model grant fun _ _ => MachineM.fetchLong := by
  refine .bind .fetch fun high => ?_
  exact .bind .fetch fun low => .pure _

theorem postIncrement (r : RegisterNumber) (bytes : Nat) :
    Composed model grant fun _ _ => MachineM.postIncrement r bytes := by
  refine .bind (address r) fun start => ?_
  exact .bind (setAddress r _) fun _ => .pure start

theorem preDecrement (r : RegisterNumber) (bytes : Nat) :
    Composed model grant fun _ _ => MachineM.preDecrement r bytes := by
  refine .bind (address r) fun start => ?_
  exact .bind (setAddress r _) fun _ => .pure _

theorem fetchDisplacement (code : Nat) :
    Composed model grant fun _ _ => MachineM.fetchDisplacement code := by
  unfold MachineM.fetchDisplacement
  split
  · exact fetchSigned
  · exact fetchLong
  · exact .pure 0

theorem fullIndex (base : BitVec 32) (extension : BitVec 16) :
    Composed model grant fun _ _ => MachineM.fullIndex base extension := by
  refine .bind capabilities fun caps => ?_
  refine .bind registers fun rs => ?_
  have indirect (place : BitVec 32) (f : BitVec 32 → BitVec 32) :
      Composed model grant fun β _ =>
        MachineM.read (β := β) .long place >>= fun pointer => Pure.pure (f pointer) :=
    .bind (.read .long place) fun _ => .pure _
  -- A reserved extension word is refused before anything else is fetched.
  refine .ite (.bind (.exception _) fun _ => ?_) ?_
  all_goals
    refine .bind (fetchDisplacement _) fun displacement => ?_
    refine .ite (.pure _) ?_
    refine .ite (.bind (.exception _) fun _ => ?_) ?_
    all_goals
      refine .bind (fetchDisplacement _) fun outer => ?_
      refine .bind (.spend 6) fun _ => ?_
      exact .ite (indirect _ _) (indirect _ _)

theorem indexed (base : BitVec 32) : Composed model grant fun _ _ => MachineM.indexed base := by
  refine .bind .fetch fun extension => ?_
  refine .bind capabilities fun caps => ?_
  refine .ite ?_ ?_
  · exact fullIndex base extension
  · exact .bind registers fun rs => .pure _

theorem memoryAddress (mode : AddressMode) (bytes : Nat) :
    Composed model grant fun _ _ => MachineM.memoryAddress mode bytes := by
  cases mode with
  | indirect r => exact address r
  | postIncrement r => exact postIncrement r bytes
  | preDecrement r => exact preDecrement r bytes
  | displacement r =>
    refine .bind fetchSigned fun offset => ?_
    exact .bind (address r) fun base => .pure _
  | index r => exact .bind (address r) fun base => indexed base
  | absShort => exact fetchSigned
  | absLong => exact fetchLong
  | pcDisplacement =>
    refine .bind pc fun base => ?_
    exact .bind fetchSigned fun offset => .pure _
  | pcIndex => exact .bind pc fun base => indexed base
  | dataReg r => exact .exception _
  | addrReg r => exact .exception _
  | immediate => exact .exception _

theorem controlAddress (mode : AddressMode) :
    Composed model grant fun _ _ => MachineM.controlAddress mode :=
  memoryAddress mode _

theorem fetchConstant (size : Size) :
    Composed model grant fun _ _ => MachineM.fetchConstant size := by
  cases size with
  | byte => exact .bind .fetch fun _ => .pure _
  | word => exact .bind .fetch fun _ => .pure _
  | long => exact fetchLong

theorem locate (mode : AddressMode) (size : Size) :
    Composed model grant fun _ _ => MachineM.locate mode size := by
  refine .cpu (fun _ _ _ => rfl) fun c _ => .bind (.spend _) fun _ => ?_
  cases mode with
  | dataReg r => exact .pure _
  | addrReg r => exact .pure _
  | immediate => exact .bind (fetchConstant size) fun _ => .pure _
  | _ => exact .bind (memoryAddress _ _) fun _ => .pure _

theorem load (size : Size) (location : Location) :
    Composed model grant fun _ _ => MachineM.load size location := by
  cases location with
  | dataReg r => exact .bind (data r) fun _ => .pure _
  | addrReg r => exact .bind (address r) fun _ => .pure _
  | constant value => exact .pure _
  | memory place program =>
    cases program with
    | false => exact .read size place
    | true => exact .readProgram size place

theorem store (size : Size) (location : Location) (value : BitVec 32) :
    Composed model grant fun _ _ => MachineM.store size location value := by
  cases location with
  | dataReg r =>
    unfold MachineM.store
    exact .modifyRegisters fun rs => rs.sameSystem_setData r _
  | addrReg r => exact setAddress r value
  | constant _ => exact .exception _
  | memory place _ => exact .write size place value

theorem operand (mode : AddressMode) (size : Size) :
    Composed model grant fun _ _ => MachineM.operand mode size :=
  .bind (locate mode size) fun location => load size location

end Composed

end M68k
