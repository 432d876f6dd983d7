import M68k.Proofs.Cpu.CallTermination
import M68k.Proofs.Cpu.SupervisorEntry

/-!
# User mode

In user mode an instruction changes nothing that belongs to supervisors and accesses memory in the
spaces of users only.  Supervisor mode is reached through an exception and in no other way.
-/

namespace M68k

open MachineM

/-- Two register files that differ only in what user programs can change. -/
structure Registers.SameSupervisor (r r' : Registers) : Prop extends r.SameControl r' where
  /-- Of the status register only the condition codes can change. -/
  system : r'.sr &&& ~~~StatusRegister.codeMask = r.sr &&& ~~~StatusRegister.codeMask
  isp : r'.isp = r.isp
  msp : r'.msp = r.msp

namespace Registers

theorem SameSupervisor.refl (r : Registers) : r.SameSupervisor r := ⟨.refl r, rfl, rfl, rfl⟩

theorem SameSupervisor.trans {r r' r'' : Registers} (h : r.SameSupervisor r')
    (h' : r'.SameSupervisor r'') : r.SameSupervisor r'' :=
  ⟨h.toSameControl.trans h'.toSameControl, h'.system.trans h.system, h'.isp.trans h.isp,
    h'.msp.trans h.msp⟩

theorem SameSupervisor.isSupervisor {r r' : Registers} (h : r.SameSupervisor r') :
    r'.isSupervisor = r.isSupervisor :=
  has_of_system h.system .s (by decide)

/-- In user mode the stack pointers of supervisors are not in use. -/
theorem SameSystem.sameSupervisor {r r' : Registers} (h : r.SameSystem r')
    (user : r.isSupervisor = false) : r.SameSupervisor r' := by
  have used : stackOf r.sr = .user := if_neg (by simpa [isSupervisor] using user)
  exact ⟨⟨h.vbr, h.sfc, h.dfc, h.cacr, h.caar⟩, h.system,
    h.stack .interrupt (by simp [used]), h.stack .master (by simp [used])⟩

end Registers

variable {β : Type} [Bus β]

/-- The spaces of users. -/
def userSpaces : List FunctionCode := [.userData, .userProgram]

/-- A machine that differs from another only in what user programs can change, where every access to
the bus was in a space of users. -/
structure Machine.UserOnly (m m' : Machine β) : Prop where
  registers : m.cpu.registers.SameSupervisor m'.cpu.registers
  model : m'.cpu.model = m.cpu.model
  runState : m'.cpu.runState = m.cpu.runState
  /-- A failed access that was being handled may be done with, but none is begun. -/
  faultState : m.cpu.faultState = .normal → m'.cpu.faultState = .normal
  events : ∃ events, (∀ e ∈ events, BusEvent.IsIn userSpaces e) ∧ m'.bus = replay events m.bus

namespace Machine.UserOnly

variable {m m' m'' : Machine β}

theorem refl (m : Machine β) : m.UserOnly m := ⟨.refl _, rfl, rfl, id, [], by simp, rfl⟩

theorem trans (h : m.UserOnly m') (h' : m'.UserOnly m'') : m.UserOnly m'' := by
  obtain ⟨events, users, bus⟩ := h.events
  obtain ⟨later, users', bus'⟩ := h'.events
  refine ⟨h.registers.trans h'.registers, h'.model.trans h.model, h'.runState.trans h.runState,
    fun normal => h'.faultState (h.faultState normal), events ++ later, ?_, ?_⟩
  · intro e member
    rcases List.mem_append.mp member with first | second
    · exact users e first
    · exact users' e second
  · rw [bus', bus, replay_append]

/-- Whatever happens within the processor. -/
theorem of_cpu {cpu : Cpu} (registers : m.cpu.registers.SameSupervisor cpu.registers)
    (model : cpu.model = m.cpu.model) (runState : cpu.runState = m.cpu.runState)
    (faultState : cpu.faultState = m.cpu.faultState) : m.UserOnly ⟨cpu, m.bus⟩ :=
  ⟨registers, model, runState, fun normal => faultState.trans normal, [], by simp, rfl⟩

/-- One use of the bus, with whatever becomes of cycles and what is read ahead. -/
theorem of_event {cpu : Cpu} (event : BusEvent) (within : event.IsIn userSpaces)
    (registers : cpu.registers = m.cpu.registers) (model : cpu.model = m.cpu.model)
    (runState : cpu.runState = m.cpu.runState) (faultState : cpu.faultState = m.cpu.faultState) :
    m.UserOnly ⟨cpu, event.apply m.bus⟩ :=
  ⟨registers ▸ .refl _, model, runState, fun normal => faultState.trans normal, [event], by simpa,
    rfl⟩

end Machine.UserOnly

/-- In user mode an action changes only what user programs can change. -/
def KeepsToUser {α : Type} (x : MachineM β α) : Prop :=
  Leads (fun m m' => m.cpu.registers.isSupervisor = false → m.UserOnly m') x

namespace KeepsToUser

variable {α γ : Type}

theorem bind {x : MachineM β α} {f : α → MachineM β γ} (first : KeepsToUser x)
    (rest : ∀ a, KeepsToUser (f a)) : KeepsToUser (x >>= f) := by
  refine Leads.bind (fun h h' user => ?_) first rest
  exact (h user).trans (h' ((h user).registers.isSupervisor.trans user))

theorem readIn {space : FunctionCode} (size : Size) (address : BitVec 32) (m : Machine β)
    (within : space ∈ userSpaces) : m.UserOnly (MachineM.readIn space size address m).2 := by
  rw [readIn_apply]
  dsimp only
  split
  · exact .refl m
  · split <;> exact .of_event (.read size _ space) within rfl rfl rfl rfl

theorem writeIn {space : FunctionCode} (size : Size) (address value : BitVec 32) (m : Machine β)
    (within : space ∈ userSpaces) :
    m.UserOnly (MachineM.writeIn space size address value m).2 := by
  rw [writeIn_apply]
  dsimp only
  split
  · exact .refl m
  · split <;> exact .of_event (.write size _ _ space) within rfl rfl rfl rfl

theorem dataCode {c : Cpu} (user : c.registers.isSupervisor = false) :
    c.dataCode ∈ userSpaces := by
  simp [Cpu.dataCode, user, FunctionCode.ofMode, userSpaces]

theorem programCode {c : Cpu} (user : c.registers.isSupervisor = false) :
    c.programCode ∈ userSpaces := by
  simp [Cpu.programCode, user, FunctionCode.ofMode, userSpaces]

theorem fetch : KeepsToUser (β := β) MachineM.fetch := by
  refine leads_fetch (fun m _ => .refl m) ?_ ?_ ?_ ?_
  · exact fun h h' user => (h user).trans (h' ((h user).registers.isSupervisor.trans user))
  · exact fun m _ => .of_cpu ⟨⟨rfl, rfl, rfl, rfl, rfl⟩, rfl, rfl, rfl⟩ rfl rfl rfl
  · intro m access space user
    have within : access.functionCode ∈ userSpaces := space ▸ programCode user
    rw [fetchFromBus_apply]
    dsimp only
    split <;> exact .of_event (.fetch _ access.functionCode) within rfl rfl rfl rfl
  · intro m address user
    rw [readAhead_apply]
    dsimp only
    split <;> exact .of_event (.fetch address _) (programCode user) rfl rfl rfl rfl

/-- A test for supervisor mode keeps the rest from happening. -/
theorem guarded (f : Unit → MachineM β α) : KeepsToUser (MachineM.requireSupervisor >>= f) := by
  intro m user
  rw [bind_apply, requireSupervisor_apply, if_neg (by simp [user])]
  exact .refl m

/-- What is composed without privileged actions keeps to user mode. -/
theorem of_composed {model : Model} {grant : Grant} {x : Action α} (h : Composed model grant x)
    (unprivileged : grant.privileged = false) (unnoted : grant.notes = false) (m : Machine β)
    (known : m.cpu.model = model) (user : m.cpu.registers.isSupervisor = false) :
    m.UserOnly (x β m).2 := by
  induction h generalizing m with
  | @bind _ _ _ x f _ _ ihx ihf =>
    have first := ihx unprivileged unnoted m known user
    dsimp only
    rw [bind_apply]
    generalize x β m = outcome at first
    obtain ⟨fault | a, m'⟩ := outcome
    · exact first
    · exact first.trans (ihf a unprivileged unnoted m' (first.model.trans known)
        (first.registers.isSupervisor.trans user))
  | cpu _ _ ih =>
    dsimp only
    rw [bind_ok (cpu_apply m)]
    exact ih m.cpu known unprivileged unnoted m known user
  | guarded _ => exact guarded _ m user
  | onUnit vector =>
    dsimp only
    rw [onUnit_apply]
    split
    · exact .refl m
    · split
      · exact .of_cpu (.refl _) rfl rfl rfl
      · exact .refl m
  | read size address =>
    dsimp only
    rw [read_apply]
    exact readIn size address m (dataCode user)
  | readProgram size address =>
    dsimp only
    rw [bind_ok (cpu_apply m)]
    exact readIn size address m (programCode user)
  | write size address value =>
    dsimp only
    rw [write_apply]
    exact writeIn size address value m (dataCode user)
  | fetch => exact fetch m user
  | jump target =>
    dsimp only
    rw [jump_apply]
    split
    · exact .refl m
    · exact ⟨⟨⟨rfl, rfl, rfl, rfl, rfl⟩, rfl, rfl, rfl⟩, rfl, rfl, id, [.pcChanged target],
        by simp [BusEvent.IsIn], rfl⟩
  | modifyRegisters same => exact .of_cpu ((same _).sameSupervisor user) rfl rfl rfl
  | askIllegal opcode => exact .of_event (.illegal opcode) trivial rfl rfl rfl rfl
  | requireSupervisor =>
    dsimp only
    rw [requireSupervisor_apply]
    exact .refl m
  | pure | exception | trap | unfinished => exact .refl m
  | spend => exact .of_cpu (.refl _) rfl rfl rfl
  | note _ _ may | askLevel may => exact absurd (unnoted.symm.trans may) Bool.false_ne_true
  | setStatus _ may | control may | readIn _ _ _ may | writeIn _ _ _ _ may | setRunState _ _ may
  | acknowledge _ may | resetLine may =>
    exact absurd (unprivileged.symm.trans may) Bool.false_ne_true

/-- Every instruction keeps to user mode, the return from an exception included. -/
theorem perform (host : Fpu.HostMath) (limit : Nat) (instruction : Instruction) :
    KeepsToUser (β := β) (Execution.perform host limit instruction) := by
  intro m user
  have composed : Composed m.cpu.model ⟨false, true, true, false⟩ fun _ _ =>
      Execution.perform host limit instruction :=
    .performs host limit instruction (fun _ => rfl) rfl
  exact of_composed composed rfl rfl m rfl user

theorem settle (before : StatusRegister) : KeepsToUser (β := β) (MachineM.settle before) := by
  intro m _
  rw [settle_apply]
  show m.UserOnly ⟨m.cpu.settled, m.bus⟩
  unfold Cpu.settled
  split
  · exact ⟨.refl _, rfl, rfl, fun _ => rfl, [], by simp, rfl⟩
  · exact .refl m

theorem begin : KeepsToUser (β := β) MachineM.begin := by
  intro m user
  have starts : m.UserOnly m.started :=
    .of_cpu ⟨⟨rfl, rfl, rfl, rfl, rfl⟩, rfl, rfl, rfl⟩ rfl rfl rfl
  have fetched := fetch m.started (starts.registers.isSupervisor.trans user)
  rw [begin_apply]
  generalize MachineM.fetch m.started = outcome at fetched
  obtain ⟨fault | opcode, m'⟩ := outcome
  · exact starts.trans fetched
  · exact (starts.trans fetched).trans (.of_cpu (.refl _) rfl rfl rfl)

/-- One step of a user program. -/
theorem step (host : Fpu.HostMath) (limit : Nat) :
    KeepsToUser (β := β) (MachineM.step host limit) := by
  intro m user
  have begun := begin m user
  rw [step_eq, bind_apply]
  rw [begin_apply] at begun ⊢
  generalize MachineM.fetch m.started = outcome at begun
  obtain ⟨fault | opcode, m'⟩ := outcome
  · exact begun
  · exact begun.trans (bind (perform host limit _) (fun _ => settle _) _
      (begun.registers.isSupervisor.trans user))

end KeepsToUser

namespace Machine

variable (host : Fpu.HostMath) (limit : Nat) {m : Machine β}

/-- A call in user mode comes to no return from an exception. -/
theorem returning?_of_user (user : m.cpu.registers.isSupervisor = false)
    (running : m.cpu.runState = .running)
    (quiet : takesInterrupt m.cpu ((Bus.interruptLevel m.bus).1.setWidth 3) = false) :
    m.returning? = none := by
  refine Option.eq_none_iff_forall_ne_some.mpr fun r comes => ?_
  obtain ⟨-, before, opens, supervisor⟩ := returning?_eq_some.mp comes
  rw [opening_apply, if_neg (by simp [quiet]), if_neg (by simp [running])] at opens
  have begun := KeepsToUser.begin m.polled user
  rw [opens] at begun
  exact Bool.false_ne_true (user.symm.trans (begun.registers.isSupervisor.symm.trans supervisor))

end Machine

/-- **User mode cannot touch what belongs to supervisors.**  A call in user mode that takes no
interrupt leaves the control registers alone, and what it asks of the bus is asked in the spaces of
users until an exception is entered.  If it ends in user mode, nothing of the supervisors has
changed; otherwise it is at a handler, or an access failed on the way there.  When an earlier failed
access was still being handled, the processor may also halt at once. -/
theorem user_call (host : Fpu.HostMath) (limit : Nat) (m : Machine β)
    (user : m.cpu.registers.isSupervisor = false) (running : m.cpu.runState = .running)
    (quiet : takesInterrupt m.cpu ((Bus.interruptLevel m.bus).1.setWidth 3) = false) :
    let outcome := (m.executeWithin host limit).1
    let m' := (m.executeWithin host limit).2
    m.cpu.registers.SameControl m'.cpu.registers ∧
    ∃ before entry : List BusEvent,
      (∀ e ∈ before, BusEvent.IsIn userSpaces e) ∧ (∀ e ∈ entry, BusEvent.IsIn entrySpaces e) ∧
      m'.bus = replay (.interruptLevel :: before ++ entry) m.bus ∧
      ((entry = [] ∧ m.cpu.registers.SameSupervisor m'.cpu.registers ∧
          m'.cpu.runState = .running) ∨
        (m'.cpu.registers.sr.IsEntry ∧ m'.cpu.runState = .running ∧
          m.LoadsHandler (.interruptLevel :: before ++ entry) m') ∨
        (m'.cpu.registers.sr.IsEntry ∧ m'.cpu.runState = .halted ∧
          ∃ address pc, outcome = .error (.doubleFault address pc)) ∨
        (m.cpu.faultState ≠ .normal ∧ entry = [] ∧
          m.cpu.registers.SameSupervisor m'.cpu.registers ∧ m'.cpu.runState = .halted ∧
          ∃ address pc, outcome = .error (.doubleFault address pc))) := by
  have active : m.cpu.runState ≠ .halted := by simp [running]
  have stepped := KeepsToUser.step host limit m.polled user
  rw [← work_of_quiet host limit running quiet] at stepped
  rcases done : work host limit m with ⟨fault | _, m₁⟩
  · have known : fault ≠ .unfinished := by
      rintro rfl
      obtain ⟨r, comes, -⟩ := (Machine.work_unfinished_iff host active).mp (congrArg Prod.fst done)
      exact nomatch (Machine.returning?_of_user user running quiet).symm.trans comes
    rw [done] at stepped
    rw [Machine.executeWithin_error active done]
    obtain ⟨registers, model, runState, faultState, before, within, bus⟩ := stepped
    have asked : m₁.bus = replay (.interruptLevel :: before) m.bus := bus
    have place : m₁.cpu.vectorPlace = m.cpu.vectorPlace :=
      Cpu.vectorPlace_congr model registers.vbr
    have handled := Handling.handle_handled known m₁
    generalize Handling.handle fault m₁ = result at handled
    obtain ⟨outcome, m'⟩ := result
    obtain ⟨control, entry, within', bus', ends⟩ := handled
    refine ⟨registers.toSameControl.trans control, before, entry, within, within', ?_, .inr ?_⟩
    · rw [replay_append, ← asked]
      exact bus'
    · cases ends with
      | handler status running' loads => exact .inl ⟨status, running', loads.after place asked⟩
      | doubleFault address pc status halted =>
        exact .inr (.inl ⟨status, halted, address, pc, rfl⟩)
      | still address pc pending none same halted =>
        refine .inr (.inr ⟨fun normal => pending (faultState normal), none, ?_, halted, address, pc,
          rfl⟩)
        exact same ▸ registers
  · rw [done] at stepped
    rw [Machine.executeWithin_ok active done]
    obtain ⟨registers, -, runState, -, before, within, bus⟩ := stepped
    refine ⟨registers.toSameControl, before, [], within, by simp, ?_, .inl ⟨rfl, registers, ?_⟩⟩
    · rw [List.append_nil]
      exact bus
    · exact runState.trans running

/-- A user program that tries to reset the devices. -/
def resetter : Machine Bytes where
  cpu := { Cpu.new .m68000 with
    registers := { Registers.initial with isp := 0x2000, pc := 0x1000, sr := 0 } }
  bus address :=
    match address.toNat with
    | 0x22 => 0x30
    | 0x1000 => 0x4E
    | 0x1001 => 0x70
    | _ => 0

theorem user_call_resetter :
    resetter.cpu.registers.isSupervisor = false ∧ resetter.cpu.runState = .running ∧
      resetter.cpu.registers.SameControl (resetter.execute .native).2.cpu.registers ∧
      ∃ before entry : List BusEvent,
        (∀ e ∈ before, BusEvent.IsIn userSpaces e) ∧ (∀ e ∈ entry, BusEvent.IsIn entrySpaces e) ∧
        (resetter.execute .native).2.bus =
          replay (.interruptLevel :: before ++ entry) resetter.bus := by
  obtain ⟨control, before, entry, users, supervisors, bus, -⟩ :=
    user_call .native Machine.frameLimit resetter rfl rfl rfl
  exact ⟨rfl, rfl, control, before, entry, users, supervisors, bus⟩

/-- A processor in user mode, by the hand of its host, that has not finished handling a failed
access and is about to fetch from an odd address. -/
def recovering : Machine Bytes where
  cpu := { Cpu.new .m68000 with
    registers := { Registers.initial with isp := 0x2000, pc := 0x1001, sr := 0 }
    faultState := .recovering }
  bus _ := 0

/-- It halts without having left user mode. -/
theorem recovering_halts :
    recovering.cpu.registers.isSupervisor = false ∧ recovering.cpu.runState = .running ∧
      takesInterrupt recovering.cpu ((Bus.interruptLevel recovering.bus).1.setWidth 3) = false ∧
      (recovering.execute .native).2.cpu.registers.isSupervisor = false ∧
      (recovering.execute .native).2.cpu.runState ≠ recovering.cpu.runState := by
  refine ⟨rfl, rfl, rfl, rfl, ?_⟩
  show RunState.halted ≠ .running
  decide

end M68k
