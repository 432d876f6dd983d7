import M68k.Cpu.Run
import M68k.Proofs.Cpu.Action

/-!
# The parts of a call

A call of `execute` opens by finding out what there is to do: take an interrupt, wait, or perform an
instruction that it has fetched.  Then it does that, and at the end it handles the fault, if there
was one.  The opening depends neither on the host nor on the limit for returns.

* `work_eq` — a call is its opening and what that has found;
* `executeWithin_ok`, `executeWithin_error` — its outcome, by that of its work;
* `handleAccess_apply`, `handleException_apply` — what the handling of a fault does.
-/

namespace M68k

/-- What a call finds to do. -/
inductive Activity where
  /-- Take the interrupt of a level. -/
  | interrupt (level : BitVec 3)
  /-- Let a stopped processor wait. -/
  | wait
  /-- Perform an instruction.  What is traced depends on the status register before it. -/
  | perform (before : StatusRegister) (instruction : Instruction)

/-- After an instruction that has ended well a failed access is done with. -/
def Cpu.settled (c : Cpu) : Cpu :=
  if c.faultState = .recovering then { c with faultState := .normal } else c

namespace Machine

variable {β : Type}

/-- The machine when the interrupt lines have been looked at. -/
def polled [Bus β] (m : Machine β) : Machine β :=
  ⟨{ m.cpu with cycles := 0, lastLevel := (Bus.interruptLevel m.bus).1.setWidth 3 },
    (Bus.interruptLevel m.bus).2⟩

/-- The machine before it fetches an instruction. -/
def started (m : Machine β) : Machine β :=
  ⟨{ m.cpu with registers := { m.cpu.registers with ppc := m.cpu.registers.pc },
                flowChanged := false }, m.bus⟩

/-- The machine when it has found out which instruction an opcode stands for. -/
def decoded (m : Machine β) (opcode : BitVec 16) : Machine β :=
  ⟨{ m.cpu with
      opcode
      cycles := m.cpu.cycles +
        Timing.instruction m.cpu.model (Instruction.ofOpcode m.cpu.capabilities opcode) }, m.bus⟩

end Machine

namespace MachineM

variable {β : Type}

/-- Whether an interrupt of a level is taken. -/
def takesInterrupt (c : Cpu) (level : BitVec 3) : Bool :=
  c.registers.sr.interruptMask < level || (level = 7 ∧ c.lastLevel ≠ 7)

/-- What follows an instruction that has ended well. -/
def settle (before : StatusRegister) : MachineM β Unit := do
  modifyCpu Cpu.settled
  if isTraced before (← cpu) then throw (.trap .trace)

theorem settle_apply (before : StatusRegister) (m : Machine β) :
    settle before m =
      (if isTraced before m.cpu.settled then .error (.trap .trace) else .ok (),
        { m with cpu := m.cpu.settled }) := by
  unfold settle
  rw [bind_ok (modifyCpu_apply m _), bind_ok (cpu_apply _)]
  dsimp only
  split <;> rfl

/-- What has ended well and is not traced is settled, and that is all. -/
theorem bind_settle {x : MachineM β Unit} {before : StatusRegister} {m m' : Machine β}
    (done : x m = (.ok (), m')) (untraced : isTraced before m'.cpu.settled = false) :
    (x >>= fun _ => settle before) m = (.ok (), { m' with cpu := m'.cpu.settled }) := by
  rw [bind_ok done, settle_apply, untraced]
  rfl

variable [Bus β]

/-- Fetches an instruction. -/
def begin : MachineM β Activity := do
  modifyCpu fun c =>
    { c with registers := { c.registers with ppc := c.registers.pc }, flowChanged := false }
  let before ← status
  let opcode ← fetch
  modifyCpu fun c => { c with opcode }
  let instruction := Instruction.ofOpcode (← capabilities) opcode
  spend (Timing.instruction (← cpu).model instruction)
  return .perform before instruction

/-- Finds out what there is to do. -/
def opening : MachineM β Activity := do
  modifyCpu fun c => { c with cycles := 0 }
  let level := (← onBus Bus.interruptLevel).setWidth 3
  let c ← cpu
  modifyCpu fun c => { c with lastLevel := level }
  if takesInterrupt c level then return .interrupt level
  else if c.runState = .stopped then return .wait
  else begin

theorem begin_apply (m : Machine β) :
    begin m = match fetch m.started with
      | (.ok opcode, m') =>
        (.ok (.perform m.cpu.registers.sr (Instruction.ofOpcode m'.cpu.capabilities opcode)),
          m'.decoded opcode)
      | (.error fault, m') => (.error fault, m') := by
  have starts : modifyCpu (fun c =>
      { c with registers := { c.registers with ppc := c.registers.pc }, flowChanged := false }) m =
      (.ok (), m.started) := rfl
  unfold begin
  rw [bind_ok starts, bind_ok (status_apply _), bind_apply]
  obtain ⟨_ | opcode, m'⟩ := fetch m.started <;> rfl

theorem opening_apply (m : Machine β) :
    opening m =
      if takesInterrupt m.cpu ((Bus.interruptLevel m.bus).1.setWidth 3) then
        (.ok (.interrupt ((Bus.interruptLevel m.bus).1.setWidth 3)), m.polled)
      else if m.cpu.runState = .stopped then (.ok .wait, m.polled)
      else begin m.polled := by
  unfold opening
  rw [bind_ok (modifyCpu_apply m _), bind_ok (onBus_apply _ _), bind_ok (cpu_apply _),
    bind_ok (modifyCpu_apply _ _)]
  by_cases taken : takesInterrupt m.cpu ((Bus.interruptLevel m.bus).1.setWidth 3)
  · rw [if_pos taken]
    exact congrFun (if_pos taken) m.polled
  · rw [if_neg taken]
    refine (congrFun (if_neg taken) m.polled).trans ?_
    by_cases waits : m.cpu.runState = .stopped
    · rw [if_pos waits]
      exact (if_pos waits).symm
    · rw [if_neg waits]
      exact (if_neg waits).symm

/-- Does what there is to do. -/
def carryOut (host : Fpu.HostMath) (limit : Nat) : Activity → MachineM β Unit
  | .interrupt level => interrupt level
  | .wait => spend Timing.stopped
  | .perform before instruction => do
    Execution.perform host limit instruction
    settle before

/-- What a call does apart from handling its fault. -/
def work (host : Fpu.HostMath) (limit : Nat) : MachineM β Unit := do
  modifyCpu fun c => { c with cycles := 0 }
  let level ← onBus Bus.interruptLevel
  next host limit (level.setWidth 3)

theorem step_eq (host : Fpu.HostMath) (limit : Nat) :
    step (β := β) host limit = begin >>= carryOut host limit := by
  simp only [step, begin, bind_assoc, pure_bind]
  rfl

/-- The work of a call is its opening and what that has found. -/
theorem work_eq (host : Fpu.HostMath) (limit : Nat) :
    work (β := β) host limit = opening >>= carryOut host limit := by
  simp only [work, opening, next, bind_assoc]
  refine bind_congr fun _ => bind_congr fun level => bind_congr fun c => bind_congr fun _ => ?_
  show (if takesInterrupt c (level.setWidth 3) = true then _ else _) = _
  by_cases taken : takesInterrupt c (level.setWidth 3) = true
  · simp only [if_pos taken, pure_bind, carryOut]
  · by_cases waits : c.runState = .stopped
    · simp only [if_neg taken, if_pos waits, pure_bind, carryOut]
    · simp only [if_neg taken, if_neg waits, step_eq]

/-- Where no interrupt is taken, a running processor makes a step. -/
theorem work_of_quiet (host : Fpu.HostMath) (limit : Nat) {m : Machine β}
    (running : m.cpu.runState = .running)
    (quiet : takesInterrupt m.cpu ((Bus.interruptLevel m.bus).1.setWidth 3) = false) :
    work host limit m = step host limit m.polled := by
  rw [work_eq, bind_apply, opening_apply, if_neg (by simp [quiet]), if_neg (by simp [running]),
    step_eq, bind_apply]

end MachineM

namespace Handling

variable {β α : Type}

/-- The machine halts, and the call tells of a double fault. -/
def halted (address : BitVec 32) (m : Machine β) : Except ExecuteError α × Machine β :=
  (.error (.doubleFault address m.cpu.registers.ppc),
    { m with cpu := { m.cpu with runState := .halted } })

/-- The machine in another stage of handling a failed access. -/
def atStage (state : FaultState) (m : Machine β) : Machine β :=
  { m with cpu := { m.cpu with faultState := state } }

theorem bind_apply {γ : Type} (x : Handling β α) (f : α → Handling β γ) (m : Machine β) :
    (x >>= f) m = match x m with
      | (.ok a, m') => f a m'
      | (.error e, m') => (.error e, m') := by
  show ExceptT.bindCont f (x m).1 (x m).2 = _
  rcases x m with ⟨_ | _, _⟩ <;> rfl

theorem bind_ok {γ : Type} {m m' : Machine β} {x : Handling β α} {a : α} (h : x m = (.ok a, m'))
    (f : α → Handling β γ) : (x >>= f) m = f a m' := by
  rw [bind_apply, h]

theorem get_apply (m : Machine β) : (get : Handling β (Machine β)) m = (.ok m, m) := rfl

theorem modifyStage_apply (state : FaultState) (m : Machine β) :
    modifyCpu (fun c => { c with faultState := state }) m = (.ok (), atStage state m) := rfl

theorem attempt_apply (action : MachineM β α) (m : Machine β) :
    attempt action m = (.ok (action m).1, (action m).2) := rfl

variable [Bus β]

/-- A failed access leads to its exception unless another is being handled. -/
theorem handleAccess_apply (vector : VectorNumber) (access : AccessFault) (m : Machine β) :
    handleAccess vector access m =
      if m.cpu.faultState ≠ .normal then halted access.address m
      else
        match MachineM.enterAccess vector access (atStage .buildingFrame m) with
        | (.ok (), m') => (.ok (), atStage .recovering m')
        | (.error (.bus second), m') => halted second.address m'
        | (.error (.address second), m') => halted second.address m'
        | (.error _, m') => halted access.address m' := by
  unfold handleAccess
  rw [bind_ok (get_apply m)]
  split
  · exact bind_apply _ _ m
  · dsimp only
    rw [bind_ok (modifyStage_apply .buildingFrame m), bind_ok (attempt_apply _ _)]
    generalize MachineM.enterAccess vector access (atStage .buildingFrame m) = outcome
    obtain ⟨(_ | _ | _ | _ | _) | _, m'⟩ := outcome <;> rfl

/-- Any other exception is entered, and a failed access on the way takes its place. -/
theorem handleException_apply (vector : VectorNumber) (returnAddress : BitVec 32)
    (m : Machine β) :
    handleException vector returnAddress m =
      match MachineM.enter vector returnAddress none m with
      | (.ok (), m') => (.ok (), m')
      | (.error (.bus access), m') => handleAccess .busError access m'
      | (.error (.address access), m') => handleAccess .addressError access m'
      | (.error _, m') => halted m'.cpu.registers.sp m' := by
  unfold handleException
  rw [bind_ok (attempt_apply _ m)]
  generalize MachineM.enter vector returnAddress none m = outcome
  obtain ⟨(_ | _ | _ | _ | _) | _, m'⟩ := outcome
  case error.bus | error.address | ok => rfl
  all_goals exact bind_ok (get_apply m') _

theorem handle_apply (fault : Fault) (m : Machine β) :
    handle fault m =
      match fault with
      | .bus access => handleAccess .busError access m
      | .address access => handleAccess .addressError access m
      | .exception vector => handleException vector m.cpu.registers.ppc m
      | .trap vector => handleException vector m.cpu.registers.pc m
      | .unfinished => (.error .unfinished, m) := by
  cases fault with
  | exception vector => exact bind_ok (get_apply m) _
  | trap vector => exact bind_ok (get_apply m) _
  | bus access => rfl
  | address access => rfl
  | unfinished => rfl

end Handling

namespace Machine

variable {β : Type} [Bus β] {host : Fpu.HostMath} {limit : Nat} {m m' : Machine β}

/-- The machine after a call: the cycles of the call are added to those of all calls. -/
def charged (m : Machine β) : Machine β :=
  { m with cpu := { m.cpu with elapsed := m.cpu.elapsed.advance m.cpu.cycles } }

/-- The machine after calls one after the other. -/
def called (host : Fpu.HostMath) (limit : Nat) (m : Machine β) : Nat → Machine β
  | 0 => m
  | n + 1 => ((m.called host limit n).executeWithin host limit).2

/-- A reset reads the first two long words of memory. -/
theorem reset_apply (m : Machine β) :
    m.reset =
      let stack := Bus.read .long 0 .supervisorProgram m.bus
      let pc := Bus.read .long 4 .supervisorProgram stack.2
      ⟨m.cpu.resetTo stack.1.data pc.1.data, pc.2⟩ := rfl

theorem executeWithin_halted (halted : m.cpu.runState = .halted) :
    m.executeWithin host limit = (.error .halted, m) := by
  rw [executeWithin, if_pos halted]

theorem advance_apply (host : Fpu.HostMath) (limit : Nat) (m : Machine β) :
    advance host limit m = match MachineM.work host limit m with
      | (.ok (), m') => (.ok (), m')
      | (.error fault, m') => Handling.handle fault m' := by
  show (Handling.attempt (MachineM.work host limit) >>= _) m = _
  rw [Handling.bind_ok (Handling.attempt_apply _ m)]
  generalize MachineM.work host limit m = outcome
  obtain ⟨_ | _, m'⟩ := outcome <;> rfl

/-- A call whose work ends well is its work. -/
theorem executeWithin_ok (active : m.cpu.runState ≠ .halted)
    (done : MachineM.work host limit m = (.ok (), m')) :
    m.executeWithin host limit = (.ok m'.cpu.cycles, m'.charged) := by
  rw [executeWithin, if_neg active, advance_apply, done]
  rfl

/-- A call whose work ends in a fault goes on with the handling of the fault. -/
theorem executeWithin_error {fault : Fault} (active : m.cpu.runState ≠ .halted)
    (done : MachineM.work host limit m = (.error fault, m')) :
    m.executeWithin host limit =
      ((Handling.handle fault m').1.map fun _ => (Handling.handle fault m').2.cpu.cycles,
        (Handling.handle fault m').2.charged) := by
  rw [executeWithin, if_neg active, advance_apply, done]
  rfl

end Machine

end M68k
