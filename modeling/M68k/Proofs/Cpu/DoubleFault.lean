import Mathlib.Control.Monad.Basic
import M68k.Proofs.Cpu.CallCourse
import M68k.Proofs.Cpu.Ram
import M68k.Proofs.Cpu.SupervisorEntry

/-!
# Double faults

A call meets a failed access if one fails before it handles any.  It then enters the exception of
the access, unless an earlier one was handled and no instruction has ended well since.  If it does
not, or another access fails on the way, the processor halts.  `RunsTo` follows this from a reset on
without a look at what the processor notes about it.

An instruction that ends in a trap has not ended well in this sense, although the program goes on
behind it.

* `enter_fails` — only a failed access keeps an exception from being entered;
* `executeWithin_stage` — what a call does at each stage;
* `double_fault_of_run` — when a processor halts, and that it stays so.
-/

namespace M68k

open MachineM

variable {β : Type} [Bus β]

namespace FailsByAccess

theorem writeWords (place : BitVec 32) (words : List (BitVec 16)) :
    FailsByAccess (β := β) (MachineM.writeWords place words) := by
  induction words generalizing place with
  | nil => exact of_ok fun m => ⟨(), m, rfl⟩
  | cons word rest ih => exact (writeIn _ .word place _).bind fun _ => ih (place + 2)

theorem pushFrame (format : FrameFormat) (vector : VectorNumber) (sr : StatusRegister)
    (returnAddress : BitVec 32) (access : Option AccessFault) :
    FailsByAccess (β := β) (MachineM.pushFrame format vector sr returnAddress access) :=
  (of_ok fun m => ⟨_, m, cpu_apply m⟩).bind fun _ => (writeWords _ _).bind fun _ =>
    of_ok fun m => ⟨_, _, setSp_apply m _⟩

theorem jumpToHandler (vector : VectorNumber) :
    FailsByAccess (β := β) (MachineM.jumpToHandler vector) := by
  refine (of_ok fun m => ⟨_, m, cpu_apply m⟩).bind fun c => (readIn _ _ _).bind fun handler => ?_
  split
  · exact (readIn _ _ _).bind fun _ => jump _
  · exact jump handler

end FailsByAccess

/-- Only a failed access keeps an exception from being entered. -/
theorem MachineM.enter_fails (vector : VectorNumber) (returnAddress : BitVec 32)
    (access : Option AccessFault) :
    FailsByAccess (β := β) (enter vector returnAddress access) :=
  (FailsByAccess.of_ok fun m => ⟨_, m, cpu_apply m⟩).bind fun _ =>
    (FailsByAccess.of_ok fun _ => ⟨_, _, rfl⟩).bind fun _ =>
      (FailsByAccess.of_ok fun m => ⟨_, _, modifyCpu_apply m _⟩).bind fun _ =>
        (FailsByAccess.pushFrame _ _ _ _ _).bind fun _ =>
          (FailsByAccess.of_ok fun m => ⟨_, _, spend_apply m _⟩).bind fun _ =>
            FailsByAccess.jumpToHandler vector

/-- An access that failed before any was handled, with its vector and the machine then. -/
structure Meeting (β : Type) where
  vector : VectorNumber
  access : AccessFault
  machine : Machine β

namespace Meeting

/-- The exception of the access is entered. -/
def entry (met : Meeting β) : Except Fault Unit × Machine β :=
  enterAccess met.vector met.access (Handling.atStage .buildingFrame met.machine)

end Meeting

namespace Fault

/-- The failed access in an outcome. -/
def accessOf : Except Fault Unit × Machine β → Option (Meeting β)
  | (.error (.bus access), m) => some ⟨.busError, access, m⟩
  | (.error (.address access), m) => some ⟨.addressError, access, m⟩
  | _ => none

/-- The failed access to which a fault comes down: its own, or one that keeps its exception from
being entered. -/
def meets (m : Machine β) : Fault → Option (Meeting β)
  | .exception vector => accessOf (enter vector m.cpu.registers.ppc none m)
  | .trap vector => accessOf (enter vector m.cpu.registers.pc none m)
  | fault => accessOf (.error fault, m)

end Fault

namespace Machine

/-- The failed access that a call meets. -/
def meets (host : Fpu.HostMath) (limit : Nat) (m : Machine β) : Option (Meeting β) :=
  match work host limit m with
  | (.error fault, m') => fault.meets m'
  | (.ok _, _) => none

/-- A call performs an instruction that ends well, other than by an exception of its own. -/
def completes (host : Fpu.HostMath) (limit : Nat) (m : Machine β) : Bool :=
  match opening m with
  | (.ok (.perform _ instruction), m') => (Execution.perform host limit instruction m').1.isOk
  | _ => false

end Machine

/-- Between calls a processor that goes on has handled a failed access and is recovering from it,
or it has not. -/
structure Machine.Recovering (m : Machine β) (recovering : Bool) : Prop where
  active : m.cpu.runState ≠ .halted
  stage : m.cpu.faultState = if recovering then .recovering else .normal

variable {m m' : Machine β} {recovering : Bool}

namespace Machine.Recovering

omit [Bus β] in
/-- What takes no notes does not change this. -/
theorem of_course {loads : Bool} (h : m.Recovering recovering)
    (course : m.cpu.Course loads false m'.cpu) : m'.Recovering recovering :=
  ⟨course.active rfl h.active, (course.faultState rfl).trans h.stage⟩

omit [Bus β] in
/-- An instruction that has ended well ends the recovery. -/
theorem settled (h : m.Recovering recovering) :
    Recovering (⟨m.cpu.settled, m.bus⟩ : Machine β) false := by
  have stage := h.stage
  refine ⟨?_, ?_⟩
  · show m.cpu.settled.runState ≠ .halted
    unfold Cpu.settled
    split <;> exact h.active
  · show m.cpu.settled.faultState = .normal
    unfold Cpu.settled
    cases recovering with
    | true => rw [if_pos (show m.cpu.faultState = .recovering from stage)]
    | false =>
      have normal : m.cpu.faultState = .normal := stage
      rw [if_neg (by simp [normal]), normal]

end Machine.Recovering

/-- Finding out what there is to do takes notes, but not of failed accesses. -/
theorem Course.opening (m : Machine β) : m.cpu.Course false false (opening m).2.cpu := by
  have polled : m.cpu.Course false false m.polled.cpu :=
    .of_registers (.of_eq rfl rfl) rfl rfl rfl rfl rfl
  rw [opening_apply]
  split
  · exact polled
  · split
    · exact polled
    · have started : m.cpu.Course false false m.polled.started.cpu :=
        polled.trans (.of_registers (.of_eq rfl rfl) rfl rfl rfl rfl rfl)
      have fetched : m.cpu.Course false false (MachineM.fetch m.polled.started).2.cpu :=
        started.trans (Course.fetch m.polled.started)
      rw [begin_apply]
      generalize MachineM.fetch m.polled.started = outcome at fetched
      obtain ⟨fault | opcode, m'⟩ := outcome
      · exact fetched
      · have decoded : m'.cpu.Course false false (m'.decoded opcode).cpu :=
          .of_registers (.of_eq rfl rfl) rfl rfl rfl rfl rfl
        exact fetched.trans decoded

/-- The work of a call ends the recovery if an instruction ends well. -/
theorem Machine.Recovering.work (host : Fpu.HostMath) (limit : Nat) (h : m.Recovering recovering) :
    (MachineM.work host limit m).2.Recovering (recovering && !m.completes host limit) := by
  have opened := h.of_course (Course.opening m)
  have composed {x : Action Unit} {m : Machine β} (h : m.Recovering recovering)
      (composed : Composed m.cpu.model ⟨true, true, true, false⟩ x) :
      (x β m).2.Recovering recovering := h.of_course (composed.course m rfl)
  have stays : (recovering && !false) = recovering := Bool.and_true recovering
  rw [work_eq, Machine.completes]
  rcases opens : opening m with ⟨fault | activity, m₁⟩
  · rw [opens] at opened
    rw [bind_error opens]
    exact stays.symm ▸ opened
  · rw [opens] at opened
    rw [bind_ok opens]
    cases activity with
    | interrupt level => exact stays.symm ▸ composed opened (.interrupt rfl level)
    | wait => exact stays.symm ▸ composed opened (.spend Timing.stopped)
    | perform before instruction =>
      have performed := composed opened (.performs host limit instruction (fun _ => rfl) rfl)
      dsimp only [carryOut]
      rcases ends : Execution.perform host limit instruction m₁ with ⟨fault | _, m₂⟩
      · rw [ends] at performed
        rw [bind_error ends]
        exact stays.symm ▸ performed
      · rw [ends] at performed
        rw [bind_ok ends, settle_apply]
        exact (Bool.and_false recovering).symm ▸ performed.settled

namespace Fault

omit [Bus β] in
theorem accessOf_some {outcome : Except Fault Unit × Machine β} {met : Meeting β}
    (found : accessOf outcome = some met) :
    met.machine = outcome.2 ∧ (met.vector = .busError ∧ outcome.1 = .error (.bus met.access) ∨
      met.vector = .addressError ∧ outcome.1 = .error (.address met.access)) := by
  obtain ⟨(_ | _ | _ | _ | _) | _, m'⟩ := outcome
  case error.bus =>
    obtain rfl := Option.some.inj found
    exact ⟨rfl, .inl ⟨rfl, rfl⟩⟩
  case error.address =>
    obtain rfl := Option.some.inj found
    exact ⟨rfl, .inr ⟨rfl, rfl⟩⟩
  all_goals exact nomatch found

omit [Bus β] in
theorem accessOf_of_isAccess {fault : Fault} (access : fault.IsAccess) (m : Machine β) :
    accessOf (.error fault, m) ≠ none := by
  cases access <;> exact nofun

end Fault

namespace Handling

variable {fault : Fault} {met : Meeting β}

/-- A fault that comes down to a failed access is handled as that. -/
theorem handle_of_meets (meets : fault.meets m = some met) :
    handle fault m = handleAccess met.vector met.access met.machine := by
  have entered {vector : VectorNumber} {returnAddress : BitVec 32}
      (found : Fault.accessOf (enter vector returnAddress none m) = some met) :
      handleException vector returnAddress m =
        handleAccess met.vector met.access met.machine := by
    obtain ⟨machine, ⟨vector, failed⟩ | ⟨vector, failed⟩⟩ := Fault.accessOf_some found
    all_goals
      rw [handleException_apply, vector, machine,
        show enter _ returnAddress none m = (_, _) from Prod.ext failed rfl]
  rw [handle_apply]
  cases fault with
  | bus access | address access =>
    obtain rfl := Option.some.inj meets
    rfl
  | exception vector => exact entered meets
  | trap vector => exact entered meets
  | unfinished => exact nomatch meets

/-- Any other fault leads to its exception and does not halt the processor. -/
theorem handle_of_meets_none (unmet : fault.meets m = none) (h : m.Recovering recovering) :
    (∀ address pc, (handle fault m).1 ≠ .error (.doubleFault address pc)) ∧
      (handle fault m).2.Recovering recovering := by
  have entered {vector : VectorNumber} {returnAddress : BitVec 32}
      (found : Fault.accessOf (enter vector returnAddress none m) = none) :
      (∀ address pc,
          (handleException vector returnAddress m).1 ≠ .error (.doubleFault address pc)) ∧
        (handleException vector returnAddress m).2.Recovering recovering := by
    have course : m.cpu.Course true false _ := course_enter m vector returnAddress none
    rw [handleException_apply]
    rcases ends : enter vector returnAddress none m with ⟨fault | _, m₁⟩
    · rw [ends] at found
      exact absurd found (Fault.accessOf_of_isAccess (enter_fails _ _ _ ends) m₁)
    · rw [ends] at course
      exact ⟨nofun, h.of_course course⟩
  rw [handle_apply]
  cases fault with
  | bus access => exact nomatch unmet
  | address access => exact nomatch unmet
  | exception vector => exact entered unmet
  | trap vector => exact entered unmet
  | unfinished => exact ⟨nofun, h⟩

/-- The vectors of failed accesses. -/
theorem vector_of_meets (meets : fault.meets m = some met) : met.vector = 2 ∨ met.vector = 3 := by
  have of_access {outcome : Except Fault Unit × Machine β}
      (found : Fault.accessOf outcome = some met) : met.vector = 2 ∨ met.vector = 3 :=
    (Fault.accessOf_some found).2.imp And.left And.left
  cases fault with
  | bus access =>
    obtain rfl := Option.some.inj meets
    exact .inl rfl
  | address access =>
    obtain rfl := Option.some.inj meets
    exact .inr rfl
  | exception vector => exact of_access meets
  | trap vector => exact of_access meets
  | unfinished => exact nomatch meets

/-- Until the access is met nothing has changed the stage. -/
theorem recovering_of_meets (meets : fault.meets m = some met)
    (h : m.Recovering recovering) : met.machine.Recovering recovering := by
  have entered {vector : VectorNumber} {returnAddress : BitVec 32}
      (found : Fault.accessOf (enter vector returnAddress none m) = some met) :
      met.machine.Recovering recovering := by
    rw [(Fault.accessOf_some found).1]
    have course : m.cpu.Course true false _ := course_enter m vector returnAddress none
    exact h.of_course course
  cases fault with
  | bus access | address access =>
    obtain rfl := Option.some.inj meets
    exact h
  | exception vector => exact entered meets
  | trap vector => exact entered meets
  | unfinished => exact nomatch meets

/-- While the processor is recovering, a failed access halts it at once. -/
theorem handleAccess_of_recovering (h : m.Recovering true) (vector : VectorNumber)
    (access : AccessFault) : handleAccess vector access m = halted access.address m := by
  have stage : m.cpu.faultState = .recovering := h.stage
  rw [handleAccess_apply, if_pos (by simp [stage])]

/-- Otherwise its exception is entered. -/
theorem handleAccess_of_entry (h : met.machine.Recovering false) {outcome : Except Fault Unit}
    (enters : met.entry = (outcome, m')) :
    (outcome = .ok () ∧
        handleAccess met.vector met.access met.machine = (.ok (), atStage .recovering m')) ∨
      outcome ≠ .ok () ∧ ∃ address,
        handleAccess met.vector met.access met.machine = halted address m' := by
  have stage : met.machine.cpu.faultState = .normal := h.stage
  have entry : enterAccess met.vector met.access (atStage .buildingFrame met.machine) =
      (outcome, m') := enters
  rw [handleAccess_apply, if_neg (by simp [stage]), entry]
  obtain (_ | _ | _ | _ | _) | _ := outcome
  case ok => exact .inl ⟨rfl, rfl⟩
  all_goals exact .inr ⟨nofun, _, rfl⟩

end Handling

/-- A call ends in a double fault. -/
def ExecuteError.IsDoubleFault (outcome : Except ExecuteError Nat) : Prop :=
  ∃ address pc, outcome = .error (.doubleFault address pc)

namespace Machine

variable {host : Fpu.HostMath} {limit : Nat} {met : Meeting β}

/-- A call that meets no failed access. -/
theorem executeWithin_of_meets_none (h : m.Recovering recovering)
    (unmet : m.meets host limit = none) :
    ¬ExecuteError.IsDoubleFault (m.executeWithin host limit).1 ∧
      (m.executeWithin host limit).2.Recovering (recovering && !m.completes host limit) := by
  have worked := h.work host limit
  unfold meets at unmet
  rcases ends : MachineM.work host limit m with ⟨fault | _, m₁⟩
  · rw [ends] at worked unmet
    obtain ⟨single, stays⟩ := Handling.handle_of_meets_none unmet worked
    rw [executeWithin_error h.active ends]
    refine ⟨?_, stays.active, stays.stage⟩
    rintro ⟨address, pc, double⟩
    generalize (Handling.handle fault m₁).1 = outcome at single double
    cases outcome with
    | error error => exact single address pc (congrArg _ (Except.error.inj double))
    | ok => exact nomatch double
  · rw [ends] at worked
    rw [executeWithin_ok h.active ends]
    exact ⟨nofun, worked.active, worked.stage⟩

/-- A call that meets one handles it, at the stage in which its work has left the processor. -/
theorem executeWithin_of_meets (h : m.Recovering recovering)
    (meets : m.meets host limit = some met) :
    met.machine.Recovering (recovering && !m.completes host limit) ∧
      (met.vector = 2 ∨ met.vector = 3) ∧
      let handled := Handling.handleAccess met.vector met.access met.machine
      m.executeWithin host limit =
        (handled.1.map fun _ => handled.2.cpu.cycles, handled.2.charged) := by
  have worked := h.work host limit
  unfold Machine.meets at meets
  rcases ends : MachineM.work host limit m with ⟨fault | _, m₁⟩
  · rw [ends] at worked meets
    refine ⟨Handling.recovering_of_meets meets worked, Handling.vector_of_meets meets, ?_⟩
    rw [executeWithin_error h.active ends, Handling.handle_of_meets meets]
  · rw [ends] at meets
    exact nomatch meets

/-- A call that meets a failed access halts the processor, or has entered the exception. -/
theorem double_fault_or_entered (h : m.Recovering recovering)
    (meets : m.meets host limit = some met) :
    ((recovering = true ∧ m.completes host limit = false ∨ met.entry.1 ≠ .ok ()) ∧
        ExecuteError.IsDoubleFault (m.executeWithin host limit).1 ∧
        (m.executeWithin host limit).2.cpu.runState = .halted) ∨
      (recovering && !m.completes host limit) = false ∧ (met.vector = 2 ∨ met.vector = 3) ∧
        ∃ m', met.entry = (.ok (), m') ∧ m'.cpu.runState = .running ∧ m.executeWithin host limit =
          (.ok m'.cpu.cycles, (Handling.atStage .recovering m').charged) := by
  obtain ⟨stage, vector, handled⟩ := executeWithin_of_meets h meets
  rw [handled]
  cases still : recovering && !m.completes host limit with
  | true =>
    rw [still] at stage
    rw [Handling.handleAccess_of_recovering stage]
    exact .inl ⟨.inl (by simpa using still), ⟨_, _, rfl⟩, rfl⟩
  | false =>
    rw [still] at stage
    rcases enters : met.entry with ⟨outcome, m'⟩
    rcases Handling.handleAccess_of_entry stage enters with ⟨rfl, entered⟩ | ⟨failed, _, halts⟩
    · rw [entered]
      obtain ⟨_, enters', -⟩ := enterAccess_enters met.vector met.access
        (Handling.atStage .buildingFrame met.machine)
      have running : m'.cpu.runState = .running := by
        rw [← show met.entry.2 = m' from congrArg Prod.snd enters]
        exact enters'.running
      exact .inr ⟨rfl, vector, m', rfl, running, rfl⟩
    · rw [halts]
      exact .inl ⟨.inr failed, ⟨_, _, rfl⟩, rfl⟩

/-- A double fault comes of a failed access, and halts the processor. -/
theorem halted_of_isDoubleFault (h : m.Recovering recovering)
    (double : ExecuteError.IsDoubleFault (m.executeWithin host limit).1) :
    ∃ met, m.meets host limit = some met ∧
      (recovering = true ∧ m.completes host limit = false ∨ met.entry.1 ≠ .ok ()) ∧
      (m.executeWithin host limit).2.cpu.runState = .halted := by
  cases meets : m.meets host limit with
  | none => exact absurd double (executeWithin_of_meets_none h meets).1
  | some met =>
    rcases double_fault_or_entered h meets with ⟨why, -, halted⟩ | ⟨-, -, m', -, -, entered⟩
    · exact ⟨met, rfl, why, halted⟩
    · obtain ⟨_, _, double⟩ := double
      exact nomatch (congrArg Prod.fst entered).symm.trans double

/-- The machines to which calls lead, with whether a failed access was handled since when no
instruction has ended well.  Between calls anything may happen on the bus. -/
inductive RunsTo (host : Fpu.HostMath) (limit : Nat) (start : Machine β) :
    Machine β → Bool → Prop where
  | start : RunsTo host limit start start false
  | call {m : Machine β} {recovering : Bool} (run : RunsTo host limit start m recovering) :
      RunsTo host limit start (m.executeWithin host limit).2
        ((m.meets host limit).isSome || (recovering && !m.completes host limit))
  | bus {m : Machine β} {recovering : Bool} (run : RunsTo host limit start m recovering)
      (bus : β) : RunsTo host limit start ⟨m.cpu, bus⟩ recovering

/-- The processor notes where a run is, until it halts. -/
theorem RunsTo.stage {start : Machine β} (run : RunsTo host limit start m recovering)
    (begins : start.Recovering false) (active : m.cpu.runState ≠ .halted) :
    m.Recovering recovering := by
  induction run with
  | start => exact begins
  | bus _ bus ih => exact ⟨active, (ih active).stage⟩
  | @call m recovering _ ih =>
    have before : m.cpu.runState ≠ .halted := fun halted =>
      active ((executeWithin_halted halted).symm ▸ halted)
    have h := ih before
    cases meets : m.meets host limit with
    | none => exact (executeWithin_of_meets_none h meets).2
    | some met =>
      rcases double_fault_or_entered h meets with ⟨-, -, halted⟩ | ⟨-, -, m', -, -, entered⟩
      · exact absurd halted active
      · rw [entered] at active ⊢
        exact ⟨active, rfl⟩

/-- A halted processor stays as it is. -/
theorem called_halted (halted : m.cpu.runState = .halted) (n : Nat) :
    m.called host limit n = m := by
  induction n with
  | zero => rfl
  | succ n ih => rw [called, ih, executeWithin_halted halted]

end Machine

/-- **When a processor halts.**  In every run from a reset a call ends in a double fault if and only
if it meets a failed access, and a failed access was handled since when no instruction has ended
well, or the exception cannot be entered.  Any other failed access leads to the handler of its
vector.  After a double fault calls do nothing. -/
theorem double_fault_of_run {host : Fpu.HostMath} {limit : Nat} {c : Cpu} {stack pc : BitVec 32}
    {bus : β} (run : Machine.RunsTo host limit ⟨c.resetTo stack pc, bus⟩ m recovering) :
    let called := m.executeWithin host limit
    (ExecuteError.IsDoubleFault called.1 ↔
        m.cpu.runState ≠ .halted ∧ ∃ met, m.meets host limit = some met ∧
          (recovering = true ∧ m.completes host limit = false ∨ met.entry.1 ≠ .ok ())) ∧
      (∀ met, m.cpu.runState ≠ .halted → m.meets host limit = some met →
        ¬ExecuteError.IsDoubleFault called.1 →
          (met.vector = 2 ∨ met.vector = 3) ∧ ∃ m', met.entry = (.ok (), m') ∧
            m'.cpu.runState = .running ∧
            called = (.ok m'.cpu.cycles, (Handling.atStage .recovering m').charged)) ∧
      (ExecuteError.IsDoubleFault called.1 → ∀ n,
        (called.2.called host limit n).executeWithin host limit = (.error .halted, called.2)) := by
  intro called
  by_cases halted : m.cpu.runState = .halted
  · have single : ¬ExecuteError.IsDoubleFault called.1 := by
      rw [show called = (.error .halted, m) from Machine.executeWithin_halted halted]
      exact nofun
    exact ⟨⟨fun double => absurd double single, fun meeting => absurd halted meeting.1⟩,
      fun _ active => absurd halted active, fun double => absurd double single⟩
  · have h : m.Recovering recovering := run.stage ⟨nofun, rfl⟩ halted
    refine ⟨⟨fun double => ?_, ?_⟩, ?_, fun double n => ?_⟩
    · obtain ⟨met, meets, why, -⟩ := Machine.halted_of_isDoubleFault h double
      exact ⟨halted, met, meets, why⟩
    · rintro ⟨-, met, meets, why⟩
      rcases Machine.double_fault_or_entered h meets with ⟨-, double, -⟩ | ⟨calm, -, m', enters, -⟩
      · exact double
      · rcases why with ⟨still, ended⟩ | failed
        · simp [still, ended] at calm
        · exact absurd (congrArg Prod.fst enters) failed
    · intro met _ meets single
      rcases Machine.double_fault_or_entered h meets with ⟨-, double, -⟩ | ⟨-, vector, entered⟩
      · exact absurd double single
      · exact ⟨vector, entered⟩
    · obtain ⟨-, -, -, stopped⟩ := Machine.halted_of_isDoubleFault h double
      rw [Machine.called_halted stopped, Machine.executeWithin_halted stopped]

/-- A 68000 that starts at an odd address.  The handler of that, at 2000, traps, and the one of the
trap, at 3000, reads a word from an odd address. -/
def stumbling (handler : BitVec 8) : Machine Bytes where
  cpu := (Cpu.new .m68000).resetTo 0x4000 0x1001
  bus address :=
    match address.toNat with
    | 0xE => handler
    | 0x82 => 0x30
    | 0x2000 => 0x4E
    | 0x2001 => 0x40
    | 0x3000 => 0x30
    | 0x3001 => 0x38
    | 0x3003 => 0x01
    | _ => 0

/-- Where the first handler itself reads from an odd address, the processor halts. -/
theorem stumbling_halts :
    Machine.RunsTo .native Machine.frameLimit (stumbling 0x30) ((stumbling 0x30).execute .native).2
        true ∧
      ExecuteError.IsDoubleFault (((stumbling 0x30).execute .native).2.execute .native).1 := by
  have met : (((stumbling 0x30).meets .native Machine.frameLimit).isSome ||
      (false && !(stumbling 0x30).completes .native Machine.frameLimit)) = true := by
    decide +kernel
  have run : Machine.RunsTo .native Machine.frameLimit (stumbling 0x30)
      ((stumbling 0x30).execute .native).2 true := met ▸ .call .start
  refine ⟨run, (double_fault_of_run run).1.mpr ⟨by decide +kernel, ?_⟩⟩
  obtain ⟨met, meets⟩ : ∃ met,
      ((stumbling 0x30).execute .native).2.meets .native Machine.frameLimit = some met :=
    Option.isSome_iff_exists.mp (by decide +kernel)
  exact ⟨met, meets, .inl ⟨rfl, by decide +kernel⟩⟩

/-- It also does where the first handler traps and the trap is taken, although the program has gone
on behind it, and the exception of the second access could be entered. -/
theorem trapped_halts :
    let first := ((stumbling 0x20).execute .native).2
    let second := (first.execute .native).2
    ((stumbling 0x20).meets .native Machine.frameLimit).map (·.entry.1) = some (.ok ()) ∧
      (MachineM.work .native Machine.frameLimit first).1 = .error (.trap (.trap 0)) ∧
      (first.execute .native).1 = .ok 38 ∧ second.cpu.registers.pc = 0x3000 ∧
      (second.meets .native Machine.frameLimit).map (·.entry.1) = some (.ok ()) ∧
      (second.execute .native).1 = .error (.doubleFault 1 0x3000) := by
  decide +kernel

end M68k
