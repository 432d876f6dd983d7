import M68k.Proofs.Cpu.Call
import M68k.Proofs.Cpu.Unwinding

/-!
# What a call makes of the processor

The work of a call is composed of elementary actions as instructions are, if notes about the course
of the instructions are allowed.  Handling a fault adds entries of exceptions, and stages of doing
so.  Whatever every elementary action respects is therefore respected by calls.

* `Composed.work` — the work of a call is composed;
* `Handling.leads_handle`, `Machine.leads_executeWithin` — what calls respect;
* `Machine.course_executeWithin` — the course that a call takes the processor.
-/

namespace M68k

theorem Cpu.settled_eq (c : Cpu) :
    c.settled = c.noted { c.notes with
      faultState := if c.faultState = .recovering then .normal else c.faultState } := by
  unfold settled
  split <;> rfl

namespace Composed

variable {model : Model} {grant : Grant} (noting : grant.notes = true)
include noting

theorem settle (before : StatusRegister) :
    Composed model grant fun _ _ => MachineM.settle before := by
  unfold MachineM.settle
  simp only [funext Cpu.settled_eq]
  exact .bind (.note _ (fun _ => rfl) noting) fun _ =>
    .cpu (fun _ _ _ => rfl) fun c _ => .ite (.trap _) (.pure _)

theorem begin : Composed model grant fun _ _ => MachineM.begin :=
  .bind (.note (fun c => { c.notes with ppc := c.registers.pc, flowChanged := false })
      (fun _ => rfl) noting) fun _ =>
    .bind status fun _ => .bind .fetch fun opcode =>
      .bind (.note (fun c => { c.notes with opcode }) (fun _ => rfl) noting) fun _ =>
        .bind capabilities fun _ => .cpu (fun _ _ _ => rfl) fun _ _ =>
          .bind (.spend _) fun _ => .pure _

theorem opening : Composed model grant fun _ _ => MachineM.opening :=
  .bind (.note (fun c => { c.notes with cycles := 0 }) (fun _ => rfl) noting) fun _ =>
    .bind (.askLevel noting) fun level => .cpu (fun _ _ _ => rfl) fun _ _ =>
      .bind (.note (fun c => { c.notes with lastLevel := level.setWidth 3 })
        (fun _ => rfl) noting) fun _ => .ite (.pure _) (.ite (.pure _) (begin noting))

theorem carryOut (host : Fpu.HostMath) (limit : Nat) (activity : Activity)
    (may : grant.privileged = true) (gives : grant.unwinds = true)
    (loads : ∀ before, activity = .perform before .lineF → grant.loads = true) :
    Composed model grant fun _ _ => MachineM.carryOut host limit activity := by
  cases activity with
  | interrupt level => exact .interrupt may level
  | wait => exact .spend _
  | perform before instruction =>
    have known : instruction = .lineF → grant.loads = true :=
      fun same => loads before (by rw [same])
    exact .bind (.performs host limit instruction known gives) fun _ => .settle noting before

end Composed

/-- The work of a call is composed of elementary actions. -/
theorem Composed.work {model : Model} (host : Fpu.HostMath) (limit : Nat) :
    Composed model ⟨true, true, true, true⟩ fun _ _ => MachineM.work host limit := by
  simp only [MachineM.work_eq]
  exact .bind (.opening rfl) fun activity =>
    .carryOut rfl host limit activity rfl rfl fun _ _ => rfl

variable {β : Type} [Bus β]

namespace Handling

section Leads

variable {R : Machine β → Machine β → Prop} (grant : Grant) (may : grant.privileged = true)
  (trans : ∀ {m m' m''}, R m m' → R m' m'' → R m m'')
  (acts : ∀ (m : Machine β) {x : Action Unit}, Composed m.cpu.model grant x → R m (x β m).2)
  (staged : ∀ (m : Machine β) faultState runState,
    R m ⟨{ m.cpu with faultState, runState }, m.bus⟩)
include may trans acts staged

theorem leads_handleAccess (vector : VectorNumber) (access : AccessFault) (m : Machine β) :
    R m (handleAccess vector access m).2 := by
  rw [handleAccess_apply]
  split
  · exact staged m _ _
  · have entered := trans (staged m .buildingFrame m.cpu.runState)
      (acts (atStage .buildingFrame m) (.enterAccess may vector access))
    generalize MachineM.enterAccess vector access (atStage .buildingFrame m) = outcome at entered ⊢
    obtain ⟨(_ | _ | _ | _ | _) | _, m'⟩ := outcome <;> exact trans entered (staged m' _ _)

/-- Handling a fault is made of composed actions, stages of doing so, and halting. -/
theorem leads_handle (refl : ∀ m, R m m) (fault : Fault) (m : Machine β) :
    R m (handle fault m).2 := by
  have entered (vector : VectorNumber) (returnAddress : BitVec 32) :
      R m (handleException vector returnAddress m).2 := by
    have first := acts m (.enter may vector returnAddress none)
    rw [handleException_apply]
    generalize MachineM.enter vector returnAddress none m = outcome at first ⊢
    obtain ⟨(_ | _ | _ | _ | _) | _, m'⟩ := outcome
    case error.bus | error.address =>
      exact trans first (leads_handleAccess (R := R) grant may trans acts staged _ _ m')
    case ok => exact first
    all_goals exact trans first (staged m' _ _)
  rw [handle_apply]
  cases fault with
  | bus access => exact leads_handleAccess (R := R) grant may trans acts staged _ access m
  | address access => exact leads_handleAccess (R := R) grant may trans acts staged _ access m
  | exception vector => exact entered vector _
  | trap vector => exact entered vector _
  | unfinished => exact refl m

end Leads

variable {loads notes : Bool} (m : Machine β)

theorem course_enter (vector : VectorNumber) (returnAddress : BitVec 32)
    (access : Option AccessFault) :
    m.cpu.Course loads notes (MachineM.enter vector returnAddress access m).2.cpu := by
  have composed : Composed m.cpu.model ⟨true, loads, false, notes⟩ fun _ _ =>
      MachineM.enter vector returnAddress access := .enter rfl vector returnAddress access
  exact composed.course m rfl

theorem course_handle (fault : Fault) :
    m.cpu.Course loads true (handle fault m).2.cpu := by
  refine leads_handle (R := fun m m' => m.cpu.Course loads true m'.cpu)
    ⟨true, loads, false, true⟩ rfl .trans ?_ ?_ (fun m => .refl m.cpu) fault m
  · exact fun m x composed => composed.course m rfl
  · exact fun m _ _ => .of_notes (.of_eq rfl rfl) rfl rfl rfl

end Handling

namespace Machine

variable (host : Fpu.HostMath) (limit : Nat) (m : Machine β)

/-- A call is its work, the handling of a fault, and keeping account of cycles. -/
theorem leads_executeWithin {R : Machine β → Machine β → Prop} (refl : ∀ m, R m m)
    (trans : ∀ {m m' m''}, R m m' → R m' m'' → R m m'')
    (worked : R m (MachineM.work host limit m).2)
    (handled : ∀ fault m, R m (Handling.handle fault m).2)
    (charges : ∀ m, R m m.charged) : R m (m.executeWithin host limit).2 := by
  by_cases halted : m.cpu.runState = .halted
  · rw [executeWithin_halted halted]
    exact refl m
  · rcases done : MachineM.work host limit m with ⟨fault | _, m'⟩
    · rw [done] at worked
      rw [executeWithin_error halted done]
      exact trans (trans worked (handled fault m')) (charges _)
    · rw [done] at worked
      rw [executeWithin_ok halted done]
      exact trans worked (charges m')

/-- A call takes the processor the course of its work. -/
theorem course_executeWithin_of {loads : Bool}
    (worked : m.cpu.Course loads true (MachineM.work host limit m).2.cpu) :
    m.cpu.Course loads true (m.executeWithin host limit).2.cpu := by
  refine leads_executeWithin (R := fun m m' => m.cpu.Course loads true m'.cpu) host limit m
    (fun m => .refl m.cpu) .trans worked ?_ ?_
  · exact fun fault m => Handling.course_handle m fault
  · exact fun m => .of_notes (.of_eq rfl rfl) rfl rfl rfl

/-- The course that a call takes the processor. -/
theorem course_executeWithin : m.cpu.Course true true (m.executeWithin host limit).2.cpu :=
  course_executeWithin_of host limit m ((Composed.work host limit).course m rfl)

end Machine

end M68k
