import M68k.Proofs.Cpu.BusTrace
import M68k.Proofs.Cpu.CallCourse

/-!
# Views of a bus

A bus may keep more than what it shows to the processor, such as a log.  A view of it is a bus that
gives the same answers without that.  No action can tell a bus from a view of it: it ends alike, and
leaves the view of the bus that it would have left.

* `Composed.seen`, `executeWithin_seen`, `reset_seen` — actions, calls and resets on a view;
* `Logged.isView` — a bus is a view of itself with a log.
-/

namespace M68k

open MachineM

/-- What a bus shows is a bus that answers alike. -/
structure Bus.IsView {β γ : Type} [Bus β] [Bus γ] (shows : β → γ) : Prop where
  read : ∀ size address space b, Bus.read size address space (shows b) =
    ((Bus.read size address space b).1, shows (Bus.read size address space b).2)
  write : ∀ size address value space b, Bus.write size address value space (shows b) =
    ((Bus.write size address value space b).1, shows (Bus.write size address value space b).2)
  fetch : ∀ address space b, Bus.fetch address space (shows b) =
    ((Bus.fetch address space b).1, shows (Bus.fetch address space b).2)
  interruptLevel : ∀ b, Bus.interruptLevel (shows b) =
    ((Bus.interruptLevel b).1, shows (Bus.interruptLevel b).2)
  acknowledge : ∀ level b, Bus.acknowledge level (shows b) =
    ((Bus.acknowledge level b).1, shows (Bus.acknowledge level b).2)
  reset : ∀ b, Bus.reset (shows b) = shows (Bus.reset b)
  illegal : ∀ opcode b, Bus.illegal opcode (shows b) =
    ((Bus.illegal opcode b).1, shows (Bus.illegal opcode b).2)
  pcChanged : ∀ target b, Bus.pcChanged target (shows b) = shows (Bus.pcChanged target b)

/-- A bus is what it shows with a log. -/
theorem Logged.isView (β : Type) [Bus β] : Bus.IsView (Logged.bus (β := β)) :=
  ⟨fun _ _ _ _ => rfl, fun _ _ _ _ _ => rfl, fun _ _ _ => rfl, fun _ => rfl, fun _ _ => rfl,
    fun _ => rfl, fun _ _ => rfl, fun _ _ => rfl⟩

variable {β γ : Type}

/-- The machine with what its bus shows. -/
def Machine.seen (shows : β → γ) (m : Machine β) : Machine γ := ⟨m.cpu, shows m.bus⟩

variable {shows : β → γ}

/-- An action ends alike on a machine and on a view of it. -/
def SeenAlike {α : Type} (shows : β → γ) (m : Machine β) (x : MachineM β α) (y : MachineM γ α) :
    Prop :=
  y (m.seen shows) = ((x m).1, (x m).2.seen shows)

namespace SeenAlike

variable {α δ : Type} {m : Machine β}

theorem bind {x : MachineM β α} {y : MachineM γ α} {f : α → MachineM β δ} {g : α → MachineM γ δ}
    (first : SeenAlike shows m x y) (rest : ∀ a, SeenAlike shows (x m).2 (f a) (g a)) :
    SeenAlike shows m (x >>= f) (y >>= g) := by
  unfold SeenAlike at first ⊢
  rw [bind_apply, bind_apply, first]
  generalize x m = outcome at rest
  obtain ⟨fault | a, m'⟩ := outcome
  · rfl
  · exact rest a

/-- The processor is the same on both machines. -/
theorem cpu {f : Cpu → MachineM β α} {g : Cpu → MachineM γ α}
    (rest : SeenAlike shows m (f m.cpu) (g m.cpu)) :
    SeenAlike shows m (MachineM.cpu >>= f) (MachineM.cpu >>= g) := by
  unfold SeenAlike at rest ⊢
  rw [bind_ok (cpu_apply m), bind_ok (cpu_apply _)]
  exact rest

theorem requireSupervisor :
    SeenAlike shows m MachineM.requireSupervisor MachineM.requireSupervisor := by
  unfold SeenAlike
  rw [requireSupervisor_apply, requireSupervisor_apply]
  rfl

theorem onUnit (vector : VectorNumber) (change : Fpu → Option (α × Fpu)) :
    SeenAlike shows m (MachineM.onUnit vector change) (MachineM.onUnit vector change) := by
  unfold SeenAlike
  rw [onUnit_apply, onUnit_apply, show (m.seen shows).cpu = m.cpu from rfl]
  cases m.cpu.fpu with
  | none => rfl
  | some fpu =>
    dsimp only
    split <;> rfl

theorem onBus {exchange : β → α × β} {exchange' : γ → α × γ}
    (alike : exchange' (shows m.bus) = ((exchange m.bus).1, shows (exchange m.bus).2)) :
    SeenAlike shows m (MachineM.onBus exchange) (MachineM.onBus exchange') := by
  unfold SeenAlike
  rw [onBus_apply, onBus_apply, Machine.seen, alike]
  rfl

variable [Bus β] [Bus γ] (view : Bus.IsView shows)
include view

theorem readIn (space : FunctionCode) (size : Size) (address : BitVec 32) :
    SeenAlike shows m (MachineM.readIn space size address)
      (MachineM.readIn space size address) := by
  show MachineM.readIn space size address ⟨m.cpu, shows m.bus⟩ = _
  rw [readIn_apply, readIn_apply]
  dsimp only
  rw [view.read]
  split
  · rfl
  · split <;> rfl

theorem writeIn (space : FunctionCode) (size : Size) (address value : BitVec 32) :
    SeenAlike shows m (MachineM.writeIn space size address value)
      (MachineM.writeIn space size address value) := by
  show MachineM.writeIn space size address value ⟨m.cpu, shows m.bus⟩ = _
  rw [writeIn_apply, writeIn_apply]
  dsimp only
  rw [view.write]
  split
  · rfl
  · split <;> rfl

theorem jump (target : BitVec 32) :
    SeenAlike shows m (MachineM.jump target) (MachineM.jump target) := by
  unfold SeenAlike
  rw [jump_apply, jump_apply]
  dsimp only [Machine.seen]
  rw [view.pcChanged]
  split <;> rfl

/-- Reading ahead after a fetch. -/
theorem afterFetch (next : BitVec 32) (outcome : Except Fault (BitVec 16) × Machine β) :
    MachineM.afterFetch (m.seen shows) next (outcome.1, outcome.2.seen shows) =
      ((MachineM.afterFetch m next outcome).1,
        (MachineM.afterFetch m next outcome).2.seen shows) := by
  obtain ⟨fault | word, found⟩ := outcome
  · rfl
  · have ahead : (readAhead next m.cpu.programCode (found.seen shows)).2 =
        (readAhead next m.cpu.programCode found).2.seen shows := by
      rw [readAhead_apply, readAhead_apply]
      dsimp only [Machine.seen]
      rw [view.fetch]
    dsimp only [MachineM.afterFetch]
    rw [show (m.seen shows).cpu = m.cpu from rfl, ahead]
    split <;> rfl

theorem fetch : SeenAlike shows m MachineM.fetch MachineM.fetch := by
  have looked (access : AccessFault) (m : Machine β) :
      fetchFromBus access (m.seen shows) =
        ((fetchFromBus access m).1, (fetchFromBus access m).2.seen shows) := by
    rw [fetchFromBus_apply, fetchFromBus_apply]
    dsimp only [Machine.seen]
    rw [view.fetch]
    split <;> rfl
  unfold SeenAlike
  rw [fetch_apply, fetch_apply, show (m.seen shows).cpu = m.cpu from rfl]
  dsimp only
  split
  · rfl
  · cases prefetchedAt? m.cpu (m.cpu.registers.pc &&& m.cpu.model.addressMask) with
    | some word =>
      exact afterFetch view _ (.ok word, ⟨m.cpu.setPc (m.cpu.registers.pc + 2), m.bus⟩)
    | none =>
      rw [← afterFetch view, ← looked]
      rfl

end SeenAlike

section Calls

variable [Bus β] [Bus γ] (view : Bus.IsView shows)
include view

/-- No composed action can tell a bus from a view of it. -/
theorem Composed.seen {α : Type} {model : Model} {grant : Grant} {x : Action α}
    (h : Composed model grant x) (m : Machine β) (known : m.cpu.model = model) :
    SeenAlike shows m (x β) (x γ) := by
  induction h generalizing m with
  | bind first _ ihx ihf => exact .bind (ihx m known) fun a => ihf a _ (first.model_eq m known)
  | cpu _ _ ih => exact .cpu (ih m.cpu known m known)
  | guarded _ ih =>
    refine .bind .requireSupervisor fun u => ?_
    rw [requireSupervisor_stays]
    exact ih u m known
  | requireSupervisor => exact .requireSupervisor
  | onUnit vector => exact .onUnit vector _
  | read size address => exact .cpu (.readIn view m.cpu.dataCode size address)
  | readProgram size address => exact .cpu (.readIn view m.cpu.programCode size address)
  | write size address value => exact .cpu (.writeIn view m.cpu.dataCode size address value)
  | readIn space size address => exact .readIn view space size address
  | writeIn space size address value => exact .writeIn view space size address value
  | fetch => exact .fetch view
  | jump target => exact .jump view target
  | askIllegal opcode => exact .onBus (view.illegal opcode m.bus)
  | acknowledge level => exact .onBus (view.acknowledge level m.bus)
  | askLevel => exact .onBus (view.interruptLevel m.bus)
  | resetLine => exact .onBus (congrArg (Prod.mk ()) (view.reset m.bus))
  | _ => rfl

namespace Handling

/-- Handling a failed access, or another fault, ends alike on a view. -/
theorem handleAccess_seen (vector : VectorNumber) (access : AccessFault) (m : Machine β) :
    handleAccess vector access (m.seen shows) =
      ((handleAccess vector access m).1, (handleAccess vector access m).2.seen shows) := by
  have composed : Composed m.cpu.model ⟨true, false, false, false⟩ fun _ _ =>
      enterAccess vector access := .enterAccess rfl vector access
  have entered := composed.seen view (atStage .buildingFrame m) rfl
  unfold SeenAlike at entered
  rw [handleAccess_apply, handleAccess_apply,
    show atStage .buildingFrame (m.seen shows) = (atStage .buildingFrame m).seen shows from rfl,
    entered]
  show (if m.cpu.faultState ≠ .normal then _ else _) = _
  split
  · rfl
  · rcases enterAccess vector access (atStage .buildingFrame m) with
      ⟨(_ | _ | _ | _ | _) | _, m'⟩ <;> rfl

theorem handle_seen (fault : Fault) (m : Machine β) :
    handle fault (m.seen shows) = ((handle fault m).1, (handle fault m).2.seen shows) := by
  have entered (vector : VectorNumber) (returnAddress : BitVec 32) :
      handleException vector returnAddress (m.seen shows) =
        ((handleException vector returnAddress m).1,
          (handleException vector returnAddress m).2.seen shows) := by
    have composed : Composed m.cpu.model ⟨true, false, false, false⟩ fun _ _ =>
        enter vector returnAddress none := .enter rfl vector returnAddress none
    have entry : enter vector returnAddress none (m.seen shows) = _ := composed.seen view m rfl
    rw [handleException_apply, handleException_apply, entry]
    rcases enter vector returnAddress none m with ⟨(_ | _ | _ | _ | _) | _, m'⟩
    case error.bus | error.address => exact handleAccess_seen view _ _ m'
    all_goals rfl
  rw [handle_apply, handle_apply]
  cases fault with
  | bus access => exact handleAccess_seen view _ access m
  | address access => exact handleAccess_seen view _ access m
  | exception vector => exact entered vector m.cpu.registers.ppc
  | trap vector => exact entered vector m.cpu.registers.pc
  | unfinished => rfl

end Handling

namespace Machine

/-- A call ends alike on a view. -/
theorem executeWithin_seen (host : Fpu.HostMath) (limit : Nat) (m : Machine β) :
    (m.seen shows).executeWithin host limit =
      ((m.executeWithin host limit).1, (m.executeWithin host limit).2.seen shows) := by
  have worked : MachineM.work host limit (m.seen shows) = _ :=
    (Composed.work host limit).seen view m rfl
  by_cases halted : m.cpu.runState = .halted
  · rw [executeWithin_halted halted,
      executeWithin_halted (show (m.seen shows).cpu.runState = .halted from halted)]
  · have active : (m.seen shows).cpu.runState ≠ .halted := halted
    rcases done : MachineM.work host limit m with ⟨fault | _, m'⟩
    · rw [done] at worked
      rw [executeWithin_error halted done, executeWithin_error active worked,
        Handling.handle_seen view]
      generalize Handling.handle fault m' = outcome
      rfl
    · rw [done] at worked
      rw [executeWithin_ok halted done, executeWithin_ok active worked]
      rfl

/-- A reset ends alike on a view. -/
theorem reset_seen (m : Machine β) : (m.seen shows).reset = m.reset.seen shows := by
  rw [reset_apply, reset_apply]
  dsimp only [seen]
  rw [view.read, view.read]

end Machine

end Calls

end M68k
