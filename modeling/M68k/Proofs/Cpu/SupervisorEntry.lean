import M68k.Proofs.Cpu.BusTrace
import M68k.Proofs.Cpu.Call
import M68k.Proofs.Cpu.Composition

/-!
# Entering supervisor mode

An exception saves nothing but the stack pointer, the program counter and the mode bits from change,
and uses the bus for the data of supervisors only.  When it is through, the program counter is the
last thing that was read, an entry of the vector table.

* `enter_enters` — what entering an exception does, whether it gets through or not;
* `handle_handled` — how the handling of a fault ends.
-/

namespace M68k

open MachineM

/-- Two register files with the same control registers. -/
structure Registers.SameControl (r r' : Registers) : Prop where
  vbr : r'.vbr = r.vbr
  sfc : r'.sfc = r.sfc
  dfc : r'.dfc = r.dfc
  cacr : r'.cacr = r.cacr
  caar : r'.caar = r.caar

namespace Registers.SameControl

variable {r r' r'' : Registers}

theorem refl (r : Registers) : r.SameControl r := ⟨rfl, rfl, rfl, rfl, rfl⟩

theorem trans (h : r.SameControl r') (h' : r'.SameControl r'') : r.SameControl r'' :=
  ⟨h'.vbr.trans h.vbr, h'.sfc.trans h.sfc, h'.dfc.trans h.dfc, h'.cacr.trans h.cacr,
    h'.caar.trans h.caar⟩

end Registers.SameControl

/-- Supervisor mode without tracing. -/
def StatusRegister.IsEntry (sr : StatusRegister) : Prop :=
  sr.has .s = true ∧ sr.has .t1 = false ∧ sr.has .t0 = false

/-- The space in which exceptions use the bus. -/
def entrySpaces : List FunctionCode := [.supervisorData]

/-- Where the vector table is. -/
def Cpu.vectorBase (c : Cpu) : BitVec 32 := if c.capabilities.vbr then c.registers.vbr else 0

/-- Where an entry of the vector table is. -/
def Cpu.vectorPlace (c : Cpu) (vector : VectorNumber) : BitVec 32 :=
  c.model.place (c.vectorBase + vector.setWidth 32 <<< 2)

theorem Cpu.vectorBase_congr {c c' : Cpu} (model : c'.model = c.model)
    (vbr : c'.registers.vbr = c.registers.vbr) : c'.vectorBase = c.vectorBase := by
  rw [vectorBase, vectorBase, capabilities_congr model, vbr]

theorem Cpu.vectorPlace_congr {c c' : Cpu} (model : c'.model = c.model)
    (vbr : c'.registers.vbr = c.registers.vbr) : c'.vectorPlace = c.vectorPlace := by
  funext vector
  rw [vectorPlace, vectorPlace, vectorBase_congr model vbr, model]

variable {β : Type} [Bus β]

namespace Machine

/-- Between two machines the bus saw these events and the processor stayed in its mode. -/
structure StaysBy (m : Machine β) (events : List BusEvent) (m' : Machine β) : Prop where
  control : m.cpu.registers.SameControl m'.cpu.registers
  sr : m'.cpu.registers.sr = m.cpu.registers.sr
  model : m'.cpu.model = m.cpu.model
  runState : m'.cpu.runState = m.cpu.runState
  within : ∀ e ∈ events, BusEvent.IsIn entrySpaces e
  bus : m'.bus = replay events m.bus

/-- The last event but one reads an entry of the vector table, the last one tells that execution
goes on there. -/
def LoadsHandler (m : Machine β) (events : List BusEvent) (m' : Machine β) : Prop :=
  ∃ (vector : VectorNumber) (before : List BusEvent),
    events = before ++ [.read .long (m.cpu.vectorPlace vector) .supervisorData,
      .pcChanged m'.cpu.registers.pc] ∧
    m'.cpu.registers.pc =
      (Bus.read .long (m.cpu.vectorPlace vector) .supervisorData (replay before m.bus)).1.data

namespace StaysBy

variable {m m' m'' : Machine β} {events later : List BusEvent}

theorem refl (m : Machine β) : m.StaysBy [] m := ⟨.refl _, rfl, rfl, rfl, by simp, rfl⟩

theorem trans (h : m.StaysBy events m') (h' : m'.StaysBy later m'') :
    m.StaysBy (events ++ later) m'' := by
  refine ⟨h.control.trans h'.control, h'.sr.trans h.sr, h'.model.trans h.model,
    h'.runState.trans h.runState, ?_, ?_⟩
  · intro e member
    rcases List.mem_append.mp member with first | second
    · exact h.within e first
    · exact h'.within e second
  · rw [h'.bus, h.bus, replay_append]

theorem vectorBase_eq (h : m.StaysBy events m') : m'.cpu.vectorBase = m.cpu.vectorBase :=
  Cpu.vectorBase_congr h.model h.control.vbr

theorem vectorPlace_eq (h : m.StaysBy events m') : m'.cpu.vectorPlace = m.cpu.vectorPlace :=
  Cpu.vectorPlace_congr h.model h.control.vbr

end StaysBy

end Machine

/-- An action that uses the bus as exceptions do. -/
def KeepsToEntry {α : Type} (x : MachineM β α) : Prop :=
  Leads (fun m m' => ∃ events, m.StaysBy events m') x

namespace KeepsToEntry

variable {α γ : Type}

theorem bind {x : MachineM β α} {f : α → MachineM β γ} (first : KeepsToEntry x)
    (rest : ∀ a, KeepsToEntry (f a)) : KeepsToEntry (x >>= f) :=
  Leads.bind (fun ⟨_, h⟩ ⟨_, h'⟩ => ⟨_, h.trans h'⟩) first rest

theorem pure (a : α) : KeepsToEntry (β := β) (Pure.pure a) := fun m => ⟨[], .refl m⟩

theorem cpu : KeepsToEntry (β := β) MachineM.cpu := fun m => ⟨[], .refl m⟩

theorem spend (cycles : Nat) : KeepsToEntry (β := β) (MachineM.spend cycles) :=
  fun _ => ⟨[], .refl _, rfl, rfl, rfl, by simp, rfl⟩

theorem setSp (value : BitVec 32) : KeepsToEntry (β := β) (MachineM.setSp value) := by
  intro m
  have same := m.cpu.registers.sameSystem_setSp value
  exact ⟨[], ⟨same.vbr, same.sfc, same.dfc, same.cacr, same.caar⟩, Registers.sr_setStack _ _ _, rfl,
    rfl, by simp, rfl⟩

theorem readIn (size : Size) (address : BitVec 32) :
    KeepsToEntry (β := β) (MachineM.readIn .supervisorData size address) := by
  intro m
  rw [readIn_apply]
  dsimp only
  split
  · exact ⟨[], .refl m⟩
  · split <;>
      exact ⟨[.read size _ .supervisorData], .refl _, rfl, rfl, rfl,
        by simp [BusEvent.IsIn, entrySpaces], rfl⟩

theorem writeIn (size : Size) (address value : BitVec 32) :
    KeepsToEntry (β := β) (MachineM.writeIn .supervisorData size address value) := by
  intro m
  rw [writeIn_apply]
  dsimp only
  split
  · exact ⟨[], .refl m⟩
  · split <;>
      exact ⟨[.write size _ _ .supervisorData], .refl _, rfl, rfl, rfl,
        by simp [BusEvent.IsIn, entrySpaces], rfl⟩

theorem jump (target : BitVec 32) : KeepsToEntry (β := β) (MachineM.jump target) := by
  intro m
  rw [jump_apply]
  split
  · exact ⟨[], .refl m⟩
  · exact ⟨[.pcChanged target], ⟨rfl, rfl, rfl, rfl, rfl⟩, rfl, rfl, rfl,
      by simp [BusEvent.IsIn], rfl⟩

theorem writeWords (place : BitVec 32) (words : List (BitVec 16)) :
    KeepsToEntry (β := β) (MachineM.writeWords place words) := by
  induction words generalizing place with
  | nil => exact pure ()
  | cons word rest ih => exact (writeIn .word place _).bind fun _ => ih (place + 2)

theorem pushFrame (format : FrameFormat) (vector : VectorNumber) (sr : StatusRegister)
    (returnAddress : BitVec 32) (access : Option AccessFault) :
    KeepsToEntry (β := β) (MachineM.pushFrame format vector sr returnAddress access) :=
  cpu.bind fun _ => (writeWords _ _).bind fun _ => setSp _

end KeepsToEntry

namespace Machine.LoadsHandler

variable {m m' m'' : Machine β} {events later : List BusEvent}

theorem after (place : m'.cpu.vectorPlace = m.cpu.vectorPlace)
    (bus : m'.bus = replay events m.bus) (h : m'.LoadsHandler later m'') :
    m.LoadsHandler (events ++ later) m'' := by
  obtain ⟨vector, before, rfl, loaded⟩ := h
  refine ⟨vector, events ++ before, ?_, ?_⟩
  · rw [place, List.append_assoc]
  · rw [loaded, place, bus, replay_append]

end Machine.LoadsHandler

namespace MachineM

/-- Reading an entry of the vector table and jumping there. -/
theorem readVector_jump {m m₁ m₂ : Machine β} {vector : VectorNumber} {handler : BitVec 32}
    (reads : readVector m.cpu.vectorBase vector m = (.ok handler, m₁))
    (jumps : jump handler m₁ = (.ok (), m₂)) :
    ∃ events, m.StaysBy events m₂ ∧ m.LoadsHandler events m₂ := by
  obtain ⟨found, rfl⟩ := readIn_ok reads
  obtain rfl := jump_ok jumps
  refine ⟨[.read .long (m.cpu.vectorPlace vector) .supervisorData, .pcChanged handler],
    ⟨⟨rfl, rfl, rfl, rfl, rfl⟩, rfl, rfl, rfl, ?_, rfl⟩, vector, [], rfl, ?_⟩
  · simp [BusEvent.IsIn, entrySpaces]
  · exact found.trans ((BitVec.setWidth_eq _).trans (BitVec.setWidth_eq _))

/-- Going on where an entry of the vector table says. -/
theorem jump_loads {m m₁ : Machine β} {vector : VectorNumber} {handler : BitVec 32}
    (reads : readVector m.cpu.vectorBase vector m = (.ok handler, m₁)) :
    ∃ events, m.StaysBy events (jump handler m₁).2 ∧
      ((jump handler m₁).1 = .ok () → m.LoadsHandler events (jump handler m₁).2) := by
  obtain ⟨read, reading⟩ := KeepsToEntry.readIn .long
    (m.cpu.vectorBase + vector.setWidth 32 <<< 2) m
  change m.StaysBy read (readVector _ vector m).2 at reading
  obtain ⟨jumped, jumping⟩ := KeepsToEntry.jump handler m₁
  rcases jumps : jump handler m₁ with ⟨fault | _, m₂⟩
  · rw [reads] at reading
    rw [jumps] at jumping
    exact ⟨_, reading.trans jumping, fun same => nomatch same⟩
  · obtain ⟨events, stays, loads⟩ := readVector_jump reads jumps
    exact ⟨events, stays, fun _ => loads⟩

/-- A handler is reached through an entry of the vector table. -/
theorem jumpToHandler_loads (m : Machine β) (vector : VectorNumber) :
    ∃ events, m.StaysBy events (jumpToHandler vector m).2 ∧
      ((jumpToHandler vector m).1 = .ok () → m.LoadsHandler events (jumpToHandler vector m).2) := by
  have reading (m : Machine β) (vector : VectorNumber) :
      ∃ events, m.StaysBy events (readVector m.cpu.vectorBase vector m).2 :=
    KeepsToEntry.readIn .long _ m
  unfold jumpToHandler
  rw [bind_ok (cpu_apply m)]
  show ∃ events, m.StaysBy events ((readVector m.cpu.vectorBase vector >>= _) m).2 ∧
    (((readVector m.cpu.vectorBase vector >>= _) m).1 = _ →
      m.LoadsHandler events ((readVector m.cpu.vectorBase vector >>= _) m).2)
  rw [bind_apply]
  obtain ⟨read, first⟩ := reading m vector
  rcases reads : readVector m.cpu.vectorBase vector m with ⟨fault | handler, m₁⟩
  · rw [reads] at first
    exact ⟨read, first, fun same => nomatch same⟩
  · rw [reads] at first
    dsimp only at first ⊢
    split
    · -- The entry is empty, and that of uninitialized interrupts is read instead.
      obtain ⟨again, second⟩ := reading m₁ .uninitialized
      show ∃ events, m.StaysBy events ((readVector m.cpu.vectorBase .uninitialized >>= _) m₁).2 ∧
        (((readVector m.cpu.vectorBase .uninitialized >>= _) m₁).1 = _ →
          m.LoadsHandler events ((readVector m.cpu.vectorBase .uninitialized >>= _) m₁).2)
      rw [← first.vectorBase_eq, bind_apply]
      rcases reads' : readVector m₁.cpu.vectorBase .uninitialized m₁ with ⟨fault | handler', m₂⟩
      · rw [reads'] at second
        exact ⟨_, first.trans second, fun same => nomatch same⟩
      · obtain ⟨events, stays, loads⟩ := jump_loads reads'
        exact ⟨_, first.trans stays, fun same => .after first.vectorPlace_eq first.bus (loads same)⟩
    · exact jump_loads reads

end MachineM

namespace StatusRegister

/-- A flag that a model has. -/
theorem has_masked {mask : StatusRegister} {flag : Flag} (present : mask.has flag = true)
    (sr : StatusRegister) : (sr &&& mask).has flag = sr.has flag := by
  rw [has, BitVec.getLsbD_and, ← has, ← has, present, Bool.and_true]

/-- Every model has the supervisor flag. -/
theorem IsEntry.masked {sr : StatusRegister} (h : sr.IsEntry) (model : Model) :
    (sr &&& model.statusMask).IsEntry := by
  refine ⟨?_, ?_, ?_⟩
  · rw [has_masked (by cases model <;> rfl)]
    exact h.1
  · rw [has, BitVec.getLsbD_and, ← has, h.2.1, Bool.false_and]
  · rw [has, BitVec.getLsbD_and, ← has, h.2.2, Bool.false_and]

/-- The master state is apart from the mode. -/
theorem IsEntry.set_m {sr : StatusRegister} (h : sr.IsEntry) (value : Bool) :
    (sr.set .m value).IsEntry :=
  ⟨(has_set_of_ne _ (by decide) _).trans h.1, (has_set_of_ne _ (by decide) _).trans h.2.1,
    (has_set_of_ne _ (by decide) _).trans h.2.2⟩

/-- In supervisor mode the master state selects the stack. -/
theorem IsEntry.stackOf_eq {sr : StatusRegister} (h : sr.IsEntry) :
    Registers.stackOf sr = if sr.has .m then .master else .interrupt := by
  rw [Registers.stackOf, h.1]
  rfl

end StatusRegister

/-- Between two machines an exception was entered, as far as it came, and the bus saw these
events. -/
structure Machine.Enters (m : Machine β) (events : List BusEvent) (m' : Machine β) : Prop where
  control : m.cpu.registers.SameControl m'.cpu.registers
  status : m'.cpu.registers.sr.IsEntry
  model : m'.cpu.model = m.cpu.model
  running : m'.cpu.runState = .running
  within : ∀ e ∈ events, BusEvent.IsIn entrySpaces e
  bus : m'.bus = replay events m.bus

/-- The machine when an exception has switched to supervisor mode. -/
def Machine.supervised (m : Machine β) : Machine β :=
  ⟨{ m.cpu.setStatus m.cpu.registers.sr.entryStatus with runState := .running }, m.bus⟩

omit [Bus β] in
theorem Machine.sr_supervised (m : Machine β) : m.supervised.cpu.registers.sr =
    m.cpu.registers.sr.entryStatus &&& m.cpu.model.statusMask :=
  congrArg Registers.sr (m.cpu.registers_setStatus _)

omit [Bus β] in
theorem Machine.isEntry_supervised (m : Machine β) : m.supervised.cpu.registers.sr.IsEntry := by
  rw [m.sr_supervised]
  exact .masked (StatusRegister.supervisor_entryStatus _) m.cpu.model

namespace MachineM

theorem enter_apply (vector : VectorNumber) (returnAddress : BitVec 32)
    (access : Option AccessFault) (m : Machine β) :
    enter vector returnAddress access m =
      (pushFrame (.ofVector m.cpu.capabilities.frames vector) vector m.cpu.registers.sr
          returnAddress access >>= fun _ =>
        spend (Timing.exception m.cpu.model vector) >>= fun _ => jumpToHandler vector)
        m.supervised :=
  rfl

theorem enterAccess_apply (vector : VectorNumber) (access : AccessFault) (m : Machine β) :
    enterAccess vector access m =
      enter vector
        (if m.cpu.capabilities.frames = .f68000 then m.cpu.registers.ppc + 2
          else m.cpu.registers.ppc)
        (some access) m := by
  unfold enterAccess
  rw [bind_ok (cpu_apply m)]

/-- After a frame the handler is looked up. -/
theorem jumpToHandler_after {x : MachineM β Unit} (first : KeepsToEntry x) (cycles : Nat)
    (vector : VectorNumber) (m : Machine β) {outcome : Except Fault Unit} {m' : Machine β}
    (done : (x >>= fun _ => spend cycles >>= fun _ => jumpToHandler vector) m = (outcome, m')) :
    ∃ events, m.StaysBy events m' ∧ (outcome = .ok () → m.LoadsHandler events m') := by
  obtain ⟨pushed, stays⟩ := first m
  rw [bind_apply] at done
  rcases pushes : x m with ⟨fault | _, m₁⟩
  · rw [pushes] at stays done
    obtain ⟨rfl, rfl⟩ := Prod.mk.inj done
    exact ⟨pushed, stays, fun same => nomatch same⟩
  · rw [pushes] at stays done
    dsimp only at stays done
    rw [bind_ok (spend_apply m₁ cycles)] at done
    obtain ⟨spent, spends⟩ := KeepsToEntry.spend cycles m₁
    obtain ⟨events, stays', loads⟩ := jumpToHandler_loads (spend cycles m₁).2 vector
    change jumpToHandler vector (spend cycles m₁).2 = (outcome, m') at done
    rw [done] at stays' loads
    have before := stays.trans spends
    exact ⟨_, before.trans stays', fun same => .after before.vectorPlace_eq before.bus (loads same)⟩

/-- Entering an exception leads to supervisor mode, whether it gets through or not; if it does, it
leads to a handler. -/
theorem enter_enters (vector : VectorNumber) (returnAddress : BitVec 32)
    (access : Option AccessFault) (m : Machine β) :
    ∃ events, m.Enters events (enter vector returnAddress access m).2 ∧
      ((enter vector returnAddress access m).1 = .ok () →
        m.LoadsHandler events (enter vector returnAddress access m).2) := by
  have switched : m.cpu.registers.SameControl m.supervised.cpu.registers :=
    ⟨rfl, rfl, rfl, rfl, rfl⟩
  rcases done : enter vector returnAddress access m with ⟨outcome, m'⟩
  rw [enter_apply] at done
  obtain ⟨events, stays, loads⟩ := jumpToHandler_after (.pushFrame _ _ _ _ _) _ _ _ done
  refine ⟨events, ⟨switched.trans stays.control, ?_, stays.model, stays.runState, stays.within,
    stays.bus⟩, loads⟩
  exact stays.sr ▸ m.isEntry_supervised

/-- A failed access likewise. -/
theorem enterAccess_enters (vector : VectorNumber) (access : AccessFault) (m : Machine β) :
    ∃ events, m.Enters events (enterAccess vector access m).2 ∧
      ((enterAccess vector access m).1 = .ok () →
        m.LoadsHandler events (enterAccess vector access m).2) := by
  rw [enterAccess_apply]
  exact enter_enters vector _ (some access) m

end MachineM

/-- How the handling of a fault ends that began at a machine. -/
inductive Machine.FaultEnd (m : Machine β) (events : List BusEvent) (m' : Machine β) :
    Except ExecuteError Unit → Prop where
  /-- At a handler. -/
  | handler (status : m'.cpu.registers.sr.IsEntry) (running : m'.cpu.runState = .running)
      (loads : m.LoadsHandler events m') : FaultEnd m events m' (.ok ())
  /-- In supervisor mode with an access that failed on the way. -/
  | doubleFault (address pc : BitVec 32) (status : m'.cpu.registers.sr.IsEntry)
      (halted : m'.cpu.runState = .halted) : FaultEnd m events m' (.error (.doubleFault address pc))
  /-- At once, since an earlier access was still being handled. -/
  | still (address pc : BitVec 32) (pending : m.cpu.faultState ≠ .normal) (quiet : events = [])
      (same : m'.cpu.registers = m.cpu.registers) (halted : m'.cpu.runState = .halted) :
      FaultEnd m events m' (.error (.doubleFault address pc))

/-- What the handling of a fault has done. -/
structure Machine.Handled (m : Machine β) (outcome : Except ExecuteError Unit) (m' : Machine β) :
    Prop where
  control : m.cpu.registers.SameControl m'.cpu.registers
  ends : ∃ events, (∀ e ∈ events, BusEvent.IsIn entrySpaces e) ∧ m'.bus = replay events m.bus ∧
    m.FaultEnd events m' outcome

namespace Handling

/-- A machine that was entering an exception halts. -/
theorem handled_halted {m m' : Machine β} {events : List BusEvent} (enters : m.Enters events m')
    (address : BitVec 32) : m.Handled (halted address m').1 (halted (α := Unit) address m').2 :=
  ⟨enters.control, events, enters.within, enters.bus, .doubleFault _ _ enters.status rfl⟩

theorem handleAccess_handled (vector : VectorNumber) (access : AccessFault) (m : Machine β) :
    m.Handled (handleAccess vector access m).1 (handleAccess vector access m).2 := by
  rw [handleAccess_apply]
  split
  · rename_i pending
    exact ⟨.refl _, [], by simp, rfl, .still _ _ pending rfl rfl rfl⟩
  · obtain ⟨events, enters, loads⟩ := enterAccess_enters vector access (atStage .buildingFrame m)
    generalize enterAccess vector access (atStage .buildingFrame m) = outcome at enters loads
    obtain ⟨control, status, model, running, within, bus⟩ := enters
    obtain ⟨(second | second | _ | _ | _) | _, m'⟩ := outcome
    case ok =>
      exact ⟨control, events, within, bus, .handler status running (loads rfl)⟩
    all_goals exact ⟨control, events, within, bus, .doubleFault _ _ status rfl⟩

theorem handleException_handled (vector : VectorNumber) (returnAddress : BitVec 32)
    (m : Machine β) :
    m.Handled (handleException vector returnAddress m).1
      (handleException vector returnAddress m).2 := by
  have replaced (vector : VectorNumber) (access : AccessFault) {events : List BusEvent}
      {m₁ : Machine β} (enters : m.Enters events m₁) :
      m.Handled (handleAccess vector access m₁).1 (handleAccess vector access m₁).2 := by
    obtain ⟨control, later, within, bus, ends⟩ := handleAccess_handled vector access m₁
    have place := Cpu.vectorPlace_congr enters.model enters.control.vbr
    refine ⟨enters.control.trans control, events ++ later, ?_, ?_, ?_⟩
    · intro e member
      exact (List.mem_append.mp member).elim (enters.within e) (within e)
    · rw [bus, enters.bus, replay_append]
    · generalize handleAccess vector access m₁ = result at ends
      obtain ⟨outcome, m'⟩ := result
      cases ends with
      | handler status running loads => exact .handler status running (loads.after place enters.bus)
      | doubleFault _ _ status halted => exact .doubleFault _ _ status halted
      | still _ _ pending quiet same halted =>
        exact .doubleFault _ _ (same ▸ enters.status) halted
  rw [handleException_apply]
  obtain ⟨events, enters, loads⟩ := enter_enters vector returnAddress none m
  generalize enter vector returnAddress none m = outcome at enters loads
  obtain ⟨(access | access | _ | _ | _) | _, m'⟩ := outcome
  case error.bus | error.address => exact replaced _ access enters
  case ok =>
    exact ⟨enters.control, events, enters.within, enters.bus,
      .handler enters.status enters.running (loads rfl)⟩
  all_goals exact handled_halted enters _

/-- **The handling of a fault** ends at a handler or halts the processor. -/
theorem handle_handled {fault : Fault} (known : fault ≠ .unfinished) (m : Machine β) :
    m.Handled (handle fault m).1 (handle fault m).2 := by
  rw [handle_apply]
  cases fault with
  | bus access => exact handleAccess_handled _ access m
  | address access => exact handleAccess_handled _ access m
  | exception vector => exact handleException_handled vector _ m
  | trap vector => exact handleException_handled vector _ m
  | unfinished => exact absurd rfl known

end Handling

end M68k
