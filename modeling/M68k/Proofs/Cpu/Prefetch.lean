import M68k.Proofs.Cpu.CallCourse
import M68k.Proofs.Cpu.Ram
import M68k.Proofs.Cpu.WatchedBus

/-!
# Reading ahead makes no difference

A processor that reads ahead and one that does not make the same calls, as long as no word changes
while it is held.  What is left to show is that the handling of faults does not depend on what was
read ahead either, and then that calls follow each other.

* `Transparent.executeWithin` — a call is transparent;
* `prefetch_transparent` — so is a run of calls.
-/

namespace M68k

open MachineM

namespace Handling

/-- Entering the exception of a failed access. -/
def entering (vector : VectorNumber) (access : AccessFault) : Behaviour (Except Fault Unit) :=
  fun _ _ m => enterAccess vector access (atStage .buildingFrame m)

/-- What follows it. -/
def afterEntering (access : AccessFault) : Except Fault Unit → Behaviour (Except ExecuteError Unit)
  | .ok () => fun _ _ m => (.ok (), atStage .recovering m)
  | .error (.bus second) | .error (.address second) => fun _ _ m => halted second.address m
  | .error _ => fun _ _ m => halted access.address m

/-- What follows the entry of any other exception. -/
def afterEntry : Except Fault Unit → Behaviour (Except ExecuteError Unit)
  | .ok () => fun _ _ m => (.ok (), m)
  | .error (.bus access) => fun _ _ m => handleAccess .busError access m
  | .error (.address access) => fun _ _ m => handleAccess .addressError access m
  | .error _ => fun _ _ m => halted m.cpu.registers.sp m

end Handling

namespace Machine

/-- The end of a call: its cycles are charged. -/
def charging (outcome : Except ExecuteError Unit) : Behaviour (Except ExecuteError Nat) :=
  fun _ _ m => (outcome.map fun _ => m.cpu.cycles, m.charged)

/-- What follows the work of a call. -/
def afterWork : Except Fault Unit → Behaviour (Except ExecuteError Nat)
  | .ok () => charging (.ok ())
  | .error fault => fun β _ m =>
    charging (Handling.handle fault m).1 β (Handling.handle fault m).2

end Machine

variable {β : Type} [Bus β] [SteadyFetch β] {a : Machine (Watched β)}

namespace Transparent

omit [SteadyFetch β] in
/-- Halting, for an access at some address. -/
theorem halted (address : BitVec 32) :
    Transparent (ρ := Except ExecuteError Unit) (fun _ _ m => Handling.halted address m) a :=
  .modify (ρ := Except ExecuteError Unit)
    (fun c => .error (.doubleFault address c.registers.ppc))
    (fun c => { c with runState := .halted }) (fun _ => ⟨rfl, rfl⟩) fun _ => ⟨rfl, rfl⟩

omit [SteadyFetch β] in
/-- A stage of handling a failed access. -/
theorem atStage (state : FaultState) :
    Transparent (ρ := Except ExecuteError Unit)
      (fun _ _ m => (.ok (), Handling.atStage state m)) a :=
  .modify (ρ := Except ExecuteError Unit) (fun _ => .ok ())
    (fun c => { c with faultState := state }) (fun _ => ⟨rfl, rfl⟩) fun _ => ⟨rfl, rfl⟩

/-- Entering the exception of a failed access. -/
theorem entering (vector : VectorNumber) (access : AccessFault) :
    Transparent (Handling.entering vector access) a := by
  have composed : Composed a.cpu.model ⟨true, false, false, false⟩ fun _ _ =>
      enterAccess vector access := .enterAccess rfl vector access
  have after : Transparent (ρ := Except Fault Unit) (fun _ _ m => enterAccess vector access m)
      (Handling.atStage .buildingFrame a) := composed.transparent _ rfl
  have both := andThen (k := fun _ _ _ m => enterAccess vector access m)
    (atStage .buildingFrame) after
  exact both

theorem handleAccess (vector : VectorNumber) (access : AccessFault) :
    Transparent (ρ := Except ExecuteError Unit)
      (fun _ _ m => Handling.handleAccess vector access m) a := by
  refine congr (fun β _ m => ?_) (ofCpu (k := fun c β _ m =>
    if c.faultState ≠ .normal then Handling.halted access.address m
    else
      let entered := Handling.entering vector access β m
      Handling.afterEntering access entered.1 β entered.2) rfl ?_)
  · rw [Handling.handleAccess_apply]
    split
    · rfl
    · dsimp only [Handling.entering]
      obtain ⟨(_ | _ | _ | _ | _) | _, m'⟩ :=
        enterAccess vector access (Handling.atStage .buildingFrame m) <;> rfl
  · split
    · exact halted access.address
    · have entered : Transparent (Handling.entering vector access) a := entering vector access
      refine .andThen (k := Handling.afterEntering access) entered ?_
      rcases (Handling.entering vector access (Watched β) a).1 with (_ | _ | _ | _ | _) | _
      case ok => exact atStage .recovering
      all_goals exact halted _

theorem handleException (vector : VectorNumber) (returnAddress : BitVec 32) :
    Transparent (ρ := Except ExecuteError Unit)
      (fun _ _ m => Handling.handleException vector returnAddress m) a := by
  have entered : Transparent (ρ := Except Fault Unit)
      (fun _ _ m => enter vector returnAddress none m) a := by
    have composed : Composed a.cpu.model ⟨true, false, false, false⟩ fun _ _ =>
        enter vector returnAddress none := .enter rfl vector returnAddress none
    exact composed.transparent a rfl
  refine congr (fun β _ m => ?_) (.andThen (k := Handling.afterEntry) entered ?_)
  · rw [Handling.handleException_apply]
    obtain ⟨(_ | _ | _ | _ | _) | _, m'⟩ := enter vector returnAddress none m <;> rfl
  · rcases (enter vector returnAddress none a).1 with (_ | _ | _ | _ | _) | _
    case ok => exact .result (.ok ())
    case error.bus access => exact handleAccess .busError access
    case error.address access => exact handleAccess .addressError access
    all_goals
      exact .ofCpu (k := fun c β _ m => Handling.halted c.registers.sp m) rfl (halted _)

theorem handle (fault : Fault) :
    Transparent (ρ := Except ExecuteError Unit) (fun _ _ m => Handling.handle fault m) a := by
  refine congr (fun β _ m => Handling.handle_apply fault m) ?_
  cases fault with
  | bus access => exact handleAccess _ access
  | address access => exact handleAccess _ access
  | exception vector =>
    exact .ofCpu (k := fun c β _ m => Handling.handleException vector c.registers.ppc m) rfl
      (handleException _ _)
  | trap vector =>
    exact .ofCpu (k := fun c β _ m => Handling.handleException vector c.registers.pc m) rfl
      (handleException _ _)
  | unfinished => exact .result (.error ExecuteError.unfinished)

omit [SteadyFetch β] in
theorem charging (outcome : Except ExecuteError Unit) : Transparent (Machine.charging outcome) a :=
  .modify (fun c => outcome.map fun _ => c.cycles)
    (fun c => { c with elapsed := c.elapsed.advance c.cycles })
    (fun _ => ⟨rfl, rfl⟩) fun _ => ⟨rfl, rfl⟩

/-- A call is transparent. -/
theorem executeWithin (host : Fpu.HostMath) (limit : Nat) :
    Transparent (fun _ _ m => m.executeWithin host limit) a := by
  refine congr (fun β _ m => ?_) (ofCpu (k := fun c β _ m =>
    if c.runState = .halted then (.error .halted, m)
    else
      let worked := MachineM.work host limit m
      Machine.afterWork worked.1 β worked.2) rfl ?_)
  · split
    next stopped => exact Machine.executeWithin_halted stopped
    next active =>
      rcases done : MachineM.work host limit m with ⟨fault | _, m'⟩
      · exact Machine.executeWithin_error active done
      · exact Machine.executeWithin_ok active done
  · split
    · exact .result (.error ExecuteError.halted)
    · have worked : Transparent (ρ := Except Fault Unit)
          (fun _ _ m => MachineM.work host limit m) a :=
        (Composed.work host limit).transparent a rfl
      refine .andThen (k := Machine.afterWork) worked ?_
      cases (MachineM.work host limit a).1 with
      | ok => exact charging (.ok ())
      | error fault => exact .andThen (k := Machine.charging) (handle fault) (charging _)

end Transparent

namespace Machine

/-- The machine with reading ahead switched on or off. -/
def withPrefetch {β : Type} (enabled : Bool) (m : Machine β) : Machine β :=
  ⟨m.cpu.setPrefetch enabled, m.bus⟩

/-- The machine with reading ahead switched on, and a watch on its bus. -/
def watched {β : Type} (m : Machine β) : Machine (Watched β) :=
  ⟨m.cpu.setPrefetch true, ⟨m.bus, none, false⟩⟩

variable (host : Fpu.HostMath) (limit : Nat)

/-- What was touched stays touched. -/
theorem untouched_called (a : Machine (Watched β)) {k n : Nat} (le : k ≤ n)
    (untouched : (a.called host limit n).bus.touched = false) :
    (a.called host limit k).bus.touched = false := by
  induction le with
  | refl => exact untouched
  | step _ ih =>
    exact ih <| Bool.eq_false_iff.mpr fun touched => Bool.eq_false_iff.mp untouched <|
      (Transparent.executeWithin host limit).stays touched

/-- Watching the bus does not change a run. -/
theorem unwatched_called (a : Machine (Watched β)) (n : Nat) :
    (a.called host limit n).unwatched = a.unwatched.called host limit n := by
  induction n with
  | zero => rfl
  | succ n ih =>
    have call := (Transparent.executeWithin host limit (a := a.called host limit n)).erases
    rw [called, called, ← ih, call]

/-- Without a touch, a processor that does not read ahead does not change a run either. -/
theorem plain_called (a : Machine (Watched β)) (coherent : a.Coherent) (n : Nat)
    (untouched : (a.called host limit n).bus.touched = false) :
    (a.called host limit n).plain = a.plain.called host limit n ∧
      (a.called host limit n).Coherent := by
  induction n with
  | zero => exact ⟨rfl, coherent⟩
  | succ n ih =>
    obtain ⟨same, coherent⟩ := ih (untouched_called host limit a n.le_succ untouched)
    rcases (Transparent.executeWithin host limit).plain coherent with touched | ⟨call, after⟩
    · exact absurd touched (Bool.eq_false_iff.mp untouched)
    · rw [called, called, ← same, call]
      exact ⟨rfl, after⟩

end Machine

/-- **Reading ahead makes no difference.**  If in a run of calls no word changes on the bus while it
is held, then after each call a processor that reads ahead and one that does not agree, with their
buses, in everything but what was read ahead, and so do the outcomes of the calls.  The watch knows
at each time which word is held, and does not change the run. -/
theorem prefetch_transparent (host : Fpu.HostMath) (limit : Nat) (m : Machine β) (n : Nat)
    (untouched : (m.watched.called host limit n).bus.touched = false) {k : Nat} (le : k ≤ n) :
    let watched := m.watched.called host limit k
    let ahead := (m.withPrefetch true).called host limit k
    let plain := (m.withPrefetch false).called host limit k
    plain = ahead.withPrefetch false ∧
      (k < n → (plain.executeWithin host limit).1 = (ahead.executeWithin host limit).1) ∧
      watched.unwatched = ahead ∧ watched.bus.held = ahead.cpu.prefetched.map (·.address) := by
  intro watched ahead plain
  have before {k : Nat} (le : k ≤ n) : (m.watched.called host limit k).bus.touched = false :=
    Machine.untouched_called host limit m.watched le untouched
  have start : m.watched.Coherent := ⟨rfl, rfl, .of_none rfl⟩
  have erased : watched.unwatched = ahead := Machine.unwatched_called host limit m.watched k
  obtain ⟨same, coherent⟩ := Machine.plain_called host limit m.watched start k (before le)
  have shadow : watched.plain = plain := same
  refine ⟨?_, fun lt => ?_, erased, ?_⟩
  · rw [← shadow, ← erased]
    rfl
  · have call := (Transparent.executeWithin host limit (a := watched)).erases
    rcases (Transparent.executeWithin host limit).plain coherent with touched | ⟨call', -⟩
    · exact absurd touched (Bool.eq_false_iff.mp (before lt))
    · rw [← shadow, ← erased, call, call']
  · rw [← erased]
    exact coherent.held

instance : SteadyFetch Bytes where
  bus_fetch _ _ _ := rfl
  wait_fetch _ _ _ := rfl
  fetch_space _ _ _ _ := rfl
  error_fetch _ _ _ _ := rfl

/-- A 68000 with a program that writes a word of zeroes to an address and goes on at 1004. -/
def clearing (target : BitVec 16) : Machine Bytes where
  cpu := (Cpu.new .m68000).resetTo 0x4000 0x1000
  bus address :=
    let word := [0x31C0, target, 0x4E71].getD ((address - 0x1000).toNat / 2) 0
    if address.getLsbD 0 then word.extractLsb' 0 8 else word.extractLsb' 8 8

/-- Where the program writes elsewhere, reading ahead makes no difference. -/
theorem clearing_transparent :
    ((clearing 0x2000).watched.called .native Machine.frameLimit 2).bus.touched = false ∧
      ((clearing 0x2000).withPrefetch false).called .native Machine.frameLimit 2 =
        (((clearing 0x2000).withPrefetch true).called .native Machine.frameLimit 2).withPrefetch
          false := by
  have untouched :
      ((clearing 0x2000).watched.called .native Machine.frameLimit 2).bus.touched = false := by
    decide +kernel
  have agree := prefetch_transparent .native Machine.frameLimit (clearing 0x2000) 2 untouched
    (Nat.le_refl 2)
  exact ⟨untouched, agree.1⟩

-- where it writes over its next instruction, that one is still performed
example :
    let opcode (enabled : Bool) :=
      (((clearing 0x1004).withPrefetch enabled).called .native Machine.frameLimit 2).cpu.opcode
    opcode true = 0x4E71 ∧ opcode false = 0 := by
  decide +kernel

end M68k
