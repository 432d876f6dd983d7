import M68k.Cpu.Exception
import M68k.Proofs.Cpu.Action

/-!
# What actions cost

A bus can hold up an access for at most 255 cycles, so every action without a loop has a bound on
the cycles it adds.  The bound of a sequence is the sum of the bounds.

* `costs_enter` — entering an exception costs a bounded number of cycles, whatever its frame is.
-/

namespace M68k

variable {β α γ : Type}

theorem FrameFormat.words_le (format : FrameFormat) : format.words ≤ 46 := by
  cases format <;> decide

theorem Timing.exception_le (model : Model) (vector : VectorNumber) :
    exception model vector ≤ 50 := by
  unfold exception
  split <;> first | decide | split <;> decide

/-- An action adds at most so many cycles to those of the current call. -/
def Costs (most : Nat) (x : MachineM β α) : Prop :=
  ∀ m, (x m).2.cpu.cycles ≤ m.cpu.cycles + most

namespace Costs

open MachineM

variable {most more : Nat}

theorem mono {x : MachineM β α} (h : Costs most x) (le : most ≤ more) : Costs more x :=
  fun m => Nat.le_trans (h m) (Nat.add_le_add_left le _)

theorem bind {x : MachineM β α} {f : α → MachineM β γ} (first : Costs most x) (more : Nat)
    (rest : ∀ a, Costs more (f a)) : Costs (most + more) (x >>= f) := by
  intro m
  rw [bind_apply]
  have hx := first m
  generalize x m = outcome at hx
  obtain ⟨fault | a, m'⟩ := outcome
  · dsimp only at hx ⊢
    omega
  · have hf := rest a m'
    dsimp only at hx ⊢
    omega

theorem ite {c : Prop} [Decidable c] {x y : MachineM β α} (yes : Costs most x)
    (no : Costs most y) : Costs most (if c then x else y) := by
  split
  · exact yes
  · exact no

/-- After an action that costs nothing, what follows may cost as much as the whole. -/
theorem free {x : MachineM β α} {f : α → MachineM β γ} (first : Costs 0 x)
    (rest : ∀ a, Costs most (f a)) : Costs most (x >>= f) := by
  simpa using first.bind _ rest

theorem pure (a : α) : Costs (β := β) most (Pure.pure a) := fun _ => Nat.le_add_right _ _

theorem throw (fault : Fault) : Costs (β := β) most (MonadExcept.throw fault : MachineM β α) :=
  fun _ => Nat.le_add_right _ _

theorem cpu : Costs (β := β) most MachineM.cpu := fun _ => Nat.le_add_right _ _

theorem sp : Costs (β := β) most MachineM.sp := fun _ => Nat.le_add_right _ _

theorem status : Costs (β := β) most MachineM.status := fun _ => Nat.le_add_right _ _

theorem capabilities : Costs (β := β) most MachineM.capabilities := fun _ => Nat.le_add_right _ _

theorem modifyRegisters (change : Registers → Registers) :
    Costs (β := β) most (MachineM.modifyRegisters change) :=
  fun _ => Nat.le_add_right _ _

theorem setStatus (value : StatusRegister) : Costs (β := β) most (MachineM.setStatus value) :=
  fun _ => Nat.le_add_right _ _

theorem setRunState (state : RunState) :
    Costs (β := β) most (MachineM.modifyCpu fun c => { c with runState := state }) :=
  fun _ => Nat.le_add_right _ _

theorem spend (cycles : Nat) : Costs (β := β) cycles (MachineM.spend cycles) :=
  fun _ => Nat.le_refl _

theorem enterSupervisor : Costs (β := β) most MachineM.enterSupervisor :=
  status.free fun old => (setStatus _).free fun _ => pure old

variable [Bus β]

theorem readIn (space : FunctionCode) (size : Size) (address : BitVec 32) :
    Costs (β := β) 255 (MachineM.readIn space size address) := by
  intro m
  rw [readIn_apply]
  dsimp only
  have wait := (Bus.read size (address &&& m.cpu.model.addressMask) space m.bus).1.wait.isLt
  split
  · exact Nat.le_add_right _ _
  · split <;> exact Nat.add_le_add_left (by omega) _

theorem writeIn (space : FunctionCode) (size : Size) (address value : BitVec 32) :
    Costs (β := β) 255 (MachineM.writeIn space size address value) := by
  intro m
  rw [writeIn_apply]
  dsimp only
  have wait := (Bus.write size (address &&& m.cpu.model.addressMask) (size.truncate value) space
    m.bus).1.wait.isLt
  split
  · exact Nat.le_add_right _ _
  · split <;> exact Nat.add_le_add_left (by omega) _

theorem read (size : Size) (address : BitVec 32) :
    Costs (β := β) 255 (MachineM.read size address) :=
  cpu.free fun c => readIn c.dataCode size address

theorem jump (target : BitVec 32) : Costs (β := β) most (MachineM.jump target) := by
  intro m
  rw [jump_apply]
  split <;> exact Nat.le_add_right _ _

theorem fetchFromBus (access : AccessFault) :
    Costs (β := β) 255 (MachineM.fetchFromBus access) := by
  intro m
  rw [fetchFromBus_apply]
  dsimp only
  have wait := (Bus.fetch access.address access.functionCode m.bus).1.wait.isLt
  split <;> exact Nat.add_le_add_left (by omega) _

theorem readAhead (address : BitVec 32) (space : FunctionCode) :
    Costs (β := β) most (MachineM.readAhead address space) := by
  intro m
  rw [readAhead_apply]
  dsimp only
  split <;> exact Nat.le_add_right _ _

theorem fetch : Costs (β := β) 255 MachineM.fetch := by
  refine cpu.free fun c => ?_
  dsimp only
  refine .ite (.free (.throw _) fun _ => ?_) ?_
  all_goals
    refine .free (fun _ => Nat.le_refl _) fun _ => ?_
    cases prefetchedAt? c (c.registers.pc &&& c.addressMask) with
    | some word =>
      exact .free (.pure word) fun _ => .ite (.free (readAhead _ _) fun _ => .pure _) (.pure _)
    | none =>
      exact (fetchFromBus _).bind 0 fun _ =>
        .ite (.free (readAhead _ _) fun _ => .pure _) (.pure _)

/-! ## Entering an exception -/

theorem writeWords (place : BitVec 32) (words : List (BitVec 16)) :
    Costs (β := β) (255 * words.length) (MachineM.writeWords place words) := by
  induction words generalizing place with
  | nil => exact .pure ()
  | cons word rest ih =>
    exact ((writeIn _ .word place _).bind _ fun _ => ih (place + 2)).mono (by simp; omega)

theorem pushFrame (format : FrameFormat) (vector : VectorNumber) (sr : StatusRegister)
    (returnAddress : BitVec 32) (access : Option AccessFault) :
    Costs (β := β) (255 * 46) (MachineM.pushFrame format vector sr returnAddress access) := by
  refine cpu.free fun c => ?_
  have words := writeWords (β := β) (c.registers.sp - BitVec.ofNat 32 (2 * format.words))
    (FrameContext.contents ⟨c.opcode, c.registers.ppc, vector, sr, returnAddress, access⟩ format)
  rw [FrameContext.length_contents] at words
  exact (words.mono (Nat.mul_le_mul_left 255 format.words_le)).bind 0
    fun _ => .modifyRegisters _

theorem jumpToHandler (vector : VectorNumber) :
    Costs (β := β) 510 (MachineM.jumpToHandler vector) :=
  cpu.free fun _ => (readIn _ .long _).bind 255 fun _ =>
    .ite ((readIn _ .long _).bind 0 fun _ => .jump _) (.jump _)

/-- Entering an exception costs a bounded number of cycles. -/
theorem enter (vector : VectorNumber) (returnAddress : BitVec 32)
    (access : Option AccessFault) :
    Costs (β := β) 12290 (MachineM.enter vector returnAddress access) :=
  cpu.free fun c => enterSupervisor.free fun old => (setRunState .running).free fun _ =>
    (pushFrame _ vector old returnAddress access).bind 560 fun _ =>
      ((spend _).mono (Timing.exception_le c.model vector)).bind _ fun _ => jumpToHandler vector

theorem enterAccess (vector : VectorNumber) (access : AccessFault) :
    Costs (β := β) 12290 (MachineM.enterAccess vector access) :=
  cpu.free fun _ => enter vector _ _

end Costs

end M68k
