import M68k.Proofs.Cpu.InstructionComposition
import Mathlib.Logic.Relation

/-!
# What actions make of the processor

Whatever an action composed of elementary ones does, the processor stays the same model, keeps its
registers to the bits they have, changes its floating-point unit only as instructions can, and does
not halt.  `Cpu.Course` says so of a processor and what has become of it.

* `Composed.course` — a composed action takes such a course;
* `Composed.model_eq` — in particular the model stays the same.
-/

namespace M68k

namespace Registers.KeepsMasks

variable {model : Model} {r r' r'' : Registers}

theorem of_eq (status : r'.sr = r.sr) (cacr : r'.cacr = r.cacr) : r.KeepsMasks model r' :=
  ⟨fun within => status ▸ within, .inl cacr⟩

theorem trans (h : r.KeepsMasks model r') (h' : r'.KeepsMasks model r'') :
    r.KeepsMasks model r'' where
  status within := h'.status (h.status within)
  cacr := by
    rcases h'.cacr with same | within
    · rw [same]
      exact h.cacr
    · exact .inr within

end Registers.KeepsMasks

/-- What has become of a floating-point unit, or of its absence, by changes one after the other. -/
def Fpu.Changes (loads : Bool) : Option Fpu → Option Fpu → Prop :=
  Option.Rel (Relation.ReflTransGen (Fpu.Change loads))

namespace Fpu.Changes

variable {loads : Bool} {fpu fpu' fpu'' : Option Fpu}

theorem refl (loads : Bool) (fpu : Option Fpu) : Fpu.Changes loads fpu fpu := by
  cases fpu with
  | none => exact .none
  | some fpu => exact .some .refl

theorem trans (h : Fpu.Changes loads fpu fpu') (h' : Fpu.Changes loads fpu' fpu'') :
    Fpu.Changes loads fpu fpu'' := by
  cases h with
  | none => exact h'
  | some first =>
    cases h' with
    | some second => exact .some (first.trans second)

/-- What every change respects, all of them together do. -/
theorem preserve {P : Fpu → Prop} {unit unit' : Fpu}
    (h : Fpu.Changes loads (some unit) (some unit'))
    (step : ∀ {a b}, Fpu.Change loads a b → P a → P b) (before : P unit) : P unit' := by
  cases h with
  | some changes =>
    induction changes with
    | refl => exact before
    | tail _ change ih => exact step change ih

theorem map_model (h : Fpu.Changes loads fpu fpu') : fpu'.map (·.model) = fpu.map (·.model) := by
  cases fpu with
  | none =>
    cases h
    rfl
  | some unit =>
    cases fpu' with
    | none => cases h
    | some unit' =>
      have same : unit'.model = unit.model :=
        h.preserve (fun change known => change.model_eq.trans known) rfl
      exact congrArg some same

theorem masked {unit unit' : Fpu} (h : Fpu.Changes loads (some unit) (some unit'))
    (before : unit.Masked) : unit'.Masked :=
  h.preserve (fun change => change.masked) before

/-- Changes that do not load registers do not lose the meaning of the mark of a reset. -/
theorem fresh {unit unit' : Fpu} (h : Fpu.Changes false (some unit) (some unit'))
    (before : unit.Fresh) : unit'.Fresh :=
  h.preserve (fun change => change.fresh rfl) before

end Fpu.Changes

/-- What has become of a processor by actions that may load registers of the unit, and may take
notes. -/
structure Cpu.Course (loads notes : Bool) (c c' : Cpu) : Prop where
  model : c'.model = c.model
  registers : c.registers.KeepsMasks c.model c'.registers
  fpu : Fpu.Changes loads c.fpu c'.fpu
  active : notes = false → c.runState ≠ .halted → c'.runState ≠ .halted
  faultState : notes = false → c'.faultState = c.faultState
  prefetch : c'.prefetch = c.prefetch

namespace Cpu.Course

variable {loads notes : Bool} {c c' c'' : Cpu}

theorem refl (c : Cpu) : Course loads notes c c :=
  ⟨rfl, .of_eq rfl rfl, .refl _ _, fun _ => id, fun _ => rfl, rfl⟩

theorem trans (h : Course loads notes c c') (h' : Course loads notes c' c'') :
    Course loads notes c c'' where
  model := h'.model.trans h.model
  registers := h.registers.trans (h.model ▸ h'.registers)
  fpu := h.fpu.trans h'.fpu
  active unnoted running := h'.active unnoted (h.active unnoted running)
  faultState unnoted := (h'.faultState unnoted).trans (h.faultState unnoted)
  prefetch := h'.prefetch.trans h.prefetch

/-- A change of nothing but the registers, and of what a course is not about. -/
theorem of_registers (registers : c.registers.KeepsMasks c.model c'.registers)
    (model : c'.model = c.model) (fpu : c'.fpu = c.fpu) (runState : c'.runState = c.runState)
    (faultState : c'.faultState = c.faultState) (prefetch : c'.prefetch = c.prefetch) :
    Course loads notes c c' :=
  ⟨model, registers, fpu ▸ .refl _ _, fun _ running => runState ▸ running, fun _ => faultState,
    prefetch⟩

/-- What a processor does not forget when it takes notes, or halts. -/
theorem of_notes (registers : c.registers.KeepsMasks c.model c'.registers)
    (model : c'.model = c.model) (fpu : c'.fpu = c.fpu) (prefetch : c'.prefetch = c.prefetch) :
    Course loads true c c' :=
  ⟨model, registers, fpu ▸ .refl _ _, nofun, nofun, prefetch⟩

end Cpu.Course

open MachineM

variable {β : Type} [Bus β]

namespace Course

variable {loads notes : Bool} (m : Machine β)

theorem readIn (space : FunctionCode) (size : Size) (address : BitVec 32) :
    m.cpu.Course loads notes (MachineM.readIn space size address m).2.cpu := by
  rw [readIn_apply]
  dsimp only
  split
  · exact .refl m.cpu
  · split <;> exact .of_registers (.of_eq rfl rfl) rfl rfl rfl rfl rfl

theorem writeIn (space : FunctionCode) (size : Size) (address value : BitVec 32) :
    m.cpu.Course loads notes (MachineM.writeIn space size address value m).2.cpu := by
  rw [writeIn_apply]
  dsimp only
  split
  · exact .refl m.cpu
  · split <;> exact .of_registers (.of_eq rfl rfl) rfl rfl rfl rfl rfl

theorem fetch : m.cpu.Course loads notes (MachineM.fetch m).2.cpu := by
  have led : Leads (fun m m' : Machine β => m.cpu.Course loads notes m'.cpu) MachineM.fetch := by
    refine leads_fetch (fun m => .refl m.cpu) .trans ?_ ?_ ?_
    · exact fun m => .of_registers (.of_eq rfl rfl) rfl rfl rfl rfl rfl
    · intro m access _
      rw [fetchFromBus_apply]
      dsimp only
      split <;> exact .of_registers (.of_eq rfl rfl) rfl rfl rfl rfl rfl
    · intro m address
      rw [readAhead_apply]
      dsimp only
      split <;> exact .of_registers (.of_eq rfl rfl) rfl rfl rfl rfl rfl
  exact led m

theorem jump (target : BitVec 32) : m.cpu.Course loads notes (MachineM.jump target m).2.cpu := by
  rw [jump_apply]
  split
  · exact .refl m.cpu
  · exact .of_registers (.of_eq rfl rfl) rfl rfl rfl rfl rfl

omit [Bus β]

theorem bind {α γ : Type} {x : MachineM β α} {f : α → MachineM β γ}
    (first : m.cpu.Course loads notes (x m).2.cpu)
    (rest : ∀ a, (x m).2.cpu.Course loads notes (f a (x m).2).2.cpu) :
    m.cpu.Course loads notes ((x >>= f) m).2.cpu := by
  rw [bind_apply]
  generalize x m = outcome at first rest
  obtain ⟨fault | a, m'⟩ := outcome
  · exact first
  · exact first.trans (rest a)

theorem requireSupervisor : m.cpu.Course loads notes (MachineM.requireSupervisor m).2.cpu := by
  rw [requireSupervisor_apply]
  exact .refl m.cpu

theorem onUnit {α : Type} (vector : VectorNumber) {change : Fpu → Option (α × Fpu)}
    (changes : ∀ fpu a fpu', change fpu = some (a, fpu') → Fpu.Change loads fpu fpu') :
    m.cpu.Course loads notes (MachineM.onUnit vector change m).2.cpu := by
  rw [onUnit_apply]
  cases had : m.cpu.fpu with
  | none => exact .refl m.cpu
  | some fpu =>
    dsimp only
    cases changed : change fpu with
    | none => exact .refl m.cpu
    | some answer =>
      obtain ⟨a, fpu'⟩ := answer
      refine ⟨rfl, .of_eq rfl rfl, ?_, fun _ => id, fun _ => rfl, rfl⟩
      rw [had]
      exact .some (.single (changes fpu a fpu' changed))

end Course

/-- What is composed of elementary actions takes the processor such a course. -/
theorem Composed.course {α : Type} {model : Model} {grant : Grant} {x : Action α}
    (h : Composed model grant x) (m : Machine β) (known : m.cpu.model = model) :
    m.cpu.Course grant.loads grant.notes (x β m).2.cpu := by
  induction h generalizing m with
  | bind _ _ ihx ihf =>
    have first := ihx m known
    exact Course.bind m first fun a => ihf a _ (first.model.trans known)
  | guarded _ ih =>
    refine Course.bind m (Course.requireSupervisor m) fun u => ?_
    rw [requireSupervisor_stays]
    exact ih u m known
  | cpu _ _ ih =>
    dsimp only
    rw [bind_ok (cpu_apply m)]
    exact ih m.cpu known m known
  | modifyRegisters same => exact .of_registers ((same _).keepsMasks _) rfl rfl rfl rfl rfl
  | onUnit vector changes => exact Course.onUnit m vector changes
  | read size address =>
    dsimp only
    rw [read_apply]
    exact Course.readIn m _ size address
  | readProgram size address =>
    dsimp only
    rw [bind_ok (cpu_apply m)]
    exact Course.readIn m _ size address
  | readIn space size address => exact Course.readIn m space size address
  | write size address value =>
    dsimp only
    rw [write_apply]
    exact Course.writeIn m _ size address value
  | writeIn space size address value => exact Course.writeIn m space size address value
  | fetch => exact Course.fetch m
  | jump target => exact Course.jump m target
  | requireSupervisor => exact Course.requireSupervisor m
  | setStatus value =>
    dsimp only
    rw [setStatus_apply]
    exact .of_registers ⟨fun _ => .cut _ _, .inl rfl⟩ rfl rfl rfl rfl rfl
  | control _ keeps => exact .of_registers (known ▸ keeps _) rfl rfl rfl rfl rfl
  | setRunState state active =>
    exact ⟨rfl, .of_eq rfl rfl, .refl _ _, fun _ _ => active, fun _ => rfl, rfl⟩
  | note notes _ may =>
    rw [may]
    exact .of_notes (.of_eq rfl rfl) rfl rfl rfl
  | pure | exception | trap | unfinished => exact .refl m.cpu
  | spend | askIllegal | acknowledge | resetLine | askLevel =>
    exact .of_registers (.of_eq rfl rfl) rfl rfl rfl rfl rfl

/-- No action changes the model. -/
theorem Composed.model_eq {α : Type} {model : Model} {grant : Grant} {x : Action α}
    (h : Composed model grant x) (m : Machine β) (known : m.cpu.model = model) :
    (x β m).2.cpu.model = model :=
  (h.course m known).model.trans known

end M68k
