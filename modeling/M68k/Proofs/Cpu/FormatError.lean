import M68k.Proofs.Cpu.Unwinding
import M68k.Proofs.Cpu.Ram

/-!
# Returns that end in a format error

A return from an exception goes over frames of format 1 until it meets another frame, and each of
them takes effect at once: its status word is put into the status register and its eight bytes come
off the stack that was in use, before the next frame is looked at, perhaps on another stack.  When
the frame at the end is of no format that a return knows, what the frames before it did is not taken
back.

* `unwindOnce_eq_more_iff`, `unwindOnce_eq_formatError_iff` — what one frame does;
* `returnFromException_eq_formatError_iff` — the registers at a format error;
* `stacks_kept_iff` — when a format error leaves the stacks alone;
* `misframed_steps_stack` — a return that raises a format error with the stack pointer moved.
-/

namespace M68k

open MachineM

/-- The registers after a return has gone over frames with these status words. -/
def Registers.goneOver (mask : StatusRegister) (statuses : List StatusRegister) (r : Registers) :
    Registers :=
  statuses.foldl (fun r status => (r.setSp (r.sp + 8)).setStatus status mask) r

/-- Each of the frames has raised one of the stack pointers by eight. -/
theorem Registers.stacks_goneOver (mask : StatusRegister) (statuses : List StatusRegister)
    (r : Registers) :
    (r.goneOver mask statuses).usp + (r.goneOver mask statuses).isp +
        (r.goneOver mask statuses).msp =
      r.usp + r.isp + r.msp + BitVec.ofNat 32 (8 * statuses.length) := by
  induction statuses generalizing r with
  | nil => simp [goneOver]
  | cons status statuses ih =>
    have one : ((r.setSp (r.sp + 8)).setStatus status mask).usp +
          ((r.setSp (r.sp + 8)).setStatus status mask).isp +
          ((r.setSp (r.sp + 8)).setStatus status mask).msp = r.usp + r.isp + r.msp + 8 := by
      simp only [setStatus, setSp, sp]
      cases stackOf r.sr <;> simp only [setStack, stack] <;> bv_omega
    refine (ih _).trans ?_
    rw [one, List.length_cons, BitVec.add_assoc]
    congr 1
    rw [show 8 * (statuses.length + 1) = 8 + 8 * statuses.length by omega, BitVec.ofNat_add]
    rfl

variable {β : Type} [Bus β]

namespace Machine

variable {m m' : Machine β} {status : StatusRegister} {target : BitVec 32} {code : BitVec 4}

/-- The words of the frame on top of the stack are read one after the other: the status word, the
return address and the format code. -/
def ReadsFrame (m : Machine β) (status : StatusRegister) (target : BitVec 32) (code : BitVec 4)
    (m' : Machine β) : Prop :=
  ∃ first format m₁ m₂,
    read .word m.cpu.registers.sp m = (.ok first, m₁) ∧
    read .long (m.cpu.registers.sp + 2) m₁ = (.ok target, m₂) ∧
    read .word (m.cpu.registers.sp + 6) m₂ = (.ok format, m') ∧
    status = first.setWidth 16 ∧ code = format.extractLsb' 12 4

/-- Reading leaves everything alone within the processor but the cycles. -/
theorem kept_of_read {size : Size} {address value : BitVec 32}
    (reads : read size address m = (.ok value, m')) :
    m'.cpu.registers = m.cpu.registers ∧ m'.cpu.model = m.cpu.model := by
  rw [read_apply] at reads
  obtain ⟨-, rfl⟩ := readIn_ok reads
  exact ⟨rfl, rfl⟩

theorem ReadsFrame.kept (h : m.ReadsFrame status target code m') :
    m'.cpu.registers = m.cpu.registers ∧ m'.cpu.model = m.cpu.model := by
  obtain ⟨first, format, m₁, m₂, reads, reads', reads'', -, -⟩ := h
  obtain ⟨registers, model⟩ := kept_of_read reads
  obtain ⟨registers', model'⟩ := kept_of_read reads'
  obtain ⟨registers'', model''⟩ := kept_of_read reads''
  exact ⟨registers''.trans (registers'.trans registers), model''.trans (model'.trans model)⟩

/-- A frame of format 1 is gone over. -/
def GoesOver (m : Machine β) (status : StatusRegister) (m' : Machine β) : Prop :=
  m.cpu.capabilities.frames ≠ .f68000 ∧ ∃ target m₁, m.ReadsFrame status target 1 m₁ ∧
    m' = m₁.withRegisters (m.cpu.registers.goneOver m.cpu.model.statusMask [status])

/-- A frame is of no format that a return knows. -/
def RejectsFrame (m m' : Machine β) : Prop :=
  m.cpu.capabilities.frames ≠ .f68000 ∧ ∃ status target code, m.ReadsFrame status target code m' ∧
    code ≠ 1 ∧ FrameFormat.discardedWords? code = none

theorem RejectsFrame.registers (h : m.RejectsFrame m') : m'.cpu.registers = m.cpu.registers := by
  obtain ⟨-, status, target, code, reads, -, -⟩ := h
  exact reads.kept.1

end Machine

open Machine

namespace MachineM

variable {m m' : Machine β}

/-- The end of a return: the frame comes off the stack, and the machine goes on elsewhere. -/
def leave (top : BitVec 32) (status : StatusRegister) (target : BitVec 32) : MachineM β Bool := do
  setSp top
  setStatus status
  jump target
  return false

/-- Such a return leads to no further frame, and only an odd address keeps it from ending. -/
theorem leave_outcome {top : BitVec 32} {status : StatusRegister} {target : BitVec 32}
    {outcome : Except Fault Bool} (done : leave top status target m = (outcome, m')) :
    ¬(outcome = .ok true ∨ outcome = .error (.exception .formatError)) := by
  unfold leave at done
  rw [bind_ok (setSp_apply _ _), bind_ok (setStatus_apply _ _), bind_apply] at done
  rcases jumps : jump (β := β) target _ with ⟨fault | u, m₁⟩
  · rw [jumps] at done
    obtain rfl : .error fault = outcome := congrArg Prod.fst done
    have access := FailsByAccess.jump (β := β) target jumps
    cases access <;> simp
  · rw [jumps] at done
    obtain rfl : .ok false = outcome := congrArg Prod.fst done
    simp

/-- What a return does with a frame, once it is read. -/
theorem unwindOnce_of_readsFrame (words : m.cpu.capabilities.frames ≠ .f68000)
    {status : StatusRegister} {target : BitVec 32} {code : BitVec 4}
    (reads : m.ReadsFrame status target code m') :
    unwindOnce m =
      if code = 1 then
        (.ok true, m'.withRegisters (m.cpu.registers.goneOver m.cpu.model.statusMask [status]))
      else
        match FrameFormat.discardedWords? code with
        | none => (.error (.exception .formatError), m')
        | some extra =>
          leave (m.cpu.registers.sp + BitVec.ofNat 32 (8 + 2 * extra)) status target m' := by
  obtain ⟨registers, model⟩ := reads.kept
  obtain ⟨first, format, m₁, m₂, read₁, read₂, read₃, rfl, rfl⟩ := reads
  have frames : m₂.cpu.capabilities.frames ≠ .f68000 := by
    rwa [Cpu.capabilities_congr (kept_of_read read₂).2,
      Cpu.capabilities_congr (kept_of_read read₁).2]
  unfold unwindOnce
  rw [bind_ok (sp_apply m), bind_ok read₁, bind_ok read₂, bind_ok (capabilities_apply m₂),
    if_neg frames, bind_ok read₃]
  split
  · rw [bind_ok (setSp_apply _ _), bind_ok (setStatus_apply _ _), ← registers, ← model]
    rfl
  · cases FrameFormat.discardedWords? (format.extractLsb' 12 4) <;> rfl

/-- A frame that leads on or is rejected has been read. -/
theorem readsFrame_of_unwindOnce {outcome : Except Fault Bool}
    (done : unwindOnce m = (outcome, m'))
    (stays : outcome = .ok true ∨ outcome = .error (.exception .formatError)) :
    m.cpu.capabilities.frames ≠ .f68000 ∧
      ∃ status target code m₁, m.ReadsFrame status target code m₁ := by
  have other (fault : Fault) (access : fault.IsAccess) : outcome ≠ .error fault := by
    rintro rfl
    cases access <;> simp at stays
  unfold unwindOnce at done
  rw [bind_ok (sp_apply m)] at done
  obtain ⟨first, m₁, read₁, done⟩ := (FailsByAccess.read _ _).ok_of_bind done other
  obtain ⟨target, m₂, read₂, done⟩ := (FailsByAccess.read _ _).ok_of_bind done other
  rw [bind_ok (capabilities_apply m₂)] at done
  have same : m₂.cpu.capabilities = m.cpu.capabilities := by
    rw [Cpu.capabilities_congr (kept_of_read read₂).2,
      Cpu.capabilities_congr (kept_of_read read₁).2]
  rw [same] at done
  split at done
  · exact absurd stays (leave_outcome done)
  · next words =>
    obtain ⟨format, m₃, read₃, -⟩ := (FailsByAccess.read _ _).ok_of_bind done other
    exact ⟨words, _, target, _, m₃, first, format, m₁, m₂, read₁, read₂, read₃, rfl, rfl⟩

/-- A frame leads on just if it is gone over. -/
theorem unwindOnce_eq_more_iff :
    unwindOnce m = (.ok true, m') ↔ ∃ status, m.GoesOver status m' := by
  constructor
  · intro done
    obtain ⟨words, status, target, code, m₁, reads⟩ := readsFrame_of_unwindOnce done (.inl rfl)
    rw [unwindOnce_of_readsFrame words reads] at done
    split at done
    · next one =>
      subst one
      exact ⟨status, words, target, m₁, reads, (congrArg Prod.snd done).symm⟩
    · split at done
      · exact nomatch congrArg Prod.fst done
      · exact absurd (.inl rfl) (leave_outcome done)
  · rintro ⟨status, words, target, m₁, reads, rfl⟩
    rw [unwindOnce_of_readsFrame words reads, if_pos rfl]

/-- A frame raises a format error just if it is rejected. -/
theorem unwindOnce_eq_formatError_iff :
    unwindOnce m = (.error (.exception .formatError), m') ↔ m.RejectsFrame m' := by
  constructor
  · intro done
    obtain ⟨words, status, target, code, m₁, reads⟩ := readsFrame_of_unwindOnce done (.inr rfl)
    rw [unwindOnce_of_readsFrame words reads] at done
    split at done
    · exact nomatch congrArg Prod.fst done
    · next other =>
      split at done
      · next unknown =>
        obtain rfl : m₁ = m' := congrArg Prod.snd done
        exact ⟨words, status, target, code, reads, other, unknown⟩
      · exact absurd (.inr rfl) (leave_outcome done)
  · rintro ⟨words, status, target, code, reads, other, unknown⟩
    rw [unwindOnce_of_readsFrame words reads, if_neg other, unknown]

end MachineM

/-- Frames with these status words are gone over one after the other. -/
inductive Machine.GoesOverAll : List StatusRegister → Machine β → Machine β → Prop where
  | start (m : Machine β) : GoesOverAll [] m m
  | frame {status : StatusRegister} {statuses : List StatusRegister} {m m' m'' : Machine β}
      (first : m.GoesOver status m') (rest : GoesOverAll statuses m' m'') :
      GoesOverAll (status :: statuses) m m''

namespace Machine.GoesOverAll

variable {statuses : List StatusRegister} {m m' : Machine β}

theorem unwinds (h : GoesOverAll statuses m m') : Unwinds statuses.length m m' := by
  induction h with
  | start m => exact .start m
  | frame first _ ih => exact .frame (unwindOnce_eq_more_iff.mpr ⟨_, first⟩) ih

/-- Every frame takes effect on the registers that the one before it has left. -/
theorem registers (h : GoesOverAll statuses m m') :
    m'.cpu.registers = m.cpu.registers.goneOver m.cpu.model.statusMask statuses := by
  induction h with
  | start m => rfl
  | @frame status statuses m m' m'' first _ ih =>
    obtain ⟨-, target, m₁, reads, rfl⟩ := first
    have model : m₁.cpu.model = m.cpu.model := reads.kept.2
    rw [ih]
    show Registers.goneOver m₁.cpu.model.statusMask statuses _ = _
    rw [model]
    rfl

end Machine.GoesOverAll

/-- **The registers at a format error.**  A return from an exception raises a format error just if,
within its limit, frames of format 1 lead to a frame of no format that it knows.  The registers are
then those that the frames of format 1 have left, one after the other: nothing of them is taken
back, and the frame that was rejected changes nothing. -/
theorem returnFromException_eq_formatError_iff (limit : Nat) (m m' : Machine β) :
    returnFromException limit m = (.error (.exception .formatError), m') ↔
      ∃ statuses m₁, statuses.length < limit ∧ GoesOverAll statuses m m₁ ∧ m₁.RejectsFrame m' ∧
        m'.cpu.registers = m.cpu.registers.goneOver m.cpu.model.statusMask statuses := by
  constructor
  · intro done
    induction limit generalizing m with
    | zero => exact nomatch congrArg Prod.fst done
    | succ limit ih =>
      rw [returnFromException_succ, bind_apply] at done
      rcases first : unwindOnce m with ⟨fault | ⟨_ | _⟩, next⟩
      · rw [first] at done
        obtain ⟨same, rfl⟩ := Prod.mk.inj done
        obtain rfl := Except.error.inj same
        have rejected := unwindOnce_eq_formatError_iff.mp first
        exact ⟨[], m, by simp, .start m, rejected, rejected.registers⟩
      · rw [first] at done
        exact nomatch congrArg Prod.fst done
      · rw [first] at done
        obtain ⟨status, goes⟩ := unwindOnce_eq_more_iff.mp first
        obtain ⟨statuses, m₁, enough, all, rejected, -⟩ := ih next done
        have goesAll := GoesOverAll.frame goes all
        exact ⟨status :: statuses, m₁, by simpa, goesAll, rejected,
          rejected.registers.trans goesAll.registers⟩
  · rintro ⟨statuses, m₁, enough, goes, rejected, -⟩
    obtain ⟨extra, rfl⟩ : ∃ extra, limit = extra + 1 + statuses.length :=
      ⟨limit - 1 - statuses.length, by omega⟩
    rw [goes.unwinds.returnFromException_add, returnFromException_succ,
      bind_error (unwindOnce_eq_formatError_iff.mpr rejected)]

/-- **When a format error leaves the stacks alone.**  The stack pointers are as before just if the
frame that was rejected is the first one. -/
theorem stacks_kept_iff {limit : Nat} (small : limit ≤ 2 ^ 29) {m m' : Machine β}
    (done : returnFromException limit m = (.error (.exception .formatError), m')) :
    (m'.cpu.registers.usp = m.cpu.registers.usp ∧ m'.cpu.registers.isp = m.cpu.registers.isp ∧
        m'.cpu.registers.msp = m.cpu.registers.msp) ↔ m.RejectsFrame m' := by
  constructor
  · rintro ⟨usp, isp, msp⟩
    obtain ⟨statuses, m₁, enough, goes, rejected, registers⟩ :=
      (returnFromException_eq_formatError_iff limit m m').mp done
    have sum := Registers.stacks_goneOver m.cpu.model.statusMask statuses m.cpu.registers
    rw [← registers, usp, isp, msp] at sum
    have none : statuses.length = 0 := by
      have wraps := congrArg BitVec.toNat (BitVec.add_right_eq_self.mp sum.symm)
      rw [BitVec.toNat_ofNat, BitVec.toNat_zero] at wraps
      omega
    obtain rfl := List.length_eq_zero_iff.mp none
    cases goes
    exact rejected
  · intro rejected
    rw [rejected.registers]
    exact ⟨rfl, rfl, rfl⟩

/-- A memory with a frame of format 1 and below it a frame of no known format. -/
def misframes : Bytes := fun address =>
  match address.toNat with
  | 0x2000 => 0x20
  | 0x2008 => 0x27
  | 0x2004 | 0x200C => 0x10
  | 0x2005 | 0x200D => 0x02
  | 0x2006 => 0x10
  | 0x200E => 0x30
  | _ => 0

/-- A machine that is about to return through these frames. -/
def misframed : Machine Bytes := ⟨(Cpu.new .m68020).resetTo 0x2000 0x1002, misframes⟩

/-- The frame of format 1 is off the stack, and its status word in the status register, when the
format error is raised. -/
theorem misframed_steps_stack :
    let m' := (returnFromException 2 misframed).2
    misframed.cpu.capabilities.frames ≠ .f68000 ∧ misframed.cpu.registers.isSupervisor = true ∧
      (returnFromException 2 misframed).1 = .error (.exception .formatError) ∧
      misframed.cpu.registers.isp = 0x2000 ∧ m'.cpu.registers.isp = 0x2008 ∧
      misframed.cpu.registers.sr = 0x2700 ∧ m'.cpu.registers.sr = 0x2000 := by
  refine ⟨?_, ?_, ?_, ?_, ?_, ?_, ?_⟩ <;> decide

end M68k
