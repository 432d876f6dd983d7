import M68k.Proofs.Cpu.Cost
import M68k.Proofs.Cpu.Course

/-!
# Returns from exceptions: when they end

A return from an exception goes from frame to frame as long as it meets frames of format 1.  One
frame is `unwindOnce`, and `Unwinds n` relates machines between which `n` frames lead on.  Where the
frames lead on without end no limit is enough, and otherwise every limit above their number gives
the same outcome.

* `returnFromException_unfinished_iff` — a limit is too small just if so many frames lead on;
* `Unwinds.returnFromException_eq` — beyond the chain of frames the limit does not matter;
* `Unwinds.cycles_le` — what a chain of frames costs.
-/

namespace M68k

variable {β : Type} [Bus β]

namespace MachineM

variable (m : Machine β)

omit [Bus β] in
theorem requireSupervisor_ne_unfinished :
    (requireSupervisor m).1 ≠ .error .unfinished := by
  rw [requireSupervisor_apply]
  split <;> simp

omit [Bus β] in
theorem bind_ne_unfinished {γ δ : Type} {x : MachineM β γ} {f : γ → MachineM β δ}
    (first : (x m).1 ≠ .error .unfinished) (rest : ∀ a, (f a (x m).2).1 ≠ .error .unfinished) :
    ((x >>= f) m).1 ≠ .error .unfinished := by
  rw [bind_apply]
  generalize x m = outcome at first rest
  obtain ⟨fault | a, m'⟩ := outcome
  · intro same
    exact first (congrArg Except.error (Except.error.inj same))
  · exact rest a

end MachineM

open MachineM in
/-- What is composed of elementary actions always ends. -/
theorem Composed.ne_unfinished {α : Type} {model : Model} {grant : Grant} {x : Action α}
    (h : Composed model grant x) (bounded : grant.unwinds = false) (m : Machine β)
    (known : m.cpu.model = model) : (x β m).1 ≠ .error .unfinished := by
  induction h generalizing m with
  | bind first _ ihx ihf =>
    exact bind_ne_unfinished m (ihx bounded m known) fun a =>
      ihf a bounded _ (first.model_eq m known)
  | guarded _ ih =>
    refine bind_ne_unfinished m (requireSupervisor_ne_unfinished m) fun u => ?_
    rw [requireSupervisor_stays]
    exact ih u bounded m known
  | cpu _ _ ih =>
    dsimp only
    rw [bind_ok (cpu_apply m)]
    exact ih m.cpu known bounded m known
  | onUnit vector changes =>
    dsimp only
    rw [onUnit_apply]
    cases m.cpu.fpu with
    | none => simp
    | some fpu =>
      dsimp only
      split <;> simp
  | unfinished may => exact nomatch bounded.symm.trans may
  | requireSupervisor => exact requireSupervisor_ne_unfinished m
  | read size address =>
    dsimp only
    rw [read_apply]
    exact (FailsByAccess.readIn _ size address).ne_unfinished m
  | readProgram size address =>
    dsimp only
    rw [bind_ok (cpu_apply m)]
    exact (FailsByAccess.readIn _ size address).ne_unfinished m
  | readIn space size address => exact (FailsByAccess.readIn space size address).ne_unfinished m
  | write size address value =>
    dsimp only
    rw [write_apply]
    exact (FailsByAccess.writeIn _ size address value).ne_unfinished m
  | writeIn space size address value =>
    exact (FailsByAccess.writeIn space size address value).ne_unfinished m
  | jump target => exact (FailsByAccess.jump target).ne_unfinished m
  | fetch => exact FailsByAccess.fetch.ne_unfinished m
  | _ => simp

namespace MachineM

/-- One frame of a return from an exception; the answer is whether it leads on. -/
def unwindOnce : MachineM β Bool := do
  let top ← sp
  let sr := (← read .word top).setWidth 16
  let target ← read .long (top + 2)
  if (← capabilities).frames = .f68000 then
    setSp (top + 6)
    setStatus sr
    jump target
    return false
  else
    let code := (← read .word (top + 6)).extractLsb' 12 4
    if code = 1 then
      setSp (top + 8)
      setStatus sr
      return true
    else
      match FrameFormat.discardedWords? code with
      | none => throw (.exception .formatError)
      | some extra =>
        setSp (top + BitVec.ofNat 32 (8 + 2 * extra))
        setStatus sr
        jump target
        return false

/-- A return is a frame and, if that leads on, a return with one frame less. -/
theorem returnFromException_succ (limit : Nat) :
    returnFromException (β := β) (limit + 1) =
      unwindOnce >>= fun more => if more then returnFromException limit else pure () := by
  simp only [returnFromException, unwindOnce, bind_assoc]
  refine bind_congr fun top => bind_congr fun sr => bind_congr fun target =>
    bind_congr fun caps => ?_
  split
  · simp
  · simp only [bind_assoc]
    refine bind_congr fun word => ?_
    split
    · simp
    · cases FrameFormat.discardedWords? (word.extractLsb' 12 4) with
      | none => rfl
      | some extra => simp

end MachineM

open MachineM

/-- So many frames lead on from one machine to another. -/
inductive Unwinds : Nat → Machine β → Machine β → Prop where
  | start (m : Machine β) : Unwinds 0 m m
  | frame {count : Nat} {m m' m'' : Machine β} (first : unwindOnce m = (.ok true, m'))
      (rest : Unwinds count m' m'') : Unwinds (count + 1) m m''

/-- The frames lead on just so many times; the next one does not. -/
def UnwindsJust (count : Nat) (m : Machine β) : Prop :=
  ∃ m', Unwinds count m m' ∧ (unwindOnce m').1 ≠ .ok true

namespace Unwinds

variable {count limit : Nat} {m m' m'' : Machine β}

theorem last (h : Unwinds count m m') (next : unwindOnce m' = (.ok true, m'')) :
    Unwinds (count + 1) m m'' := by
  induction h with
  | start m => exact .frame next (.start _)
  | frame first _ ih => exact .frame first (ih next)

/-- The frames of a chain are looked at one after the other. -/
theorem returnFromException_add (h : Unwinds count m m') :
    returnFromException (limit + count) m = returnFromException limit m' := by
  induction h with
  | start m => rfl
  | frame first _ ih =>
    rw [← Nat.add_assoc, returnFromException_succ, bind_ok first, if_pos rfl, ih]

end Unwinds

/-- A return whose first frame does not lead on does not depend on the limit. -/
theorem returnFromException_of_first {m : Machine β} (h : (unwindOnce m).1 ≠ .ok true)
    (limit : Nat) : returnFromException (limit + 1) m = returnFromException 1 m := by
  rw [returnFromException_succ, returnFromException_succ, bind_apply, bind_apply]
  generalize unwindOnce m = outcome at h
  obtain ⟨fault | ⟨_ | _⟩, m'⟩ := outcome
  · rfl
  · rfl
  · exact absurd rfl h

theorem Composed.unwindOnce {model : Model} {grant : Grant} (may : grant.privileged = true) :
    Composed model grant fun _ _ => MachineM.unwindOnce := by
  refine .bind sp fun top => .bind (.read .word top) fun sr => .bind (.read .long _) fun target =>
    .bind capabilities fun caps => .ite ?_ ?_
  · exact .bind (setSp _) fun _ => .bind (.setStatus _ may) fun _ => .bind (.jump _) fun _ =>
      .pure _
  · refine .bind (.read .word _) fun word => .ite ?_ ?_
    · exact .bind (setSp _) fun _ => .bind (.setStatus _ may) fun _ => .pure _
    · split
      · exact .exception _
      · exact .bind (setSp _) fun _ => .bind (.setStatus _ may) fun _ => .bind (.jump _) fun _ =>
          .pure _

theorem unwindOnce_ne_unfinished (m : Machine β) :
    (unwindOnce m).1 ≠ .error .unfinished := by
  have composed : Composed m.cpu.model ⟨true, false, false, false⟩ fun _ _ => unwindOnce :=
    .unwindOnce rfl
  exact composed.ne_unfinished rfl m rfl

/-- A return from an exception is composed too, if it may give up. -/
theorem Composed.returnFromException {model : Model} {grant : Grant}
    (may : grant.privileged = true) (gives : grant.unwinds = true) (limit : Nat) :
    Composed model grant fun _ _ => MachineM.returnFromException limit := by
  induction limit with
  | zero => exact .unfinished gives
  | succ limit ih =>
    simp only [returnFromException_succ]
    exact .bind (.unwindOnce may) fun more => .ite ih (.pure ())

/-- Every instruction is composed of elementary actions. -/
theorem Composed.performs {model : Model} {grant : Grant} (host : Fpu.HostMath) (limit : Nat)
    (instruction : Instruction) (loads : instruction = .lineF → grant.loads = true)
    (gives : grant.unwinds = true) :
    Composed model grant fun _ _ => Execution.perform host limit instruction := by
  by_cases rte : instruction = .rte
  · subst rte
    exact .guarded fun _ => .returnFromException rfl (by exact gives) limit
  · exact .perform host limit instruction rte loads

/-- A limit is too small just if so many frames lead on. -/
theorem returnFromException_unfinished_iff (limit : Nat) (m : Machine β) :
    (returnFromException limit m).1 = .error .unfinished ↔ ∃ m', Unwinds limit m m' := by
  induction limit generalizing m with
  | zero => exact ⟨fun _ => ⟨m, .start m⟩, fun _ => rfl⟩
  | succ limit ih =>
    rw [returnFromException_succ, bind_apply]
    have ends := unwindOnce_ne_unfinished m
    rcases hm : unwindOnce m with ⟨fault | ⟨_ | _⟩, next⟩
    · rw [hm] at ends
      refine ⟨fun same => absurd (congrArg Except.error (Except.error.inj same)) ends, ?_⟩
      rintro ⟨m', _ | ⟨first, _⟩⟩
      exact nomatch hm.symm.trans first
    · refine ⟨fun same => (nomatch same), ?_⟩
      rintro ⟨m', _ | ⟨first, _⟩⟩
      exact nomatch hm.symm.trans first
    · refine (ih next).trans ⟨fun ⟨m', rest⟩ => ⟨m', .frame hm rest⟩, ?_⟩
      rintro ⟨m', _ | ⟨first, rest⟩⟩
      obtain rfl : next = _ := congrArg Prod.snd (hm.symm.trans first)
      exact ⟨m', rest⟩

/-- No limit is enough just if there is no last frame. -/
theorem returnFromException_endless_iff (m : Machine β) :
    (∀ limit, (returnFromException limit m).1 = .error .unfinished) ↔
      ∀ count, ¬UnwindsJust count m := by
  simp only [returnFromException_unfinished_iff]
  constructor
  · rintro endless count ⟨m', chain, stops⟩
    obtain ⟨_, longer⟩ := endless (count + 1)
    have unfinished := (returnFromException_unfinished_iff _ m).mpr ⟨_, longer⟩
    rw [Nat.add_comm, chain.returnFromException_add,
      returnFromException_unfinished_iff] at unfinished
    obtain ⟨_, _ | ⟨first, _⟩⟩ := unfinished
    exact stops (congrArg Prod.fst first)
  · intro endless limit
    induction limit with
    | zero => exact ⟨m, .start m⟩
    | succ limit ih =>
      obtain ⟨m', chain⟩ := ih
      rcases hm : unwindOnce m' with ⟨outcome, next⟩
      by_cases more : outcome = .ok true
      · exact ⟨next, chain.last (more ▸ hm)⟩
      · exact absurd ⟨m', chain, by rwa [hm]⟩ (endless limit)

/-- Some limit is enough just if there is a last frame. -/
theorem returnFromException_ends_iff (m : Machine β) :
    (∃ limit, (returnFromException limit m).1 ≠ .error .unfinished) ↔
      ∃ count, UnwindsJust count m := by
  simpa only [ne_eq, not_forall, not_not] using not_congr (returnFromException_endless_iff m)

theorem Costs.unwindOnce : Costs (β := β) 765 MachineM.unwindOnce := by
  refine sp.free fun top => (read .word top).bind 510 fun sr =>
    (read .long _).bind 255 fun target => capabilities.free fun caps => .ite ?_ ?_
  · exact .free (modifyRegisters _) fun _ => .free (setStatus _) fun _ => .free (jump _) fun _ =>
      .pure _
  · refine (read .word _).bind 0 fun word => .ite ?_ ?_
    · exact .free (modifyRegisters _) fun _ => .free (setStatus _) fun _ => .pure _
    · split
      · exact .throw _
      · exact .free (modifyRegisters _) fun _ => .free (setStatus _) fun _ =>
          .free (jump _) fun _ => .pure _

/-- Each frame costs at most three accesses. -/
theorem Costs.returnFromException (limit : Nat) :
    Costs (β := β) (765 * limit) (MachineM.returnFromException limit) := by
  induction limit with
  | zero => exact .throw _
  | succ limit ih =>
    rw [returnFromException_succ]
    exact (Costs.unwindOnce.bind _ fun more => .ite ih (.pure ())).mono (by omega)

namespace UnwindsJust

variable {count limit : Nat} {m : Machine β}

/-- Beyond the chain of frames the limit does not matter. -/
theorem returnFromException_eq (h : UnwindsJust count m) (enough : count < limit) :
    returnFromException limit m = returnFromException (count + 1) m := by
  obtain ⟨m', chain, stops⟩ := h
  obtain ⟨extra, rfl⟩ : ∃ extra, limit = extra + 1 + count := ⟨limit - 1 - count, by omega⟩
  rw [chain.returnFromException_add, Nat.add_comm count 1, chain.returnFromException_add,
    returnFromException_of_first stops extra]

theorem ne_unfinished (h : UnwindsJust count m) (enough : count < limit) :
    (returnFromException limit m).1 ≠ .error .unfinished := by
  intro unfinished
  rw [h.returnFromException_eq enough, Nat.add_comm] at unfinished
  obtain ⟨m', chain, stops⟩ := h
  rw [chain.returnFromException_add, returnFromException_unfinished_iff] at unfinished
  obtain ⟨_, _ | ⟨first, _⟩⟩ := unfinished
  exact stops (congrArg Prod.fst first)

theorem cycles_le (h : UnwindsJust count m) (enough : count < limit) :
    (returnFromException limit m).2.cpu.cycles ≤ m.cpu.cycles + 765 * (count + 1) := by
  rw [h.returnFromException_eq enough]
  exact Costs.returnFromException (count + 1) m

/-- The first model knows no frames that lead on. -/
theorem of_early (early : m.cpu.capabilities.frames = .f68000) : UnwindsJust 0 m := by
  refine ⟨m, .start m, ?_⟩
  have same {size : Size} {place : BitVec 32} {m m' : Machine β}
      {outcome : Except Fault (BitVec 32)} (reads : read size place m = (outcome, m')) :
      m'.cpu.capabilities = m.cpu.capabilities := by
    obtain rfl : _ = m' := congrArg Prod.snd reads
    rw [read_apply, readIn_apply]
    dsimp only
    split
    · rfl
    · split <;> rfl
  unfold unwindOnce
  rw [bind_ok (sp_apply m), bind_apply]
  rcases first : read .word m.cpu.registers.sp m with ⟨fault | sr, m₁⟩
  · simp
  · dsimp only
    rw [bind_apply]
    rcases second : read .long (m.cpu.registers.sp + 2) m₁ with ⟨fault | target, m₂⟩
    · simp
    · dsimp only
      rw [bind_ok (capabilities_apply m₂), if_pos (by rw [same second, same first, early]),
        bind_ok (setSp_apply _ _), bind_ok (setStatus_apply _ _), bind_apply, jump_apply]
      split
      · simp
      · simp

end UnwindsJust

end M68k
