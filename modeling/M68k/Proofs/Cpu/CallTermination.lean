import M68k.Proofs.Cpu.Call
import M68k.Proofs.Cpu.Ram
import M68k.Proofs.Cpu.Unwinding

/-!
# Which calls end

A call can be kept running for ever in one way only: by a return from an exception, in supervisor
mode, that meets frames of format 1 without end.  `Machine.returning?` is the machine at which the
return of a call starts.

* `executeWithin_unfinished_iff` — a limit is too small for a call just if it is for its return;
* `execute_ends` — a call ends just if its chain of frames does, and what it then costs.
-/

namespace M68k

open MachineM

variable {β : Type} [Bus β]

namespace Handling

variable (m : Machine β)

theorem handleAccess_ne_unfinished (vector : VectorNumber) (access : AccessFault) :
    (handleAccess vector access m).1 ≠ .error .unfinished := by
  rw [handleAccess_apply]
  split
  · simp [halted]
  · generalize enterAccess vector access (atStage .buildingFrame m) = outcome
    obtain ⟨(_ | _ | _ | _ | _) | _, m'⟩ := outcome <;> simp [halted]

theorem handle_ne_unfinished {fault : Fault} (known : fault ≠ .unfinished) :
    (handle fault m).1 ≠ .error .unfinished := by
  have entered (vector : VectorNumber) (returnAddress : BitVec 32) :
      (handleException vector returnAddress m).1 ≠ .error .unfinished := by
    rw [handleException_apply]
    generalize enter vector returnAddress none m = outcome
    obtain ⟨(_ | _ | _ | _ | _) | _, m'⟩ := outcome
    case error.bus | error.address => exact handleAccess_ne_unfinished m' _ _
    all_goals simp [halted]
  rw [handle_apply]
  cases fault with
  | bus access => exact handleAccess_ne_unfinished m _ access
  | address access => exact handleAccess_ne_unfinished m _ access
  | exception vector => exact entered vector _
  | trap vector => exact entered vector _
  | unfinished => exact absurd rfl known

/-- Handling a fault costs at most the entries of two exceptions. -/
theorem handleAccess_cycles (vector : VectorNumber) (access : AccessFault) :
    (handleAccess vector access m).2.cpu.cycles ≤ m.cpu.cycles + 12290 := by
  rw [handleAccess_apply]
  split
  · exact Nat.le_add_right _ _
  · have cost := Costs.enterAccess vector access (atStage .buildingFrame m)
    generalize enterAccess vector access (atStage .buildingFrame m) = outcome at cost
    obtain ⟨(_ | _ | _ | _ | _) | _, m'⟩ := outcome <;> exact cost

theorem handle_cycles (fault : Fault) :
    (handle fault m).2.cpu.cycles ≤ m.cpu.cycles + 24580 := by
  have entered (vector : VectorNumber) (returnAddress : BitVec 32) :
      (handleException vector returnAddress m).2.cpu.cycles ≤ m.cpu.cycles + 24580 := by
    rw [handleException_apply]
    have cost := Costs.enter vector returnAddress none m
    generalize enter vector returnAddress none m = outcome at cost
    obtain ⟨(access | access | _ | _ | _) | _, m'⟩ := outcome
    case error.bus | error.address =>
      have second := handleAccess_cycles m'
      dsimp only at cost ⊢
      exact Nat.le_trans (second _ access) (by omega)
    all_goals exact Nat.le_trans cost (by omega)
  have direct (vector : VectorNumber) (access : AccessFault) :
      (handleAccess vector access m).2.cpu.cycles ≤ m.cpu.cycles + 24580 :=
    Nat.le_trans (handleAccess_cycles m vector access) (by omega)
  rw [handle_apply]
  cases fault with
  | bus access => exact direct _ access
  | address access => exact direct _ access
  | exception vector => exact entered vector _
  | trap vector => exact entered vector _
  | unfinished => exact Nat.le_add_right _ _

end Handling

namespace MachineM

variable (m : Machine β)

theorem opening_ne_unfinished : (opening m).1 ≠ .error .unfinished := by
  rw [opening_apply, begin_apply]
  split
  · simp
  · split
    · simp
    · have fetched := FailsByAccess.fetch.ne_unfinished m.polled.started
      generalize fetch m.polled.started = outcome at fetched
      obtain ⟨fault | opcode, m'⟩ := outcome
      · exact fun same => fetched (congrArg Except.error (Except.error.inj same))
      · simp

/-- The cycles of a call before it performs a return from an exception. -/
theorem opening_cycles {before : StatusRegister} {r : Machine β}
    (opens : opening m = (.ok (.perform before .rte), r)) : r.cpu.cycles ≤ 275 := by
  rw [opening_apply, begin_apply] at opens
  split at opens
  · exact nomatch Except.ok.inj (congrArg Prod.fst opens)
  · split at opens
    · exact nomatch Except.ok.inj (congrArg Prod.fst opens)
    · have fetched := Costs.fetch m.polled.started
      generalize fetch m.polled.started = outcome at fetched opens
      obtain ⟨fault | opcode, m'⟩ := outcome
      · exact nomatch congrArg Prod.fst opens
      · obtain ⟨same, rfl⟩ := Prod.mk.inj opens
        have rte := (Activity.perform.inj (Except.ok.inj same)).2
        have timing : Timing.instruction m'.cpu.model .rte = 20 := by
          cases m'.cpu.model <;> rfl
        show m'.cpu.cycles + Timing.instruction _ (Instruction.ofOpcode _ opcode) ≤ 275
        rw [rte, timing]
        exact Nat.add_le_add_right (Nat.le_trans fetched (Nat.le_of_eq (Nat.zero_add 255))) 20

omit [Bus β] in
theorem settle_ne_unfinished (before : StatusRegister) :
    (settle before m).1 ≠ .error .unfinished := by
  rw [settle_apply]
  split <;> simp

/-- Only a return from an exception can go on for ever. -/
theorem carryOut_unfinished_iff (host : Fpu.HostMath) (limit : Nat) (activity : Activity) :
    (carryOut host limit activity m).1 = .error .unfinished ↔
      (∃ before, activity = .perform before .rte) ∧ m.cpu.registers.isSupervisor = true ∧
        (returnFromException limit m).1 = .error .unfinished := by
  cases activity with
  | interrupt level =>
    refine ⟨fun unfinished => ?_, ?_⟩
    · have composed : Composed m.cpu.model ⟨true, false, false, false⟩ fun _ _ => interrupt level :=
        .interrupt rfl level
      exact absurd unfinished (composed.ne_unfinished rfl m rfl)
    · rintro ⟨⟨_, same⟩, -⟩
      cases same
  | wait =>
    refine ⟨fun unfinished => ?_, ?_⟩
    · exact absurd unfinished (by simp [carryOut])
    · rintro ⟨⟨_, same⟩, -⟩
      cases same
  | perform before instruction =>
    by_cases rte : instruction = .rte
    · subst rte
      show (((requireSupervisor >>= fun _ => returnFromException limit) >>= fun _ =>
        settle before) m).1 = _ ↔ _
      rw [bind_apply, bind_apply, requireSupervisor_apply]
      cases supervisor : m.cpu.registers.isSupervisor with
      | false => simp
      | true =>
        simp only [if_true, true_and]
        generalize returnFromException limit m = outcome
        obtain ⟨fault | _, m'⟩ := outcome
        · simp
        · simp [settle_ne_unfinished]
    · refine ⟨fun unfinished => ?_, ?_⟩
      · have composed : Composed m.cpu.model ⟨false, true, false, false⟩ fun _ _ =>
            Execution.perform host limit instruction :=
          .perform host limit instruction rte fun _ => rfl
        exact absurd unfinished (bind_ne_unfinished m (composed.ne_unfinished rfl m rfl)
          fun _ => settle_ne_unfinished _ before)
      · rintro ⟨⟨_, same⟩, -⟩
        exact absurd (Activity.perform.inj same).2 rte

/-- Only a return from an exception looks at the limit. -/
theorem carryOut_congr (host : Fpu.HostMath) {limit limit' : Nat} (activity : Activity)
    (same : ∀ before, activity = .perform before .rte → m.cpu.registers.isSupervisor = true →
      returnFromException limit m = returnFromException limit' m) :
    carryOut host limit activity m = carryOut host limit' activity m := by
  cases activity with
  | interrupt level => rfl
  | wait => rfl
  | perform before instruction =>
    cases instruction with
    | rte =>
      show ((requireSupervisor >>= fun _ => returnFromException limit) >>= fun _ =>
        settle before) m = ((requireSupervisor >>= fun _ => returnFromException limit') >>= fun _ =>
          settle before) m
      simp only [bind_apply, requireSupervisor_apply]
      cases supervisor : m.cpu.registers.isSupervisor with
      | false => rfl
      | true =>
        simp only [if_true]
        rw [same before rfl supervisor]
    | _ => rfl

end MachineM

namespace Machine

variable (host : Fpu.HostMath) {limit limit' count : Nat} {m r : Machine β}

/-- The machine at which the return from an exception of a call starts, if the call comes to one in
supervisor mode. -/
def returning? (m : Machine β) : Option (Machine β) :=
  if m.cpu.runState = .halted then none
  else
    match opening m with
    | (.ok (.perform _ .rte), r) => if r.cpu.registers.isSupervisor then some r else none
    | _ => none

theorem returning?_eq_some :
    m.returning? = some r ↔ m.cpu.runState ≠ .halted ∧
      ∃ before, opening m = (.ok (.perform before .rte), r) ∧
        r.cpu.registers.isSupervisor = true := by
  unfold returning?
  constructor
  · intro comes
    split at comes
    · exact nomatch comes
    · rename_i active
      split at comes
      · rename_i before r' opens
        split at comes
        · rename_i supervisor
          obtain rfl := Option.some.inj comes
          exact ⟨active, before, opens, supervisor⟩
        · exact nomatch comes
      · exact nomatch comes
  · rintro ⟨active, before, opens, supervisor⟩
    rw [if_neg active, opens]
    exact if_pos supervisor

/-- The work of a call exceeds the limit just if its return does. -/
theorem work_unfinished_iff (active : m.cpu.runState ≠ .halted) :
    (work host limit m).1 = .error .unfinished ↔
      ∃ r, m.returning? = some r ∧ (returnFromException limit r).1 = .error .unfinished := by
  have opens := opening_ne_unfinished m
  simp only [returning?_eq_some]
  rw [work_eq, bind_apply]
  rcases hm : opening m with ⟨fault | activity, r⟩
  · rw [hm] at opens
    refine ⟨fun same => absurd (congrArg Except.error (Except.error.inj same)) opens, ?_⟩
    rintro ⟨_, ⟨-, before, comes, -⟩, -⟩
    exact nomatch congrArg Prod.fst comes
  · refine (carryOut_unfinished_iff r host limit activity).trans ⟨?_, ?_⟩
    · rintro ⟨⟨before, rfl⟩, supervisor, unfinished⟩
      exact ⟨r, ⟨active, before, rfl, supervisor⟩, unfinished⟩
    · rintro ⟨_, ⟨-, before, comes, supervisor⟩, unfinished⟩
      obtain ⟨same, rfl⟩ := Prod.mk.inj comes
      exact ⟨⟨before, Except.ok.inj same⟩, supervisor, unfinished⟩

/-- A limit is too small for a call just if it is too small for its return. -/
theorem executeWithin_unfinished_iff :
    (m.executeWithin host limit).1 = .error .unfinished ↔
      ∃ r, m.returning? = some r ∧ (returnFromException limit r).1 = .error .unfinished := by
  by_cases halted : m.cpu.runState = .halted
  · simp [executeWithin_halted halted, returning?_eq_some, halted]
  · rw [← work_unfinished_iff host halted]
    rcases done : work host limit m with ⟨fault | _, m'⟩
    · rw [executeWithin_error halted done]
      by_cases unfinished : fault = .unfinished
      · subst unfinished
        exact ⟨fun _ => rfl, fun _ => rfl⟩
      · have known := Handling.handle_ne_unfinished m' unfinished
        generalize Handling.handle fault m' = outcome at known
        refine ⟨fun same => ?_, fun same => absurd (Except.error.inj same) unfinished⟩
        obtain ⟨error | _, m''⟩ := outcome
        · exact absurd (congrArg Except.error (Except.error.inj same)) known
        · exact nomatch same
    · rw [executeWithin_ok halted done]
      exact ⟨fun same => (nomatch same), fun same => (nomatch same)⟩

/-- What a call does depends on the limit only through its return. -/
theorem executeWithin_congr
    (same : ∀ r, m.returning? = some r →
      returnFromException limit r = returnFromException limit' r) :
    m.executeWithin host limit = m.executeWithin host limit' := by
  by_cases halted : m.cpu.runState = .halted
  · rw [executeWithin_halted halted, executeWithin_halted halted]
  · have works : work host limit m = work host limit' m := by
      rw [work_eq, work_eq, bind_apply, bind_apply]
      rcases opens : opening m with ⟨fault | activity, r⟩
      · rfl
      · refine carryOut_congr r host activity fun before rte supervisor => same r ?_
        exact returning?_eq_some.mpr ⟨halted, before, rte ▸ opens, supervisor⟩
    rw [executeWithin, executeWithin, advance_apply, advance_apply, works]

/-- A call without a return ends whatever the limit. -/
theorem executeWithin_of_none (none : m.returning? = none) :
    m.executeWithin host limit = m.executeWithin host 1 ∧
      (m.executeWithin host limit).1 ≠ .error .unfinished := by
  constructor
  · exact executeWithin_congr host fun r comes => nomatch none.symm.trans comes
  · rw [Ne, executeWithin_unfinished_iff]
    rintro ⟨r, comes, -⟩
    exact nomatch none.symm.trans comes

/-- A call with a return ends with every limit beyond the chain of its frames. -/
theorem executeWithin_of_chain (comes : m.returning? = some r) (chain : UnwindsJust count r)
    (enough : count < limit) :
    m.executeWithin host limit = m.executeWithin host (count + 1) ∧
      (m.executeWithin host limit).1 ≠ .error .unfinished := by
  constructor
  · refine executeWithin_congr host fun r' comes' => ?_
    obtain rfl := Option.some.inj (comes.symm.trans comes')
    exact chain.returnFromException_eq enough
  · rw [Ne, executeWithin_unfinished_iff]
    rintro ⟨r', comes', unfinished⟩
    obtain rfl := Option.some.inj (comes.symm.trans comes')
    exact chain.ne_unfinished enough unfinished

theorem work_cycles (comes : m.returning? = some r) (chain : UnwindsJust count r)
    (enough : count < limit) :
    (work host limit m).2.cpu.cycles ≤ 765 * (count + 1) + 275 := by
  obtain ⟨-, before, opens, supervisor⟩ := returning?_eq_some.mp comes
  have opened := opening_cycles m opens
  have returned := chain.cycles_le enough
  rw [work_eq, bind_ok opens]
  show (((requireSupervisor >>= fun _ => returnFromException limit) >>= fun _ =>
    settle before) r).2.cpu.cycles ≤ _
  have passes : requireSupervisor r = (.ok (), r) := by
    rw [requireSupervisor_apply, if_pos supervisor]
  have total : r.cpu.cycles + 765 * (count + 1) ≤ 765 * (count + 1) + 275 := by omega
  rw [bind_apply, bind_ok passes]
  generalize returnFromException limit r = outcome at returned
  obtain ⟨fault | _, m'⟩ := outcome
  · exact Nat.le_trans returned total
  · have settled : (settle before m').2.cpu.cycles = m'.cpu.cycles := by
      rw [settle_apply]
      show m'.cpu.settled.cycles = _
      unfold Cpu.settled
      split <;> rfl
    exact Nat.le_trans (Nat.le_of_eq settled) (Nat.le_trans returned total)

/-- What a call with a return costs, the handling of a fault included. -/
theorem executeWithin_cycles (comes : m.returning? = some r) (chain : UnwindsJust count r)
    (enough : count < limit) :
    (m.executeWithin host limit).2.cpu.cycles ≤ 765 * (count + 1) + 24855 := by
  have active := (returning?_eq_some.mp comes).1
  have worked := work_cycles host comes chain enough
  rcases done : work host limit m with ⟨fault | _, m'⟩
  · rw [done] at worked
    rw [executeWithin_error active done]
    have handled := Handling.handle_cycles m' fault
    show (Handling.handle fault m').2.cpu.cycles ≤ _
    dsimp only at worked
    omega
  · rw [done] at worked
    rw [executeWithin_ok active done]
    exact Nat.le_trans worked (by omega)

theorem model_fetch : Leads (β := β) (fun m m' => m'.cpu.model = m.cpu.model) fetch := by
  refine leads_fetch (fun _ => rfl) (fun h h' => h'.trans h) (fun _ => rfl) ?_ ?_
  · intro m access _
    rw [fetchFromBus_apply]
    dsimp only
    split <;> rfl
  · intro m address
    rw [readAhead_apply]
    dsimp only
    split <;> rfl

theorem model_returning? (comes : m.returning? = some r) : r.cpu.model = m.cpu.model := by
  obtain ⟨-, before, opens, -⟩ := returning?_eq_some.mp comes
  rw [opening_apply, begin_apply] at opens
  split at opens
  · exact nomatch Except.ok.inj (congrArg Prod.fst opens)
  · split at opens
    · exact nomatch Except.ok.inj (congrArg Prod.fst opens)
    · have same := model_fetch m.polled.started
      generalize fetch m.polled.started = outcome at same opens
      obtain ⟨fault | opcode, m'⟩ := outcome
      · exact nomatch congrArg Prod.fst opens
      · obtain ⟨-, rfl⟩ := Prod.mk.inj opens
        exact same

end Machine

/-- **Returns and calls end just if their chain of frames does.**  Then every limit beyond the chain
gives the same outcome, each frame costs at most three accesses, and the cycles of the call are
bounded by the length of the chain.  On the first model every call ends within one frame. -/
theorem execute_ends (host : Fpu.HostMath) (m : Machine β) :
    ((∃ limit, (returnFromException limit m).1 ≠ .error .unfinished) ↔
      ∃ count, UnwindsJust count m) ∧
    ((∃ limit, (m.executeWithin host limit).1 ≠ .error .unfinished) ↔
      ∀ r, m.returning? = some r → ∃ count, UnwindsJust count r) ∧
    (∀ r count, m.returning? = some r → UnwindsJust count r → ∀ limit, count < limit →
      m.executeWithin host limit = m.executeWithin host (count + 1) ∧
      (m.executeWithin host limit).1 ≠ .error .unfinished ∧
      (returnFromException limit r).2.cpu.cycles ≤ r.cpu.cycles + 765 * (count + 1) ∧
      (m.executeWithin host limit).2.cpu.cycles ≤ 765 * (count + 1) + 24855) ∧
    (m.returning? = none ∨ m.cpu.model = .m68000 → ∀ limit, 0 < limit →
      m.executeWithin host limit = m.executeWithin host 1 ∧
      (m.executeWithin host limit).1 ≠ .error .unfinished) := by
  refine ⟨returnFromException_ends_iff m, ⟨?_, ?_⟩, ?_, ?_⟩
  · rintro ⟨limit, ends⟩ r comes
    rw [Ne, Machine.executeWithin_unfinished_iff] at ends
    exact (returnFromException_ends_iff r).mp ⟨limit, fun unfinished => ends ⟨r, comes, unfinished⟩⟩
  · intro chains
    cases comes : m.returning? with
    | none => exact ⟨0, (Machine.executeWithin_of_none host comes).2⟩
    | some r =>
      obtain ⟨count, chain⟩ := chains r comes
      exact ⟨count + 1, (Machine.executeWithin_of_chain host comes chain count.lt_succ_self).2⟩
  · intro r count comes chain limit enough
    obtain ⟨same, ends⟩ := Machine.executeWithin_of_chain host comes chain enough
    exact ⟨same, ends, chain.cycles_le enough,
      Machine.executeWithin_cycles host comes chain enough⟩
  · intro early limit enough
    cases comes : m.returning? with
    | none => exact Machine.executeWithin_of_none host comes
    | some r =>
      have model : r.cpu.model = .m68000 := by
        rw [Machine.model_returning? comes]
        exact early.resolve_left (by simp [comes])
      have frames : r.cpu.capabilities.frames = .f68000 := by
        rw [r.cpu.capabilities_eq, model]
        rfl
      exact Machine.executeWithin_of_chain host comes (.of_early frames) enough

/-- A return at 1000 to 3000, with one frame of format 1 on the way. -/
def throughOne : Machine Bytes where
  cpu := (Cpu.new .m68010).resetTo 0x2000 0x1000
  bus address :=
    match address.toNat with
    | 0x1000 => 0x4E
    | 0x1001 => 0x73
    | 0x2000 => 0x20
    | 0x2006 => 0x10
    | 0x2008 => 0x20
    | 0x200C => 0x30
    | _ => 0

theorem execute_ends_throughOne :
    ∃ r, throughOne.returning? = some r ∧ UnwindsJust 1 r ∧ ∀ limit, 1 < limit →
      throughOne.executeWithin .native limit = throughOne.executeWithin .native 2 ∧
      (throughOne.executeWithin .native limit).1 ≠ .error .unfinished := by
  have first : throughOne.returning? = some (opening throughOne).2 := rfl
  have chain : UnwindsJust 1 (opening throughOne).2 := by
    refine ⟨(unwindOnce (opening throughOne).2).2, .frame rfl (.start _), ?_⟩
    show Except.ok false ≠ Except.ok true
    simp
  refine ⟨_, first, chain, fun limit enough => ?_⟩
  obtain ⟨-, -, bounded, -⟩ := execute_ends .native throughOne
  obtain ⟨same, ends, -⟩ := bounded _ 1 first chain limit enough
  exact ⟨same, ends⟩

/-- Memory full of frames of format 1 in supervisor mode.  Their return addresses hold the opcode of
a return from an exception. -/
def throwaways : Bytes := fun address =>
  match address.toNat % 8 with
  | 0 => 0x20
  | 2 => 0x4E
  | 3 => 0x73
  | 6 => 0x10
  | _ => 0

/-- A machine that is about to return through these frames. -/
def endless : Machine Bytes := ⟨(Cpu.new .m68010).resetTo 0x2000 0x1002, throwaways⟩

/-- What stays the same from frame to frame. -/
structure InThrowaways (m : Machine Bytes) : Prop where
  bus : m.bus = throwaways
  model : m.cpu.model = .m68010
  stack : Registers.stackOf m.cpu.registers.sr = .interrupt
  aligned : m.cpu.registers.isp.toNat % 8 = 0

theorem throwaways_word (address : BitVec 32) :
    (address.toNat % 8 = 0 → throwaways.word address = 0x2000) ∧
      (address.toNat % 8 = 6 → throwaways.word address = 0x1000) := by
  constructor
  · intro first
    have second : (address + 1).toNat % 8 = 1 := by
      rw [BitVec.toNat_add, show (1 : BitVec 32).toNat = 1 from rfl]
      omega
    simp only [Bytes.word, throwaways, first, second]
    rfl
  · intro first
    have second : (address + 1).toNat % 8 = 7 := by
      rw [BitVec.toNat_add, show (1 : BitVec 32).toNat = 1 from rfl]
      omega
    simp only [Bytes.word, throwaways, first, second]
    rfl

/-- Each frame leads on to the next. -/
theorem InThrowaways.unwindOnce {m : Machine Bytes} (h : InThrowaways m) :
    ∃ m', MachineM.unwindOnce m = (.ok true, m') ∧ InThrowaways m' := by
  obtain ⟨bus, model, stack, aligned⟩ := h
  have sp : m.cpu.registers.sp = m.cpu.registers.isp := by
    rw [Registers.sp, stack]
    rfl
  have place (offset : BitVec 32) :
      (m.cpu.model.place (m.cpu.registers.isp + offset)).toNat % 8 = offset.toNat % 8 := by
    rw [Model.toNat_place (by rw [model]; rfl), BitVec.toNat_add]
    omega
  have even (offset : BitVec 32) (h : offset.toNat % 2 = 0) (size : Size) :
      misaligned m.cpu.model.capabilities size
        (m.cpu.model.place (m.cpu.registers.isp + offset)) = false := by
    have low : (m.cpu.model.place (m.cpu.registers.isp + offset)).getLsbD 0 = false := by
      have := place offset
      rw [BitVec.getLsbD, Nat.testBit_zero]
      exact decide_eq_false (by omega)
    simp only [misaligned, low, Bool.and_false, Bool.false_and]
  have start : m.cpu.registers.isp + 0 = m.cpu.registers.isp := BitVec.add_zero _
  have status := (throwaways_word _).1 (place 0)
  have format := (throwaways_word _).2 (place 6)
  have aligned₀ := even 0 rfl .word
  rw [start] at status aligned₀
  unfold MachineM.unwindOnce
  rw [bind_ok (sp_apply m), sp, bind_ok (read_bytes m .word _ aligned₀),
    bind_ok (read_bytes m .long _ (even 2 rfl .long)), bind_ok (capabilities_apply m),
    if_neg (by rw [Cpu.capabilities_eq, model]; decide),
    bind_ok (read_bytes m .word _ (even 6 rfl .word)), bus, Bytes.operand, Bytes.operand, status,
    format]
  refine ⟨_, rfl, ⟨bus, model, ?_, ?_⟩⟩
  · rw [Cpu.registers_setStatus]
    show Registers.stackOf (_ &&& m.cpu.model.statusMask) = _
    rw [model]
    decide
  · show ((m.cpu.registers.setSp (m.cpu.registers.isp + 8)).isp).toNat % 8 = 0
    rw [Registers.setSp, stack]
    show (m.cpu.registers.isp + 8).toNat % 8 = 0
    rw [BitVec.toNat_add, show (8 : BitVec 32).toNat = 8 from rfl]
    omega

/-- No limit is enough for these frames. -/
theorem InThrowaways.unwinds {m : Machine Bytes} (h : InThrowaways m) (count : Nat) :
    ∃ m', Unwinds count m m' := by
  induction count generalizing m with
  | zero => exact ⟨m, .start m⟩
  | succ count ih =>
    obtain ⟨next, first, h'⟩ := h.unwindOnce
    obtain ⟨m', rest⟩ := ih h'
    exact ⟨m', .frame first rest⟩

/-- Neither the return nor a call of the machine in these frames ever ends. -/
theorem endless_never_ends :
    (∀ limit, (returnFromException limit endless).1 = .error .unfinished) ∧
      ∀ host limit, (endless.executeWithin host limit).1 = .error .unfinished := by
  constructor
  · intro limit
    exact (returnFromException_unfinished_iff limit endless).mpr
      (InThrowaways.unwinds ⟨rfl, rfl, by decide, by decide⟩ limit)
  · intro host limit
    rw [Machine.executeWithin_unfinished_iff]
    refine ⟨(opening endless).2, ?_, ?_⟩
    · rfl
    · exact (returnFromException_unfinished_iff limit _).mpr
        (InThrowaways.unwinds ⟨rfl, rfl, by decide, by decide⟩ limit)

end M68k
