import M68k.Proofs.Cpu.DoubleFault

/-!
# The address that a failed access records

Reading, writing and fetching cut an address to the address lines of the model before they record
it.  A jump to an odd address records its target as it is.  So where a recorded address has a bit
beyond the address lines, the access that failed was a jump, and the same location is recorded in
another way when the instruction is fetched there.

* `Composed.records` — what composed actions record when they fail;
* `fault_addresses_recorded` — what calls record, in frames and on a double fault.
-/

namespace M68k

open MachineM

variable {β : Type} [Bus β]

namespace Fault

/-- The fault records an address on the bus of the model, or that of a jump from where the machine
is. -/
def Records (m : Machine β) : Fault → Prop
  | .bus access => Within m.cpu.model.addressMask access.address
  | .address access => Within m.cpu.model.addressMask access.address ∨
      jump access.address m = (.error (.address access), m)
  | .exception _ | .trap _ | .unfinished => True

/-- The address that a fault records. -/
def address? : Fault → Option (BitVec 32)
  | .bus access | .address access => some access.address
  | .exception _ | .trap _ | .unfinished => none

end Fault

/-- If an outcome is a fault, it records such an address. -/
def Recorded {α : Type} (outcome : Except Fault α × Machine β) : Prop :=
  ∀ fault, outcome.1 = .error fault → fault.Records outcome.2

namespace Recorded

variable {α γ : Type}

theorem ok (a : α) (m : Machine β) : Recorded (.ok a, m) := nofun

theorem error {fault : Fault} {m : Machine β} (records : fault.Records m) :
    Recorded (α := α) (.error fault, m) := by
  rintro _ ⟨⟩
  exact records

theorem bind {x : MachineM β α} {f : α → MachineM β γ} {m : Machine β} (first : Recorded (x m))
    (rest : ∀ a, Recorded (f a (x m).2)) : Recorded ((x >>= f) m) := by
  rw [bind_apply]
  generalize x m = outcome at first rest
  obtain ⟨fault | a, m'⟩ := outcome
  · exact error (first fault rfl)
  · exact rest a

variable (m : Machine β)

theorem readIn (space : FunctionCode) (size : Size) (address : BitVec 32) :
    Recorded (MachineM.readIn space size address m) := by
  rw [readIn_apply]
  dsimp only
  split
  · exact error (.inl (.cut _ _))
  · split
    · exact error (Within.cut m.cpu.model.addressMask address)
    · exact ok _ _

theorem writeIn (space : FunctionCode) (size : Size) (address value : BitVec 32) :
    Recorded (MachineM.writeIn space size address value m) := by
  rw [writeIn_apply]
  dsimp only
  split
  · exact error (.inl (.cut _ _))
  · split
    · exact error (Within.cut m.cpu.model.addressMask address)
    · exact ok _ _

theorem fetch : Recorded (MachineM.fetch m) := by
  have ahead {next : BitVec 32} {outcome : Except Fault (BitVec 16) × Machine β}
      (recorded : Recorded outcome) : Recorded (afterFetch m next outcome) := by
    obtain ⟨fault | word, found⟩ := outcome
    · exact recorded
    · exact ok _ _
  rw [fetch_apply]
  dsimp only
  split
  · exact error (.inl (.cut _ _))
  · refine ahead ?_
    cases prefetchedAt? m.cpu (m.cpu.registers.pc &&& m.cpu.model.addressMask) with
    | some word => exact ok _ _
    | none =>
      dsimp only
      rw [fetchFromBus_apply]
      dsimp only
      split
      · exact error (Within.cut m.cpu.model.addressMask m.cpu.registers.pc)
      · exact ok _ _

/-- The target of a jump is not cut to the address lines. -/
theorem jump (target : BitVec 32) : Recorded (MachineM.jump target m) := by
  by_cases odd : target.getLsbD 0 = true
  · have fails : MachineM.jump target m =
        (.error (.address ⟨target, m.cpu.programCode, true, .word, 0⟩), m) := by
      rw [jump_apply, if_pos odd]
    rw [fails]
    exact error (.inr fails)
  · rw [jump_apply, if_neg odd]
    exact ok _ _

theorem onUnit (vector : VectorNumber) (change : Fpu → Option (α × Fpu)) :
    Recorded (MachineM.onUnit vector change m) := by
  rw [onUnit_apply]
  cases m.cpu.fpu with
  | none => exact error trivial
  | some fpu =>
    dsimp only
    split
    · exact ok _ _
    · exact error trivial

theorem requireSupervisor : Recorded (MachineM.requireSupervisor m) := by
  rw [requireSupervisor_apply]
  split
  · exact ok _ _
  · exact error trivial

end Recorded

/-- What composed actions record when they fail. -/
theorem Composed.records {α : Type} {model : Model} {grant : Grant} {x : Action α}
    (h : Composed model grant x) (m : Machine β) (known : m.cpu.model = model) :
    Recorded (x β m) := by
  induction h generalizing m with
  | bind first _ ihx ihf =>
    exact .bind (ihx m known) fun a => ihf a _ (first.model_eq m known)
  | guarded _ ih =>
    refine .bind (Recorded.requireSupervisor m) fun u => ?_
    rw [requireSupervisor_stays]
    exact ih u m known
  | cpu _ _ ih =>
    dsimp only
    rw [bind_ok (cpu_apply m)]
    exact ih m.cpu known m known
  | onUnit vector => exact .onUnit m vector _
  | requireSupervisor => exact .requireSupervisor m
  | read size address =>
    dsimp only
    rw [read_apply]
    exact .readIn m _ size address
  | readProgram size address =>
    dsimp only
    rw [bind_ok (cpu_apply m)]
    exact .readIn m _ size address
  | write size address value =>
    dsimp only
    rw [write_apply]
    exact .writeIn m _ size address value
  | readIn space size address => exact .readIn m space size address
  | writeIn space size address value => exact .writeIn m space size address value
  | fetch => exact .fetch m
  | jump target => exact .jump m target
  | exception | trap | unfinished => exact .error trivial
  | _ => exact .ok _ _

namespace Recorded

/-- What a call does before it handles its fault. -/
theorem work (host : Fpu.HostMath) (limit : Nat) (m : Machine β) :
    Recorded (MachineM.work host limit m) :=
  (Composed.work host limit).records m rfl

/-- Entering an exception: the frame, the vector and the jump to the handler. -/
theorem enter (vector : VectorNumber) (returnAddress : BitVec 32) (access : Option AccessFault)
    (m : Machine β) : Recorded (MachineM.enter vector returnAddress access m) := by
  have composed : Composed m.cpu.model ⟨true, false, false, false⟩ fun _ _ =>
      MachineM.enter vector returnAddress access := .enter rfl vector returnAddress access
  exact composed.records m rfl

end Recorded

namespace Meeting

/-- The access that was met, as a fault. -/
def fault (met : Meeting β) : Fault :=
  if met.vector = .busError then .bus met.access else .address met.access

omit [Bus β] in
theorem fault_address? (met : Meeting β) : met.fault.address? = some met.access.address := by
  unfold fault
  split <;> rfl

omit [Bus β] in
theorem fault_of_accessOf {outcome : Except Fault Unit × Machine β} {met : Meeting β}
    (found : Fault.accessOf outcome = some met) :
    outcome = (.error met.fault, met.machine) := by
  obtain ⟨machine, ⟨vector, failed⟩ | ⟨vector, failed⟩⟩ := Fault.accessOf_some found
  · exact Prod.ext (by rw [failed, fault, if_pos vector]) machine.symm
  · exact Prod.ext (by rw [failed, fault, if_neg (by rw [vector]; decide)]) machine.symm

/-- A second access that fails on entry. -/
theorem records_entry (met : Meeting β) : Recorded met.entry := by
  rw [entry, enterAccess_apply]
  exact .enter _ _ _ _

end Meeting

/-- The access to which a fault comes down records such an address too. -/
theorem Fault.records_of_meets {fault : Fault} {m : Machine β} {met : Meeting β}
    (records : fault.Records m) (meets : fault.meets m = some met) :
    met.fault.Records met.machine := by
  have entered {outcome : Except Fault Unit × Machine β} (recorded : Recorded outcome)
      (found : accessOf outcome = some met) : met.fault.Records met.machine := by
    rw [Meeting.fault_of_accessOf found] at recorded
    exact recorded _ rfl
  cases fault with
  | bus access | address access => exact entered (.error records) meets
  | exception vector | trap vector => exact entered (.enter _ _ _ _) meets
  | unfinished => exact nomatch meets

namespace Handling

variable {fault : Fault} {m : Machine β} {address pc : BitVec 32}

/-- A processor that halts tells the address of the access that was met, or of the one that failed
on entry. -/
theorem address_of_handleAccess {met : Meeting β}
    (double : (handleAccess met.vector met.access met.machine).1 =
      .error (.doubleFault address pc)) :
    ∃ fault, fault.address? = some address ∧ (fault = met.fault ∨ met.entry.1 = .error fault) := by
  have told {m' : Machine β} {other : BitVec 32}
      (halts : (halted (α := Unit) other m').1 = .error (.doubleFault address pc)) :
      other = address := (ExecuteError.doubleFault.inj (Except.error.inj halts)).1
  rw [handleAccess_apply] at double
  split at double
  · exact ⟨met.fault, told double ▸ met.fault_address?, .inl rfl⟩
  · rw [show enterAccess met.vector met.access (atStage .buildingFrame met.machine) = met.entry
      from rfl] at double
    generalize met.entry = outcome at double
    obtain ⟨(second | second | _ | _ | _) | _, m'⟩ := outcome
    case error.bus => exact ⟨.bus second, congrArg some (told double), .inr rfl⟩
    case error.address => exact ⟨.address second, congrArg some (told double), .inr rfl⟩
    case ok => exact nomatch double
    all_goals exact ⟨met.fault, told double ▸ met.fault_address?, .inl rfl⟩

/-- A processor halts only over a failed access. -/
theorem meets_of_doubleFault
    (double : (handle fault m).1 = .error (.doubleFault address pc)) :
    ∃ met, fault.meets m = some met := by
  have entered {vector : VectorNumber} {returnAddress : BitVec 32}
      (double : (handleException vector returnAddress m).1 = .error (.doubleFault address pc)) :
      ∃ met, Fault.accessOf (enter vector returnAddress none m) = some met := by
    rw [handleException_apply] at double
    rcases ends : enter vector returnAddress none m with ⟨fault | _, m'⟩
    · exact Option.ne_none_iff_exists'.mp (Fault.accessOf_of_isAccess (enter_fails _ _ _ ends) m')
    · rw [ends] at double
      exact nomatch double
  rw [handle_apply] at double
  cases fault with
  | bus access | address access => exact ⟨_, rfl⟩
  | exception vector | trap vector => exact entered double
  | unfinished => exact nomatch double

end Handling

/-- A call that ends in a double fault has met a failed access, and tells its address or that of
another one that kept its exception from being entered. -/
theorem Machine.address_of_doubleFault {host : Fpu.HostMath} {limit : Nat} {m : Machine β}
    {address pc : BitVec 32}
    (double : (m.executeWithin host limit).1 = .error (.doubleFault address pc)) :
    ∃ met, m.meets host limit = some met ∧
      ∃ fault, fault.address? = some address ∧
        (fault = met.fault ∨ met.entry.1 = .error fault) := by
  by_cases halted : m.cpu.runState = .halted
  · rw [executeWithin_halted halted] at double
    exact nomatch double
  rcases done : MachineM.work host limit m with ⟨fault | _, m'⟩
  · rw [executeWithin_error halted done] at double
    have failed : (Handling.handle fault m').1 = .error (.doubleFault address pc) := by
      generalize (Handling.handle fault m').1 = outcome at double
      cases outcome with
      | error error => exact congrArg _ (Except.error.inj double)
      | ok => exact nomatch double
    obtain ⟨met, meets⟩ := Handling.meets_of_doubleFault failed
    refine ⟨met, by rw [Machine.meets, done]; exact meets, ?_⟩
    rw [Handling.handle_of_meets meets] at failed
    exact Handling.address_of_handleAccess failed
  · rw [executeWithin_ok halted done] at double
    exact nomatch double

namespace FrameContext

/-- The word of a frame of a failed access with which its address starts. -/
def addressPosition : FrameFamily → Nat
  | .f68000 => 1
  | .f68010 => 5
  | .f68020 => 8
  | .f68040 => 4

/-- The frame of a failed access has its address as it was recorded. -/
theorem address_in_contents {ctx : FrameContext} {access : AccessFault} {vector : VectorNumber}
    (stacked : ctx.access = some access) (failed : FrameFormat.isAccessVector vector = true)
    (family : FrameFamily) :
    ((ctx.contents (.ofVector family vector)).drop (addressPosition family)).take 2 =
      pair access.address := by
  unfold FrameFormat.ofVector
  rw [if_pos failed]
  cases family <;> simp [contents, rest, stacked, addressPosition, accessWords, start, pair, blank]

end FrameContext

/-- **What failed accesses record.**  Whatever the state of a machine and whatever its bus does, a
failed access in the work of a call records an address on the bus of the model, or it is that of a
jump.  So do the access that is then handled and a second one that fails when its exception is
entered.  A frame has the address as it was recorded, and a processor that halts tells that of one
of the two.  A jump to an odd address records the address itself, whichever bits it has. -/
theorem fault_addresses_recorded (host : Fpu.HostMath) (limit : Nat) (m : Machine β) :
    Recorded (work host limit m) ∧
      (∀ met, m.meets host limit = some met →
        met.fault.Records met.machine ∧ Recorded met.entry) ∧
      (∀ address pc, (m.executeWithin host limit).1 = .error (.doubleFault address pc) →
        ∃ met, m.meets host limit = some met ∧
          ∃ fault, fault.address? = some address ∧
            (fault = met.fault ∨ met.entry.1 = .error fault)) ∧
      (∀ (ctx : FrameContext) (access : AccessFault) (vector : VectorNumber) (family : FrameFamily),
        ctx.access = some access → FrameFormat.isAccessVector vector = true →
          ((ctx.contents (.ofVector family vector)).drop (FrameContext.addressPosition family)).take
              2 = FrameContext.pair access.address) ∧
      ∀ target : BitVec 32, target.getLsbD 0 = true →
        (jump target m).1 = .error (.address ⟨target, m.cpu.programCode, true, .word, 0⟩) := by
  have worked := Recorded.work host limit m
  refine ⟨worked, fun met meets => ⟨?_, met.records_entry⟩, ?_, ?_, ?_⟩
  · rw [Machine.meets] at meets
    rcases ends : work host limit m with ⟨fault | _, m'⟩
    · rw [ends] at worked meets
      exact Fault.records_of_meets (worked fault rfl) meets
    · rw [ends] at meets
      exact nomatch meets
  · exact fun _ _ double => Machine.address_of_doubleFault double
  · exact fun ctx access vector family stacked failed =>
      FrameContext.address_in_contents stacked failed family
  · intro target odd
    rw [jump_apply, if_pos odd]

/-- A 68000 that jumps to 01001001, which is 001001 on its bus. -/
def straying : Machine Bytes where
  cpu := (Cpu.new .m68000).resetTo 0x2000 0x1000
  bus address :=
    match address.toNat with
    | 0x0E => 0x30
    | 0x1000 => 0x4E
    | 0x1001 => 0xF9
    | 0x1002 => 0x01
    | 0x1004 => 0x10
    | 0x1005 => 0x01
    | _ => 0

/-- It records the target with a bit beyond its address lines, in the group-0 frame too.  If the
same location is fetched, it is recorded without that bit. -/
theorem straying_records_target :
    let access : AccessFault := ⟨0x01001001, .supervisorProgram, true, .word, 0⟩
    (work .native Machine.frameLimit straying).1 = .error (.address access) ∧
      ¬Within Model.m68000.addressMask access.address ∧
      (read .long 0x1FF4 (straying.execute .native).2).1 = .ok access.address ∧
      (fetch ⟨straying.cpu.setPc access.address, straying.bus⟩).1 =
        .error (.address { access with address := 0x1001 }) := by
  decide +kernel

end M68k
