import M68k.Cpu.Property
import M68k.Proofs.Cpu.BusView
import M68k.Proofs.Cpu.Ram
import M68k.Proofs.Mask

/-!
# Every access is one that the bus of the model allows

No address on the bus has a bit beyond the address lines of the model, the instruction stream is
fetched from even addresses, and the models that cannot do otherwise use words and long words of
data at even addresses only.  An access that would break this ends in an address error before the
bus sees it.

* `Composed.legal` — what composed actions ask of a bus is legal;
* `run_legal` — so is all that the bus is asked when a host uses a processor.
-/

namespace M68k

open MachineM

/-- An access that the bus of a model allows. -/
def BusEvent.IsLegal (model : Model) : BusEvent → Prop
  | read size address _ | write size address _ _ =>
    Within model.addressMask address ∧
      (model = .m68000 ∨ model = .m68010 → size ≠ .byte → address.getLsbD 0 = false)
  | fetch address _ => Within model.addressMask address ∧ address.getLsbD 0 = false
  | interruptLevel | acknowledge _ | reset | illegal _ | pcChanged _ => True

/-- A step of two bytes leads from even addresses to even ones. -/
theorem Model.even_next (model : Model) {address : BitVec 32} (even : address.getLsbD 0 = false) :
    ((address + 2) &&& model.addressMask).getLsbD 0 = false := by
  have sum : (address + 2).getLsbD 0 = false := by
    simp only [BitVec.getLsbD, Nat.testBit_zero, decide_eq_false_iff_not, BitVec.toNat_add]
      at even ⊢
    have two : (2 : BitVec 32).toNat = 2 := rfl
    omega
  rw [BitVec.getLsbD_and, sum, Bool.false_and]

/-- The early models find every word and long word at an odd address misaligned. -/
theorem misaligned_of_early {model : Model} (early : model = .m68000 ∨ model = .m68010)
    {size : Size} (wide : size ≠ .byte) (place : BitVec 32) :
    misaligned model.capabilities size place = place.getLsbD 0 := by
  have strict : model.capabilities.misalignedData = false := by
    rcases early with rfl | rfl <;> rfl
  unfold misaligned
  rw [strict, bne_iff_ne.mpr wide, Bool.true_and, Bool.not_false, Bool.and_true]

/-- What is not misaligned is legal data. -/
theorem BusEvent.IsLegal.data {model : Model} {size : Size} {address : BitVec 32}
    (aligned : misaligned model.capabilities size (model.place address) = false) :
    Within model.addressMask (model.place address) ∧
      (model = .m68000 ∨ model = .m68010 → size ≠ .byte →
        (model.place address).getLsbD 0 = false) := by
  refine ⟨.cut _ _, fun early wide => ?_⟩
  rw [← misaligned_of_early early wide]
  exact aligned

variable {β : Type} [Bus β]

namespace Legal

variable (m : Machine β)

theorem readIn (space : FunctionCode) (size : Size) (address : BitVec 32) :
    m.Uses (BusEvent.IsLegal m.cpu.model) (MachineM.readIn space size address m).2 := by
  rw [readIn_apply]
  dsimp only
  split
  · exact .refl m
  next aligned =>
    have legal := BusEvent.IsLegal.data (Bool.eq_false_iff.mpr aligned)
    split <;> exact .of_event (.read size _ space) legal

theorem writeIn (space : FunctionCode) (size : Size) (address value : BitVec 32) :
    m.Uses (BusEvent.IsLegal m.cpu.model) (MachineM.writeIn space size address value m).2 := by
  rw [writeIn_apply]
  dsimp only
  split
  · exact .refl m
  next aligned =>
    have legal := BusEvent.IsLegal.data (Bool.eq_false_iff.mpr aligned)
    split <;> exact .of_event (.write size _ _ space) legal

/-- Reading ahead asks for the word after one that was found at an even address. -/
theorem fetch : m.Uses (BusEvent.IsLegal m.cpu.model) (MachineM.fetch m).2 := by
  have ahead {place : BitVec 32} (even : place.getLsbD 0 = false)
      (outcome : Except Fault (BitVec 16) × Machine β)
      (used : m.Uses (BusEvent.IsLegal m.cpu.model) outcome.2) :
      m.Uses (BusEvent.IsLegal m.cpu.model)
        (afterFetch m ((place + 2) &&& m.cpu.model.addressMask) outcome).2 := by
    obtain ⟨fault | word, found⟩ := outcome
    · exact used
    · dsimp only [afterFetch]
      split
      · rw [readAhead_apply]
        exact used.trans (.of_event (.fetch _ _) ⟨.cut _ _, m.cpu.model.even_next even⟩)
      · exact used
  rw [fetch_apply]
  dsimp only
  split
  · exact .refl m
  next odd =>
    have even := Bool.eq_false_iff.mpr odd
    refine ahead even _ ?_
    cases prefetchedAt? m.cpu (m.cpu.registers.pc &&& m.cpu.model.addressMask) with
    | some word => exact .of_bus_eq rfl
    | none =>
      dsimp only
      rw [fetchFromBus_apply]
      dsimp only
      split <;> exact .of_event (.fetch _ _) ⟨.cut _ _, even⟩

theorem jump (target : BitVec 32) :
    m.Uses (BusEvent.IsLegal m.cpu.model) (MachineM.jump target m).2 := by
  rw [jump_apply]
  split
  · exact .refl m
  · exact .of_event (.pcChanged target) trivial

end Legal

/-- What a composed action asks of the bus is legal. -/
theorem Composed.legal {α : Type} {model : Model} {grant : Grant} {x : Action α}
    (h : Composed model grant x) (m : Machine β) (known : m.cpu.model = model) :
    m.Uses (BusEvent.IsLegal model) (x β m).2 := by
  induction h generalizing m with
  | @bind _ _ _ x f first _ ihx ihf =>
    have led := ihx m known
    have stays := first.model_eq m known
    dsimp only
    rw [bind_apply]
    generalize x β m = outcome at led stays
    obtain ⟨fault | a, m'⟩ := outcome
    · exact led
    · exact led.trans (ihf a m' stays)
  | cpu _ _ ih =>
    dsimp only
    rw [bind_ok (cpu_apply m)]
    exact ih m.cpu known m known
  | guarded _ ih =>
    dsimp only
    rw [bind_apply, requireSupervisor_apply]
    cases m.cpu.registers.isSupervisor with
    | true => exact ih () m known
    | false => exact .refl m
  | onUnit vector =>
    refine .of_bus_eq ?_
    dsimp only
    rw [onUnit_apply]
    split
    · rfl
    · split <;> rfl
  | requireSupervisor =>
    dsimp only
    rw [requireSupervisor_apply]
    exact .refl m
  | read size address =>
    dsimp only
    rw [read_apply, ← known]
    exact Legal.readIn m _ size address
  | readProgram size address =>
    dsimp only
    rw [bind_ok (cpu_apply m), ← known]
    exact Legal.readIn m _ size address
  | write size address value =>
    dsimp only
    rw [write_apply, ← known]
    exact Legal.writeIn m _ size address value
  | readIn space size address => exact known ▸ Legal.readIn m space size address
  | writeIn space size address value => exact known ▸ Legal.writeIn m space size address value
  | fetch => exact known ▸ Legal.fetch m
  | jump target => exact known ▸ Legal.jump m target
  | askIllegal opcode => exact .of_event (.illegal opcode) trivial
  | acknowledge level => exact .of_event (.acknowledge level) trivial
  | askLevel => exact .of_event .interruptLevel trivial
  | resetLine => exact .of_event .reset trivial
  | _ => exact .of_bus_eq rfl

/-- What a host does to a machine. -/
inductive HostCall where
  /-- Takes an interrupt or executes an instruction, within a limit for returns. -/
  | execute (host : Fpu.HostMath) (limit : Nat)
  | reset
  | setRegister (name : RegisterName) (value : BitVec 32)
  | setPrefetch (enabled : Bool)

namespace Machine

/-- The machine after its host has done something to it. -/
def does (m : Machine β) : HostCall → Machine β
  | .execute host limit => (m.executeWithin host limit).2
  | .reset => m.reset
  | .setRegister name value => ⟨m.cpu.setRegister name value, m.bus⟩
  | .setPrefetch enabled => ⟨m.cpu.setPrefetch enabled, m.bus⟩

/-- The machine after a host has done one thing after the other to it. -/
def run (m : Machine β) (calls : List HostCall) : Machine β := calls.foldl does m

/-- The machine with a log of what its bus is asked from now on. -/
def logged (m : Machine β) : Machine (Logged β) := ⟨m.cpu, ⟨m.bus, []⟩⟩

/-- Machines of one model between which the bus was used legally. -/
structure Legally (m m' : Machine β) : Prop where
  model : m'.cpu.model = m.cpu.model
  uses : m.Uses (BusEvent.IsLegal m.cpu.model) m'

namespace Legally

variable {m m' m'' : Machine β}

theorem refl (m : Machine β) : m.Legally m := ⟨rfl, .refl m⟩

theorem trans (h : m.Legally m') (h' : m'.Legally m'') : m.Legally m'' :=
  ⟨h'.model.trans h.model, h.uses.trans (h.model ▸ h'.uses)⟩

/-- Whatever happens within the processor, as long as the model stays. -/
theorem of_cpu {cpu : Cpu} (model : cpu.model = m.cpu.model) : m.Legally ⟨cpu, m.bus⟩ :=
  ⟨model, .of_bus_eq rfl⟩

theorem of_composed {α : Type} {grant : Grant} {x : Action α} (m : Machine β)
    (h : Composed m.cpu.model grant x) : m.Legally (x β m).2 :=
  ⟨h.model_eq m rfl, h.legal m rfl⟩

theorem executeWithin (host : Fpu.HostMath) (limit : Nat) (m : Machine β) :
    m.Legally (m.executeWithin host limit).2 := by
  refine leads_executeWithin host limit m refl trans ?_ ?_ ?_
  · exact of_composed m (.work host limit)
  · refine Handling.leads_handle ⟨true, true, true, true⟩ rfl trans ?_ ?_ refl
    · exact fun m x composed => of_composed m composed
    · exact fun m _ _ => of_cpu rfl
  · exact fun m => of_cpu rfl

theorem reset (m : Machine β) : m.Legally m.reset := by
  have legal (address : BitVec 32) (within : Within m.cpu.model.addressMask address)
      (even : address.getLsbD 0 = false) :
      BusEvent.IsLegal m.cpu.model (.read .long address .supervisorProgram) :=
    ⟨within, fun _ _ => even⟩
  refine ⟨rfl, [.read .long 0 .supervisorProgram, .read .long 4 .supervisorProgram], ?_, rfl⟩
  intro e member
  simp only [List.mem_cons, List.not_mem_nil, or_false] at member
  rcases member with rfl | rfl
  · exact legal 0 (by cases m.cpu.model <;> decide) rfl
  · exact legal 4 (by cases m.cpu.model <;> decide) rfl

/-- Whatever a host does in one step uses the bus legally. -/
theorem does (call : HostCall) (m : Machine β) : m.Legally (m.does call) := by
  cases call with
  | execute host limit => exact executeWithin host limit m
  | reset => exact reset m
  | setRegister name value =>
    refine of_cpu ?_
    cases name <;> rfl
  | setPrefetch enabled => exact of_cpu rfl

/-- So does whatever a host does in any number of steps. -/
theorem run (calls : List HostCall) (m : Machine β) : m.Legally (m.run calls) := by
  induction calls generalizing m with
  | nil => exact refl m
  | cons call rest ih => exact (does call m).trans (ih (m.does call))

end Legally

/-- Logging what the bus is asked changes nothing else. -/
theorem run_seen (calls : List HostCall) (m : Machine (Logged β)) :
    (m.seen Logged.bus).run calls = (m.run calls).seen Logged.bus := by
  induction calls generalizing m with
  | nil => rfl
  | cons call rest ih =>
    have first : (m.seen Logged.bus).does call = (m.does call).seen Logged.bus := by
      cases call with
      | execute host limit =>
        exact congrArg Prod.snd (executeWithin_seen (Logged.isView β) host limit m)
      | reset => exact reset_seen (Logged.isView β) m
      | setRegister name value => rfl
      | setPrefetch enabled => rfl
    show ((m.seen Logged.bus).does call).run rest = _
    rw [first]
    exact ih (m.does call)

end Machine

/-- **Every access is one that the bus of the model allows.**  Whatever a host does with a processor
in whatever state and on whatever bus, a log of what the bus is asked holds legal accesses only.
The early models do not ask for a word or long word at an odd address: that is an address error, and
the machine stays as it was, its bus included.  So it is with a fetch at an odd address, on all
models. -/
theorem run_legal (calls : List HostCall) (m : Machine β) :
    (m.logged.run calls).seen Logged.bus = m.run calls ∧
    (∀ e ∈ (m.logged.run calls).bus.log, e.IsLegal m.cpu.model) ∧
    (∀ (m' : Machine β) (space : FunctionCode) (size : Size) (address value : BitVec 32),
      m'.cpu.model = .m68000 ∨ m'.cpu.model = .m68010 → size ≠ .byte →
      (m'.cpu.model.place address).getLsbD 0 = true →
      readIn space size address m' =
          (.error (.address ⟨m'.cpu.model.place address, space, true, size, 0⟩), m') ∧
        writeIn space size address value m' =
          (.error (.address ⟨m'.cpu.model.place address, space, false, size, size.truncate value⟩),
            m')) ∧
    (∀ m' : Machine β, (m'.cpu.model.place m'.cpu.registers.pc).getLsbD 0 = true →
      fetch m' = (.error (.address
        ⟨m'.cpu.model.place m'.cpu.registers.pc, m'.cpu.programCode, true, .word, 0⟩), m')) := by
  refine ⟨(Machine.run_seen calls m.logged).symm, ?_, ?_, ?_⟩
  · exact Logged.mem_log_of_uses (Machine.Legally.run calls m.logged).uses rfl
  · intro m' space size address value early wide odd
    have found := (misaligned_of_early early wide _).trans odd
    rw [readIn_apply, writeIn_apply]
    exact ⟨if_pos found, if_pos found⟩
  · intro m' odd
    rw [fetch_apply]
    exact if_pos odd

/-- A program whose first instruction reads a word at an odd address. -/
def misreader : Machine Bytes where
  cpu := Cpu.new .m68000
  bus address :=
    match address.toNat with
    | 0x02 => 0x20
    | 0x06 => 0x10
    | 0x1000 => 0x30
    | 0x1001 => 0x38
    | 0x1003 => 0x01
    | _ => 0

theorem run_legal_misreader :
    BusEvent.IsLegal .m68000 (.fetch 0x1002 .supervisorProgram) ∧
      readIn .supervisorData .word 1 misreader =
        (.error (.address ⟨1, .supervisorData, true, .word, 0⟩), misreader) ∧
      fetch ⟨misreader.cpu.setRegister .pc 0x1001, misreader.bus⟩ =
        (.error (.address ⟨0x1001, .supervisorProgram, true, .word, 0⟩),
          ⟨misreader.cpu.setRegister .pc 0x1001, misreader.bus⟩) := by
  obtain ⟨-, legal, data, program⟩ := run_legal [.reset, .execute .native 1] misreader
  refine ⟨legal _ (List.mem_iff_getElem?.mpr ⟨4, by decide +kernel⟩), ?_, program _ rfl⟩
  exact (data misreader .supervisorData .word 1 0 (.inl rfl) (by decide) rfl).1

end M68k
