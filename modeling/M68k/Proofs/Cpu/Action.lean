import M68k.Cpu.Machine

/-!
# What actions do to a machine

An action is a function from machines to outcomes and machines.  Here every elementary action is
given as such a function, and sequences of actions by `bind_ok` and `bind_error`, so that what
follows never opens the monad.  What uses the bus only can fail by an access only.
-/

namespace M68k

/-- What the bus sees of an address. -/
abbrev Model.place (model : Model) (address : BitVec 32) : BitVec 32 :=
  address &&& model.addressMask

namespace Machine

variable {β : Type}

/-- The machine after an access with this reply, which leaves the bus in another state. -/
def after (m : Machine β) (reply : BusReply) (bus : β) : Machine β :=
  ⟨{ m.cpu with cycles := m.cpu.cycles + reply.wait.toNat }, bus⟩

/-- The machine with other registers. -/
def withRegisters (m : Machine β) (registers : Registers) : Machine β :=
  { m with cpu := { m.cpu with registers } }

end Machine

namespace MachineM

variable {β α γ : Type} (m : Machine β)

@[simp] theorem pure_apply (a : α) : (pure a : MachineM β α) m = (.ok a, m) := rfl

@[simp] theorem throw_apply (e : Fault) : (throw e : MachineM β α) m = (.error e, m) := rfl

theorem bind_apply (x : MachineM β α) (f : α → MachineM β γ) :
    (x >>= f) m = match x m with
      | (.ok a, m') => f a m'
      | (.error e, m') => (.error e, m') := by
  show ExceptT.bindCont f (x m).1 (x m).2 = _
  rcases x m with ⟨_ | _, _⟩ <;> rfl

/-- After an action that succeeds, the next one starts where it ended. -/
theorem bind_ok {m m' : Machine β} {x : MachineM β α} {a : α} (h : x m = (.ok a, m'))
    (f : α → MachineM β γ) : (x >>= f) m = f a m' := by
  rw [bind_apply, h]

/-- A fault skips what follows. -/
theorem bind_error {m m' : Machine β} {x : MachineM β α} {e : Fault} (h : x m = (.error e, m'))
    (f : α → MachineM β γ) : (x >>= f) m = (.error e, m') := by
  rw [bind_apply, h]

/-- An action leads from every machine to one that is related to it. -/
def Leads (related : Machine β → Machine β → Prop) (x : MachineM β α) : Prop :=
  ∀ m, related m (x m).2

theorem Leads.bind {related : Machine β → Machine β → Prop}
    (trans : ∀ {m m' m''}, related m m' → related m' m'' → related m m'') {x : MachineM β α}
    {f : α → MachineM β γ} (first : Leads related x) (rest : ∀ a, Leads related (f a)) :
    Leads related (x >>= f) := by
  intro m
  rw [bind_apply]
  have led := first m
  generalize x m = outcome at led
  obtain ⟨fault | a, m'⟩ := outcome
  · exact led
  · exact trans led (rest a m')

@[simp] theorem cpu_apply : cpu m = (.ok m.cpu, m) := rfl

@[simp] theorem modifyCpu_apply (change : Cpu → Cpu) :
    modifyCpu change m = (.ok (), { m with cpu := change m.cpu }) := rfl

@[simp] theorem registers_apply : registers m = (.ok m.cpu.registers, m) := rfl

@[simp] theorem modifyRegisters_apply (change : Registers → Registers) :
    modifyRegisters change m = (.ok (), m.withRegisters (change m.cpu.registers)) := rfl

@[simp] theorem capabilities_apply : capabilities m = (.ok m.cpu.capabilities, m) := rfl

@[simp] theorem status_apply : status m = (.ok m.cpu.registers.sr, m) := rfl

@[simp] theorem sp_apply : sp m = (.ok m.cpu.registers.sp, m) := rfl

@[simp] theorem setSp_apply (value : BitVec 32) :
    setSp value m = (.ok (), m.withRegisters (m.cpu.registers.setSp value)) := rfl

@[simp] theorem address_apply (r : RegisterNumber) :
    address r m = (.ok (m.cpu.registers.address r), m) := rfl

@[simp] theorem setAddress_apply (r : RegisterNumber) (value : BitVec 32) :
    setAddress r value m = (.ok (), m.withRegisters (m.cpu.registers.setAddress r value)) := rfl

@[simp] theorem setStatus_apply (value : StatusRegister) :
    setStatus value m =
      (.ok (), m.withRegisters (m.cpu.registers.setStatus value m.cpu.model.statusMask)) := by
  rw [← m.cpu.registers_setStatus]
  rfl

@[simp] theorem spend_apply (cycles : Nat) :
    spend cycles m = (.ok (), { m with cpu := { m.cpu with cycles := m.cpu.cycles + cycles } }) :=
  rfl

@[simp] theorem onBus_apply (exchange : β → α × β) :
    onBus exchange m = (.ok (exchange m.bus).1, { m with bus := (exchange m.bus).2 }) := rfl

theorem requireSupervisor_apply :
    requireSupervisor m =
      (if m.cpu.registers.isSupervisor then .ok () else .error (.exception .privilegeViolation),
        m) := by
  unfold requireSupervisor
  rw [bind_ok (registers_apply m)]
  cases m.cpu.registers.isSupervisor <;> rfl

theorem requireSupervisor_stays : (requireSupervisor m).2 = m := by
  rw [requireSupervisor_apply]

variable [Bus β]

/-- Reading an operand: a misaligned access does not reach the bus, and one that fails has still
taken its time. -/
theorem readIn_apply (space : FunctionCode) (size : Size) (address : BitVec 32) :
    readIn space size address m =
      let place := address &&& m.cpu.model.addressMask
      let access : AccessFault := ⟨place, space, true, size, 0⟩
      let answer := Bus.read size place space m.bus
      if misaligned m.cpu.model.capabilities size place then (.error (.address access), m)
      else if answer.1.error then (.error (.bus access), m.after answer.1 answer.2)
      else (.ok (size.truncate answer.1.data), m.after answer.1 answer.2) := by
  unfold readIn
  rw [bind_ok (cpu_apply m), m.cpu.addressMask_eq, m.cpu.capabilities_eq]
  dsimp only
  split
  · exact bind_error (throw_apply m _) _
  · rw [bind_ok (onBus_apply m _), bind_ok (spend_apply _ _)]
    split
    · exact bind_error (throw_apply _ _) _
    · rfl

/-- What a read that succeeds has found. -/
theorem readIn_ok {m m' : Machine β} {space : FunctionCode} {size : Size}
    {address value : BitVec 32} (reads : readIn space size address m = (.ok value, m')) :
    value = size.truncate (Bus.read size (m.cpu.model.place address) space m.bus).1.data ∧
      m' = m.after (Bus.read size (m.cpu.model.place address) space m.bus).1
        (Bus.read size (m.cpu.model.place address) space m.bus).2 := by
  rw [readIn_apply] at reads
  dsimp only at reads
  split at reads
  · exact nomatch congrArg Prod.fst reads
  · split at reads
    · exact nomatch congrArg Prod.fst reads
    · exact ⟨(Except.ok.inj (congrArg Prod.fst reads)).symm, (congrArg Prod.snd reads).symm⟩

/-- Writing an operand, likewise. -/
theorem writeIn_apply (space : FunctionCode) (size : Size) (address value : BitVec 32) :
    writeIn space size address value m =
      let place := address &&& m.cpu.model.addressMask
      let access : AccessFault := ⟨place, space, false, size, size.truncate value⟩
      let answer := Bus.write size place (size.truncate value) space m.bus
      if misaligned m.cpu.model.capabilities size place then (.error (.address access), m)
      else if answer.1.error then (.error (.bus access), m.after answer.1 answer.2)
      else (.ok (), m.after answer.1 answer.2) := by
  unfold writeIn
  rw [bind_ok (cpu_apply m), m.cpu.addressMask_eq, m.cpu.capabilities_eq]
  dsimp only
  split
  · exact bind_error (throw_apply m _) _
  · rw [bind_ok (onBus_apply m _), bind_ok (spend_apply _ _)]
    split
    · rfl
    · rfl

theorem read_apply (size : Size) (address : BitVec 32) :
    read size address m = readIn m.cpu.dataCode size address m := rfl

theorem write_apply (size : Size) (address value : BitVec 32) :
    write size address value m = writeIn m.cpu.dataCode size address value m := rfl

/-- Continuing elsewhere: an odd address is a fault, and the machine stays as it was. -/
theorem jump_apply (target : BitVec 32) :
    jump target m =
      if target.getLsbD 0 then
        (.error (.address ⟨target, m.cpu.programCode, true, .word, 0⟩), m)
      else
        (.ok (),
          ⟨{ m.cpu.setPc target with flowChanged := true }, Bus.pcChanged target m.bus⟩) := by
  unfold jump
  split
  · rfl
  · rfl

/-- Where a jump that succeeds has led. -/
theorem jump_ok {m m' : Machine β} {target : BitVec 32} (jumps : jump target m = (.ok (), m')) :
    m' = ⟨{ m.cpu.setPc target with flowChanged := true }, Bus.pcChanged target m.bus⟩ := by
  rw [jump_apply] at jumps
  split at jumps
  · exact nomatch congrArg Prod.fst jumps
  · exact (congrArg Prod.snd jumps).symm

theorem fetchFromBus_apply (access : AccessFault) :
    fetchFromBus access m =
      let answer := Bus.fetch access.address access.functionCode m.bus
      if answer.1.error then (.error (.bus access), m.after answer.1 answer.2)
      else (.ok (answer.1.data.setWidth 16), m.after answer.1 answer.2) := by
  unfold fetchFromBus
  rw [bind_ok (onBus_apply m _), bind_ok (spend_apply _ _)]
  dsimp only
  split
  · rfl
  · rfl

/-- Reading ahead never faults. -/
theorem readAhead_apply (address : BitVec 32) (space : FunctionCode) :
    readAhead address space m =
      let answer := Bus.fetch address space m.bus
      (.ok (),
        ⟨if answer.1.error then m.cpu
          else { m.cpu with prefetched := some ⟨address, answer.1.data.setWidth 16⟩ },
          answer.2⟩) := by
  unfold readAhead
  rw [bind_ok (onBus_apply m _)]
  dsimp only
  split
  · rfl
  · rfl

/-- How a fetch ends: when the word was found, the next one is read ahead. -/
def afterFetch (next : BitVec 32) :
    Except Fault (BitVec 16) × Machine β → Except Fault (BitVec 16) × Machine β
  | (.ok word, found) =>
    (.ok word,
      if m.cpu.prefetch then (readAhead next m.cpu.programCode found).2 else found)
  | (.error fault, found) => (.error fault, found)

/-- Fetching a word: the program counter goes on before the word is looked for. -/
theorem fetch_apply :
    fetch m =
      let place := m.cpu.registers.pc &&& m.cpu.model.addressMask
      let access : AccessFault := ⟨place, m.cpu.programCode, true, .word, 0⟩
      let moved : Machine β := { m with cpu := m.cpu.setPc (m.cpu.registers.pc + 2) }
      let outcome : Except Fault (BitVec 16) × Machine β :=
        match prefetchedAt? m.cpu place with
        | some word => (.ok word, moved)
        | none => fetchFromBus access moved
      if place.getLsbD 0 then (.error (.address access), m)
      else afterFetch m ((place + 2) &&& m.cpu.model.addressMask) outcome := by
  unfold fetch
  rw [bind_ok (cpu_apply m), m.cpu.addressMask_eq]
  dsimp only
  split
  · rfl
  · rw [bind_ok (modifyCpu_apply m _)]
    cases prefetchedAt? m.cpu _ with
    | some word =>
      dsimp only
      rw [bind_ok (pure_apply _ word), afterFetch]
      split
      · rw [bind_ok (readAhead_apply _ _ _), readAhead_apply]
        rfl
      · rfl
    | none =>
      dsimp only
      rw [bind_apply]
      obtain ⟨fault | word, found⟩ := fetchFromBus (β := β) _ _
      · rfl
      · dsimp only [afterFetch]
        split
        · rw [bind_ok (readAhead_apply _ _ _), readAhead_apply]
          rfl
        · rfl

/-- What a fetch does is made of moving the program counter, a fetch from the bus and reading ahead,
both in the program space of the machine. -/
theorem leads_fetch {related : Machine β → Machine β → Prop} (refl : ∀ m, related m m)
    (trans : ∀ {m m' m''}, related m m' → related m' m'' → related m m'')
    (moves : ∀ m : Machine β, related m ⟨m.cpu.setPc (m.cpu.registers.pc + 2), m.bus⟩)
    (looks : ∀ (m : Machine β) access, access.functionCode = m.cpu.programCode →
      related m (fetchFromBus access m).2)
    (ahead : ∀ (m : Machine β) address, related m (readAhead address m.cpu.programCode m).2) :
    Leads related fetch := by
  intro m
  have found (outcome : Except Fault (BitVec 16) × Machine β) (led : related m outcome.2)
      (space : outcome.2.cpu.programCode = m.cpu.programCode) (next : BitVec 32) :
      related m (afterFetch m next outcome).2 := by
    obtain ⟨fault | word, m'⟩ := outcome
    · exact led
    · dsimp only [afterFetch]
      split
      · exact trans led (space ▸ ahead m' next)
      · exact led
  rw [fetch_apply]
  dsimp only
  split
  · exact refl m
  · cases prefetchedAt? m.cpu (m.cpu.registers.pc &&& m.cpu.model.addressMask) with
    | some word => exact found (.ok word, _) (moves m) rfl _
    | none =>
      refine found (fetchFromBus _ _) (trans (moves m) (looks _ _ rfl)) ?_ _
      rw [fetchFromBus_apply]
      dsimp only
      split <;> rfl

end MachineM

/-! ## Failures -/

/-- A fault by a failed access. -/
inductive Fault.IsAccess : Fault → Prop where
  | bus (access : AccessFault) : IsAccess (.bus access)
  | address (access : AccessFault) : IsAccess (.address access)

/-- An action that can only fail by an access. -/
def FailsByAccess {β α : Type} (x : MachineM β α) : Prop :=
  ∀ ⦃m fault m'⦄, x m = (.error fault, m') → fault.IsAccess

namespace FailsByAccess

open MachineM

variable {β α γ : Type}

/-- In particular it ends. -/
theorem ne_unfinished {x : MachineM β α} (h : FailsByAccess x) (m : Machine β) :
    (x m).1 ≠ .error .unfinished := by
  rcases done : x m with ⟨fault | a, m'⟩
  · intro same
    obtain rfl : fault = .unfinished := Except.error.inj same
    cases h done
  · simp

theorem of_ok {x : MachineM β α} (ok : ∀ m, ∃ a m', x m = (.ok a, m')) : FailsByAccess x := by
  intro m fault m' fails
  obtain ⟨a, m₁, done⟩ := ok m
  cases done.symm.trans fails

theorem bind {x : MachineM β α} {f : α → MachineM β γ} (first : FailsByAccess x)
    (rest : ∀ a, FailsByAccess (f a)) : FailsByAccess (x >>= f) := by
  intro m fault m' fails
  rw [bind_apply] at fails
  rcases done : x m with ⟨fault' | a, m₁⟩
  · rw [done] at fails
    obtain ⟨same, rfl⟩ := Prod.mk.inj fails
    exact Except.error.inj same ▸ first done
  · rw [done] at fails
    exact rest a fails

/-- What comes before an end that is no failed access has succeeded, if it can only fail by an
access. -/
theorem ok_of_bind {x : MachineM β α} (h : FailsByAccess x)
    {f : α → MachineM β γ} {m m' : Machine β} {outcome : Except Fault γ}
    (done : (x >>= f) m = (outcome, m'))
    (other : ∀ fault : Fault, fault.IsAccess → outcome ≠ .error fault) :
    ∃ a m₁, x m = (.ok a, m₁) ∧ f a m₁ = (outcome, m') := by
  rw [bind_apply] at done
  rcases first : x m with ⟨fault | a, m₁⟩
  · rw [first] at done
    exact absurd (congrArg Prod.fst done).symm (other fault (h first))
  · rw [first] at done
    exact ⟨a, m₁, rfl, done⟩

variable [Bus β]

theorem readIn (space : FunctionCode) (size : Size) (address : BitVec 32) :
    FailsByAccess (β := β) (MachineM.readIn space size address) := by
  intro m fault m' fails
  rw [readIn_apply] at fails
  dsimp only at fails
  split at fails
  · exact Except.error.inj (congrArg Prod.fst fails) ▸ .address _
  · split at fails
    · exact Except.error.inj (congrArg Prod.fst fails) ▸ .bus _
    · cases fails

theorem read (size : Size) (address : BitVec 32) :
    FailsByAccess (β := β) (MachineM.read size address) :=
  fun m => readIn m.cpu.dataCode size address (m := m)

theorem writeIn (space : FunctionCode) (size : Size) (address value : BitVec 32) :
    FailsByAccess (β := β) (MachineM.writeIn space size address value) := by
  intro m fault m' fails
  rw [writeIn_apply] at fails
  dsimp only at fails
  split at fails
  · exact Except.error.inj (congrArg Prod.fst fails) ▸ .address _
  · split at fails
    · exact Except.error.inj (congrArg Prod.fst fails) ▸ .bus _
    · cases fails

theorem jump (target : BitVec 32) : FailsByAccess (β := β) (MachineM.jump target) := by
  intro m fault m' fails
  rw [jump_apply] at fails
  split at fails
  · exact Except.error.inj (congrArg Prod.fst fails) ▸ .address _
  · cases fails

theorem fetchFromBus (access : AccessFault) :
    FailsByAccess (β := β) (MachineM.fetchFromBus access) := by
  intro m fault m' fails
  rw [fetchFromBus_apply] at fails
  dsimp only at fails
  split at fails
  · exact Except.error.inj (congrArg Prod.fst fails) ▸ .bus _
  · cases fails

theorem fetch : FailsByAccess (β := β) MachineM.fetch := by
  intro m fault m' fails
  rw [fetch_apply] at fails
  dsimp only at fails
  split at fails
  · exact Except.error.inj (congrArg Prod.fst fails) ▸ .address _
  · cases found : prefetchedAt? m.cpu (m.cpu.registers.pc &&& m.cpu.model.addressMask) with
    | some word =>
      rw [found] at fails
      cases fails
    | none =>
      rw [found] at fails
      dsimp only at fails
      rcases looked : MachineM.fetchFromBus (β := β) _ _ with ⟨fault' | word, m₁⟩
      · rw [looked] at fails
        obtain ⟨same, -⟩ := Prod.mk.inj fails
        exact Except.error.inj same ▸ fetchFromBus _ looked
      · rw [looked] at fails
        cases fails

end FailsByAccess

end M68k
