import M68k.Proofs.Cpu.OperandRole

/-!
# What writes memory does not know where it is

What writes memory does the same at every place of the program.  This is seen on a bus that answers
everything alike, so that the words of the program tell nothing: two machines that differ in their
program counters alone come to the same result, and differ in their program counters alone again.
So what writes memory cannot find an operand relative to the program counter.

* `Anywhere` — two actions come to related results at different places of the program;
* `Conforms.anywhere` — what writes memory comes to the same result at every place;
* `Conforms.not_isPcRelative` — so it finds nothing relative to its place.
-/

namespace M68k

/-- A bus that answers everything alike. -/
structure Mute where

instance : Bus Mute where
  read _ _ _ bus := (⟨0, 0, false⟩, bus)
  write _ _ _ _ bus := (⟨0, 0, false⟩, bus)
  interruptLevel bus := (0, bus)
  acknowledge _ bus := (.spurious, bus)
  reset bus := bus
  illegal _ bus := (false, bus)
  pcChanged _ bus := bus

/-- The processor accepts data at every address, and reads nothing ahead. -/
structure Cpu.IsPlain (c : Cpu) : Prop where
  lenient : c.capabilities.misalignedData = true
  still : c.prefetch = false

/-- The machine with this processor at a place of the program. -/
def Cpu.at (c : Cpu) (pc : BitVec 32) : Machine Mute := ⟨c.elsewhere pc none, ⟨⟩⟩

/-- Outcomes that are related: both are faults, or the results are related and the machines differ
in their program counters alone, which are even. -/
inductive Outcomes {α : Type} (related : α → α → Prop) :
    Except Fault α × Machine Mute → Except Fault α × Machine Mute → Prop where
  | ok {a a' : α} (results : related a a') {c : Cpu} (plain : c.IsPlain) {pc pc' : BitVec 32}
      (even : pc.getLsbD 0 = false) (even' : pc'.getLsbD 0 = false) :
      Outcomes related (.ok a, c.at pc) (.ok a', c.at pc')
  | error (fault fault' : Fault) (m m' : Machine Mute) :
      Outcomes related (.error fault, m) (.error fault', m')

/-- The actions come to related results on machines that differ in their program counters alone. -/
def Anywhere {α : Type} (related : α → α → Prop) (x x' : MachineM Mute α) : Prop :=
  ∀ ⦃c : Cpu⦄ ⦃pc pc'⦄, c.IsPlain → pc.getLsbD 0 = false → pc'.getLsbD 0 = false →
    Outcomes related (x (c.at pc)) (x' (c.at pc'))

theorem Outcomes.results {α : Type} {related : α → α → Prop}
    {outcome outcome' : Except Fault α × Machine Mute}
    (outcomes : Outcomes related outcome outcome') {a a' : α} (ok : outcome.1 = .ok a)
    (ok' : outcome'.1 = .ok a') : related a a' := by
  cases outcomes with
  | ok results => exact Except.ok.inj ok ▸ Except.ok.inj ok' ▸ results
  | error => cases ok

namespace Anywhere

open MachineM

variable {α γ : Type} {related : α → α → Prop}

/-- What follows needs to be related for the results that there can be. -/
theorem sequence {after : γ → γ → Prop} {x x' : MachineM Mute α} {f f' : α → MachineM Mute γ}
    (first : Anywhere related x x')
    (rest : ∀ a a', related a a' → (∃ m m', x m = (.ok a, m')) → Anywhere after (f a) (f' a')) :
    Anywhere after (x >>= f) (x' >>= f') := by
  intro c pc pc' plain even even'
  have outcomes := first plain even even'
  rw [bind_apply, bind_apply]
  generalize done : x (c.at pc) = outcome at outcomes
  generalize x' (c.at pc') = outcome' at outcomes
  cases outcomes with
  | ok results plain even even' => exact rest _ _ results ⟨_, _, done⟩ plain even even'
  | error fault fault' m m' => exact .error fault fault' m m'

theorem bind {after : γ → γ → Prop} {x x' : MachineM Mute α} {f f' : α → MachineM Mute γ}
    (first : Anywhere related x x') (rest : ∀ a a', related a a' → Anywhere after (f a) (f' a')) :
    Anywhere after (x >>= f) (x' >>= f') :=
  sequence first fun a a' results _ => rest a a' results

/-- What follows the same result. -/
theorem andThen {after : γ → γ → Prop} {x x' : MachineM Mute α} {f f' : α → MachineM Mute γ}
    (first : Anywhere Eq x x') (rest : ∀ a, Anywhere after (f a) (f' a)) :
    Anywhere after (x >>= f) (x' >>= f') :=
  bind first fun a _ same => same ▸ rest a

theorem pure {a a' : α} (results : related a a') :
    Anywhere related (Pure.pure a) (Pure.pure a') :=
  fun _ _ _ plain even even' => .ok results plain even even'

theorem throw (fault fault' : Fault) :
    Anywhere related (throw fault : MachineM Mute α) (throw fault') :=
  fun _ _ _ _ _ _ => .error ..

/-- A look at the processor that does not see the program counter. -/
theorem cpu {f g : Cpu → MachineM Mute α} (blind : ∀ c pc, f (c.elsewhere pc none) = f c)
    (blind' : ∀ c pc, g (c.elsewhere pc none) = g c)
    (rest : ∀ c, c.IsPlain → Anywhere related (f c) (g c)) :
    Anywhere related (MachineM.cpu >>= f) (MachineM.cpu >>= g) := by
  intro c pc pc' plain even even'
  show Outcomes related (f (c.elsewhere pc none) (c.at pc)) (g (c.elsewhere pc' none) (c.at pc'))
  rw [blind, blind']
  exact rest c plain plain even even'

/-- The program counters differ. -/
theorem pc : Anywhere (fun _ _ => True) MachineM.pc MachineM.pc :=
  fun _ _ _ plain even even' => .ok trivial plain even even'

theorem change {change : Cpu → Cpu} (steady : Cpu.Steady change) :
    Anywhere Eq (modifyCpu change) (modifyCpu change) := by
  intro c pc pc' plain even even'
  have moves (pc : BitVec 32) : modifyCpu change (c.at pc) = (.ok (), (change c).at pc) := by
    show (Except.ok (), Machine.mk (change (c.elsewhere pc none)) (Mute.mk)) = _
    rw [steady.blind]
    rfl
  have plain' : (change c).IsPlain :=
    ⟨(congrArg (·.misalignedData) (Cpu.capabilities_congr (steady.model c))).trans plain.lenient,
      (steady.prefetch c).trans plain.still⟩
  rw [moves, moves]
  exact .ok rfl plain' even even'

/-- Every word of the program is the same. -/
theorem fetch : Anywhere (fun a a' => a = 0 ∧ a' = 0) MachineM.fetch MachineM.fetch := by
  intro c pc pc' plain even even'
  have found {pc : BitVec 32} (even : pc.getLsbD 0 = false) :
      MachineM.fetch (c.at pc) = (.ok 0, c.at (pc + 2)) := by
    have aligned : (pc &&& c.model.addressMask).getLsbD 0 = false := by
      rw [BitVec.getLsbD_and, even, Bool.false_and]
    rw [fetch_apply]
    dsimp only [Cpu.at, Cpu.elsewhere, Registers.withPc]
    rw [if_neg (Bool.eq_false_iff.mp aligned)]
    dsimp only [prefetchedAt?, Option.bind]
    rw [fetchFromBus_apply]
    show (Except.ok _, if c.prefetch then _ else _) = _
    rw [if_neg (Bool.eq_false_iff.mp plain.still)]
    rfl
  have next {pc : BitVec 32} (even : pc.getLsbD 0 = false) : (pc + 2).getLsbD 0 = false := by
    rw [BitVec.getLsbD_add (by decide), even, BitVec.carry_zero]
    rfl
  rw [found even, found even']
  exact .ok ⟨rfl, rfl⟩ plain (next even) (next even')

/-- No address is refused for data. -/
theorem aligned {c : Cpu} (plain : c.IsPlain) (pc : BitVec 32) (size : Size)
    (address : BitVec 32) : ¬misaligned (c.at pc).cpu.model.capabilities size address := by
  have lenient : (c.at pc).cpu.model.capabilities.misalignedData = true :=
    c.capabilities_eq ▸ plain.lenient
  rw [misaligned, lenient, Bool.not_true, Bool.and_false]
  exact Bool.false_ne_true

/-- What is read is the same at every address. -/
theorem readIn (space space' : FunctionCode) (size : Size) (address address' : BitVec 32) :
    Anywhere Eq (MachineM.readIn space size address) (MachineM.readIn space' size address') := by
  intro c pc pc' plain even even'
  have found (pc space address) :
      MachineM.readIn space size address (c.at pc) = (.ok (size.truncate 0), c.at pc) := by
    rw [readIn_apply]
    dsimp only
    rw [if_neg (aligned plain pc size _)]
    rfl
  rw [found, found]
  exact .ok rfl plain even even'

theorem writeIn (space : FunctionCode) (size : Size) (address value : BitVec 32) :
    Anywhere Eq (MachineM.writeIn space size address value)
      (MachineM.writeIn space size address value) := by
  intro c pc pc' plain even even'
  have done (pc : BitVec 32) :
      MachineM.writeIn space size address value (c.at pc) = (.ok (), c.at pc) := by
    rw [writeIn_apply]
    dsimp only
    rw [if_neg (aligned plain pc size _)]
    rfl
  rw [done, done]
  exact .ok rfl plain even even'

/-- A jump leads to the same place from everywhere. -/
theorem jump (target : BitVec 32) : Anywhere Eq (MachineM.jump target) (MachineM.jump target) := by
  intro c pc pc' plain even even'
  rw [jump_apply, jump_apply]
  cases odd : target.getLsbD 0 with
  | true => exact .error ..
  | false =>
    let arrived : Cpu := { c with flowChanged := true }
    have plain' : arrived.IsPlain := ⟨plain.lenient, plain.still⟩
    have arrives : Outcomes Eq (.ok (), arrived.at target) (.ok (), arrived.at target) :=
      .ok rfl plain' odd odd
    exact arrives

/-- Nothing tells the bus where a reset comes from. -/
theorem resetLine :
    Anywhere Eq (onBus fun bus : Mute => ((), Bus.reset bus))
      (onBus fun bus => ((), Bus.reset bus)) :=
  fun _ _ _ plain even even' => .ok rfl plain even even'

/-- An illegal instruction is known nowhere. -/
theorem illegal : Anywhere Eq (Execution.illegal (β := Mute)) Execution.illegal :=
  fun _ _ _ _ _ _ => .error ..

/-! ## Operands -/

theorem mono {related' : α → α → Prop} {x x' : MachineM Mute α} (h : Anywhere related x x')
    (weaker : ∀ a a', related a a' → related' a a') : Anywhere related' x x' := by
  intro c pc pc' plain even even'
  have outcomes := h plain even even'
  generalize x (c.at pc) = outcome at outcomes
  generalize x' (c.at pc') = outcome' at outcomes
  cases outcomes with
  | ok results plain even even' => exact .ok (weaker _ _ results) plain even even'
  | error fault fault' m m' => exact .error fault fault' m m'

/-- A look at the registers that does not see the program counter. -/
theorem registers {f g : Registers → MachineM Mute α} (blind : ∀ rs pc, f (rs.withPc pc) = f rs)
    (blind' : ∀ rs pc, g (rs.withPc pc) = g rs) (rest : ∀ rs, Anywhere related (f rs) (g rs)) :
    Anywhere related (MachineM.registers >>= f) (MachineM.registers >>= g) :=
  cpu (f := fun c => f c.registers) (g := fun c => g c.registers)
    (fun c pc => blind c.registers pc) (fun c pc => blind' c.registers pc)
    fun c _ => rest c.registers

theorem address (r : RegisterNumber) : Anywhere Eq (MachineM.address r) (MachineM.address r) :=
  registers (fun _ _ => rfl) (fun _ _ => rfl) fun _ => pure rfl

theorem data (r : RegisterNumber) : Anywhere Eq (MachineM.data r) (MachineM.data r) :=
  registers (fun _ _ => rfl) (fun _ _ => rfl) fun _ => pure rfl

theorem setAddress (r : RegisterNumber) (value : BitVec 32) :
    Anywhere Eq (MachineM.setAddress r value) (MachineM.setAddress r value) :=
  change (.registers (.setAddress r value))

theorem spend (cycles : Nat) : Anywhere Eq (MachineM.spend cycles) (MachineM.spend cycles) :=
  change (.spend cycles)

theorem capabilities : Anywhere Eq MachineM.capabilities MachineM.capabilities :=
  cpu (fun _ _ => rfl) (fun _ _ => rfl) fun _ _ => pure rfl

theorem fetchWord : Anywhere Eq MachineM.fetch MachineM.fetch :=
  fetch.mono fun _ _ zeros => zeros.1.trans zeros.2.symm

theorem fetchSigned : Anywhere Eq MachineM.fetchSigned MachineM.fetchSigned :=
  fetchWord.andThen fun _ => pure rfl

theorem fetchLong : Anywhere Eq MachineM.fetchLong MachineM.fetchLong :=
  fetchWord.andThen fun _ => fetchWord.andThen fun _ => pure rfl

theorem fetchConstant (size : Size) :
    Anywhere Eq (MachineM.fetchConstant size) (MachineM.fetchConstant size) := by
  cases size with
  | byte => exact fetchWord.andThen fun _ => pure rfl
  | word => exact fetchWord.andThen fun _ => pure rfl
  | long => exact fetchLong

/-- An index is the same from everywhere, as the extension word has the short format. -/
theorem indexed (base base' : BitVec 32) :
    Anywhere (fun a a' => base = base' → a = a') (MachineM.indexed base)
      (MachineM.indexed base') := by
  refine fetch.bind fun _ _ zeros => ?_
  rw [zeros.1, zeros.2]
  refine capabilities.andThen fun caps => ?_
  have blind (rs : Registers) (pc : BitVec 32) :
      indexValue caps (rs.withPc pc) 0 = indexValue caps rs 0 := by
    unfold indexValue
    rw [Registers.Steady.general_withPc]
  refine registers (fun rs pc => ?_) (fun rs pc => ?_) fun rs => pure fun same => by rw [same]
  · rw [blind]
  · rw [blind]

/-- A place that is not relative to the program counter is the same from everywhere. -/
theorem memoryAddress (mode : AddressMode) (bytes : Nat) :
    Anywhere (fun a a' => mode.isPcRelative = false → a = a') (MachineM.memoryAddress mode bytes)
      (MachineM.memoryAddress mode bytes) := by
  have same {x : MachineM Mute (BitVec 32)} (h : Anywhere Eq x x) :
      Anywhere (fun a a' => mode.isPcRelative = false → a = a') x x :=
    h.mono fun _ _ same _ => same
  cases mode with
  | indirect r => exact same (address r)
  | postIncrement r =>
    exact same ((address r).andThen fun _ => (setAddress r _).andThen fun _ => pure rfl)
  | preDecrement r =>
    exact same ((address r).andThen fun _ => (setAddress r _).andThen fun _ => pure rfl)
  | displacement r =>
    exact same (fetchSigned.andThen fun _ => (address r).andThen fun _ => pure rfl)
  | index r =>
    exact same ((address r).andThen fun base => (indexed base base).mono fun _ _ same => same rfl)
  | absShort => exact same fetchSigned
  | absLong => exact same fetchLong
  | pcDisplacement => exact pc.bind fun _ _ _ => fetchSigned.andThen fun _ => pure nofun
  | pcIndex => exact pc.bind fun _ _ _ => (indexed _ _).mono fun _ _ _ => nofun
  | dataReg r => exact throw ..
  | addrReg r => exact throw ..
  | immediate => exact throw ..

end Anywhere

/-- Locations that are the same up to the address in memory. -/
inductive Location.Corresponds : Location → Location → Prop where
  | same (location : Location) : Corresponds location location
  | memory (place place' : BitVec 32) (program : Bool) :
      Corresponds (.memory place program) (.memory place' program)

namespace Anywhere

open MachineM

theorem locate (mode : AddressMode) (size : Size) :
    Anywhere Location.Corresponds (MachineM.locate mode size) (MachineM.locate mode size) := by
  refine cpu (fun _ _ => rfl) (fun _ _ => rfl) fun c _ => (spend _).andThen fun _ => ?_
  cases mode with
  | dataReg r => exact pure (.same _)
  | addrReg r => exact pure (.same _)
  | immediate => exact (fetchConstant size).andThen fun _ => pure (.same _)
  | _ => exact (memoryAddress _ _).bind fun _ _ _ => pure (.memory ..)

/-- All of memory holds the same. -/
theorem load (size : Size) {location location' : Location}
    (corresponds : location.Corresponds location') :
    Anywhere Eq (MachineM.load size location) (MachineM.load size location') := by
  have memory (place place' : BitVec 32) (program : Bool) :
      Anywhere Eq (MachineM.load size (.memory place program))
        (MachineM.load size (.memory place' program)) := by
    cases program with
    | false => exact cpu (fun _ _ => rfl) (fun _ _ => rfl) fun _ _ => readIn ..
    | true => exact cpu (fun _ _ => rfl) (fun _ _ => rfl) fun _ _ => readIn ..
  cases corresponds with
  | memory place place' program => exact memory place place' program
  | same location =>
    cases location with
    | dataReg r => exact (data r).andThen fun _ => pure rfl
    | addrReg r => exact (address r).andThen fun _ => pure rfl
    | constant value => exact pure rfl
    | memory place program => exact memory place place program

theorem operand (mode : AddressMode) (size : Size) :
    Anywhere Eq (MachineM.operand mode size) (MachineM.operand mode size) :=
  (locate mode size).bind fun _ _ corresponds => load size corresponds

end Anywhere

namespace Conforms

/-- **What writes memory does the same at every place of the program.** -/
theorem anywhere {α : Type} {instruction : Instruction} {x : Action α}
    (h : Conforms instruction (.working true) x)
    (other : ∀ toControl, instruction ≠ .movec toControl) : Anywhere Eq (x Mute) (x Mute) := by
  generalize is : Role.working true = role at h
  induction h with
  | pure a => exact .pure rfl
  | sequence _ _ ihx ihf =>
    -- what follows plays the role only for the results that there can be
    refine (ihx is).sequence fun a a' same found => ?_
    obtain ⟨m, m', done⟩ := found
    exact same ▸ ihf a ⟨Mute, inferInstance, m, m', done⟩ is
  | raise fault _ => exact .throw fault fault
  | cpu blind _ ih =>
    exact .cpu (fun c pc => blind is.symm c pc none Mute) (fun c pc => blind is.symm c pc none Mute)
      fun c _ => ih c is
  | fetch => exact .fetchWord
  | find mode bytes may =>
    subst is
    refine (Anywhere.memoryAddress mode bytes).mono fun _ _ same => same ?_
    cases mode <;> first | rfl | cases may
  | view mode size => exact .operand mode size
  | readIn space size address => exact .readIn space space size address address
  | jump target => exact .jump target
  | resetLine => exact .resetLine
  | change steady => exact .change steady
  | writeIn space size address value => exact .writeIn space size address value
  | push => cases is
  | illegal _ => exact .illegal
  | movec toControl moves => exact absurd moves (other toControl)

/-- **What writes memory finds nothing relative to its place in the program.** -/
theorem not_isPcRelative {instruction : Instruction} {mode : AddressMode} {bytes : Nat}
    (h : Conforms instruction (.working true) fun _ _ => MachineM.memoryAddress mode bytes)
    (other : ∀ toControl, instruction ≠ .movec toControl) : mode.isPcRelative = false := by
  have plain : (Cpu.new .m68020).IsPlain := ⟨rfl, rfl⟩
  -- relative to the program counter, two places of the program see two addresses
  have outcomes := @anywhere _ _ _ h other _ 0 2 plain rfl rfl
  cases mode with
  | pcDisplacement =>
    have same : (0 : BitVec 32) = 2 := outcomes.results rfl rfl
    cases same
  | pcIndex =>
    have same : (0 : BitVec 32) = 2 := outcomes.results rfl rfl
    cases same
  | _ => rfl

end Conforms

end M68k
