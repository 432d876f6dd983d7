import M68k.Proofs.Cpu.Inquiry

/-!
# Where instructions are refused

An instruction is refused by the exception for illegal instructions or by the one for privileged
ones.  A refusal is precise if the machine is then as it was before.  Actions are precise if they
find out quietly that they are to be refused, before they do what cannot be refused.

* `Refuses` — what is known of the machine where an action is refused;
* `Refuses.bind`, `Precise.after` — first what may be refused, then the rest;
* `Precise.locate` — a refusal by the search for an operand is precise.
-/

namespace M68k

/-- The exceptions by which an instruction is refused. -/
def VectorNumber.IsRefusal (vector : VectorNumber) : Prop :=
  vector = .illegalInstruction ∨ vector = .privilegeViolation

instance (vector : VectorNumber) : Decidable vector.IsRefusal :=
  inferInstanceAs (Decidable (_ ∨ _))

/-- Where an action is refused, the machine is related to the one before. -/
def Refuses {β α : Type} (R : Machine β → Machine β → Prop) (x : MachineM β α) : Prop :=
  ∀ ⦃m vector m'⦄, x m = (.error (.exception vector), m') → vector.IsRefusal → R m m'

/-- An action that is never refused. -/
abbrev NeverRefuses {β α : Type} (x : MachineM β α) : Prop := Refuses (fun _ _ => False) x

/-- Where an action is refused, the machine is as before. -/
abbrev Precise {β α : Type} [Bus β] (x : MachineM β α) : Prop :=
  Refuses (Machine.Stays BusEvent.IsInquiry) x

/-- What an action answers when it succeeds. -/
def Answers {β α : Type} (P : α → Prop) (x : MachineM β α) : Prop :=
  ∀ ⦃m a m'⦄, x m = (.ok a, m') → P a

namespace Answers

open MachineM

variable {β α γ : Type} {P : γ → Prop}

/-- The last of two actions gives the answer. -/
theorem bind {x : MachineM β α} {f : α → MachineM β γ} (rest : ∀ a, Answers P (f a)) :
    Answers P (x >>= f) := by
  intro m a m' answers
  rcases ends : x m with ⟨fault | b, m₁⟩
  · rw [bind_error ends] at answers
    cases answers
  · rw [bind_ok ends] at answers
    exact rest b answers

/-- Of every answer something is known. -/
theorem any {x : MachineM β α} : Answers (fun _ => True) x := fun _ _ _ _ => trivial

theorem pure {a : γ} (h : P a) : Answers P (Pure.pure a : MachineM β γ) := by
  intro m a' m' answers
  cases answers
  exact h

end Answers

namespace Refuses

open MachineM

variable {β α γ : Type} {R : Machine β → Machine β → Prop}

theorem of_never {x : MachineM β α} (h : NeverRefuses x) : Refuses R x := by
  intro m vector m' fails refusal
  exact (h fails refusal).elim

theorem of_failsByAccess {x : MachineM β α} (h : FailsByAccess x) : Refuses R x := by
  intro m vector m' fails refusal
  cases h fails

theorem of_ok {x : MachineM β α} (ok : ∀ m, ∃ a m', x m = (.ok a, m')) : Refuses R x :=
  of_failsByAccess (.of_ok ok)

theorem trap (vector : VectorNumber) : Refuses R (throw (.trap vector) : MachineM β α) := by
  intro m vector' m' fails _
  cases Except.error.inj (congrArg Prod.fst fails)

/-- Another exception. -/
theorem exception {vector : VectorNumber} (other : ¬vector.IsRefusal) :
    Refuses R (throw (.exception vector) : MachineM β α) := by
  intro m vector' m' fails refusal
  cases Except.error.inj (congrArg Prod.fst fails)
  exact (other refusal).elim

/-- If what follows an action is never refused, the action was. -/
theorem refused_first {P : α → Prop} {x : MachineM β α} {f : α → MachineM β γ}
    (answers : Answers P x) (rest : ∀ a, P a → NeverRefuses (f a)) {m m' : Machine β}
    {vector : VectorNumber} (fails : (x >>= f) m = (.error (.exception vector), m'))
    (refusal : vector.IsRefusal) : x m = (.error (.exception vector), m') := by
  rcases ends : x m with ⟨fault | a, m₁⟩
  · rw [bind_error ends] at fails
    obtain ⟨same, rfl⟩ := Prod.mk.inj fails
    obtain rfl := Except.error.inj same
    rfl
  · rw [bind_ok ends] at fails
    exact (rest a (answers ends) fails refusal).elim

/-- If an action is never refused, what follows it was. -/
theorem refused_rest {x : MachineM β α} {f : α → MachineM β γ} (first : NeverRefuses x)
    {m m' : Machine β} {vector : VectorNumber}
    (fails : (x >>= f) m = (.error (.exception vector), m')) (refusal : vector.IsRefusal) :
    ∃ a m₁, x m = (.ok a, m₁) ∧ f a m₁ = (.error (.exception vector), m') := by
  rcases ends : x m with ⟨fault | a, m₁⟩
  · rw [bind_error ends] at fails
    obtain ⟨same, rfl⟩ := Prod.mk.inj fails
    obtain rfl := Except.error.inj same
    exact (first ends refusal).elim
  · rw [bind_ok ends] at fails
    exact ⟨a, m₁, rfl, fails⟩

/-- What is never refused may follow an action.  It may depend on what the action answers. -/
theorem bind_answers {P : α → Prop} {x : MachineM β α} {f : α → MachineM β γ}
    (first : Refuses R x) (answers : Answers P x) (rest : ∀ a, P a → NeverRefuses (f a)) :
    Refuses R (x >>= f) := by
  intro m vector m' fails refusal
  exact first (refused_first answers rest fails refusal) refusal

theorem bind {x : MachineM β α} {f : α → MachineM β γ} (first : Refuses R x)
    (rest : ∀ a, NeverRefuses (f a)) : Refuses R (x >>= f) :=
  first.bind_answers .any fun a _ => rest a

theorem ite {c : Prop} [Decidable c] {x y : MachineM β α} (yes : Refuses R x)
    (no : Refuses R y) : Refuses R (if c then x else y) := by
  split
  · exact yes
  · exact no

theorem pure (a : α) : Refuses R (Pure.pure a : MachineM β α) := of_ok fun m => ⟨a, m, rfl⟩

theorem map {x : MachineM β α} (f : α → γ) (h : Refuses R x) : Refuses R (f <$> x) := by
  rw [map_eq_pure_bind]
  exact h.bind fun a => .pure (f a)

theorem foldlM {f : γ → α → MachineM β γ} (step : ∀ c a, NeverRefuses (f c a)) (list : List α)
    (start : γ) : Refuses R (list.foldlM f start) := by
  suffices never : NeverRefuses (list.foldlM f start) from of_never never
  induction list generalizing start with
  | nil => exact .pure start
  | cons a rest ih => exact (step start a).bind ih

theorem forM {f : α → MachineM β Unit} (step : ∀ a, NeverRefuses (f a)) (list : List α) :
    Refuses R (list.forM f) := by
  suffices never : NeverRefuses (list.forM f) from of_never never
  induction list with
  | nil => exact .pure ()
  | cons a rest ih => exact (step a).bind fun _ => ih

/-! ## Registers -/

theorem cpu : Refuses R MachineM.cpu := of_ok fun _ => ⟨_, _, rfl⟩

theorem modifyCpu (change : Cpu → Cpu) : Refuses R (MachineM.modifyCpu change) :=
  of_ok fun _ => ⟨_, _, rfl⟩

theorem registers : Refuses R MachineM.registers := of_ok fun _ => ⟨_, _, rfl⟩

theorem modifyRegisters (change : Registers → Registers) :
    Refuses R (MachineM.modifyRegisters change) :=
  of_ok fun _ => ⟨_, _, rfl⟩

theorem capabilities : Refuses R MachineM.capabilities := of_ok fun _ => ⟨_, _, rfl⟩

theorem spend (cycles : Nat) : Refuses R (MachineM.spend cycles) := of_ok fun _ => ⟨_, _, rfl⟩

theorem onBus (exchange : β → α × β) : Refuses R (MachineM.onBus exchange) :=
  of_ok fun _ => ⟨_, _, rfl⟩

theorem status : Refuses R MachineM.status := of_ok fun _ => ⟨_, _, rfl⟩

theorem setStatus (value : StatusRegister) : Refuses R (MachineM.setStatus value) :=
  modifyCpu _

theorem setCodes (codes : StatusRegister) : Refuses R (MachineM.setCodes codes) :=
  modifyRegisters _

theorem data (r : RegisterNumber) : Refuses R (MachineM.data r) := of_ok fun _ => ⟨_, _, rfl⟩

theorem setData (r : RegisterNumber) (value : BitVec 32) : Refuses R (MachineM.setData r value) :=
  modifyRegisters _

theorem address (r : RegisterNumber) : Refuses R (MachineM.address r) := of_ok fun _ => ⟨_, _, rfl⟩

theorem setAddress (r : RegisterNumber) (value : BitVec 32) :
    Refuses R (MachineM.setAddress r value) :=
  modifyRegisters _

theorem sp : Refuses R MachineM.sp := of_ok fun _ => ⟨_, _, rfl⟩

theorem setSp (value : BitVec 32) : Refuses R (MachineM.setSp value) := modifyRegisters _

theorem pc : Refuses R MachineM.pc := of_ok fun _ => ⟨_, _, rfl⟩

theorem preDecrement (r : RegisterNumber) (bytes : Nat) :
    Refuses R (MachineM.preDecrement r bytes) :=
  (address r).bind fun _ => (setAddress r _).bind fun _ => .pure _

theorem postIncrement (r : RegisterNumber) (bytes : Nat) :
    Refuses R (MachineM.postIncrement r bytes) :=
  (address r).bind fun _ => (setAddress r _).bind fun _ => .pure _

/-! ## Memory -/

variable [Bus β]

theorem fetch : Refuses R MachineM.fetch := of_failsByAccess .fetch

theorem fetchSigned : Refuses R MachineM.fetchSigned := fetch.bind fun _ => .pure _

theorem fetchLong : Refuses R MachineM.fetchLong :=
  fetch.bind fun _ => fetch.bind fun _ => .pure _

theorem readIn (space : FunctionCode) (size : Size) (address : BitVec 32) :
    Refuses R (MachineM.readIn space size address) :=
  of_failsByAccess (.readIn space size address)

theorem writeIn (space : FunctionCode) (size : Size) (address value : BitVec 32) :
    Refuses R (MachineM.writeIn space size address value) :=
  of_failsByAccess (.writeIn space size address value)

theorem read (size : Size) (address : BitVec 32) : Refuses R (MachineM.read size address) :=
  cpu.bind fun _ => readIn _ size address

theorem write (size : Size) (address value : BitVec 32) :
    Refuses R (MachineM.write size address value) :=
  cpu.bind fun _ => writeIn _ size address value

theorem jump (target : BitVec 32) : Refuses R (MachineM.jump target) :=
  of_failsByAccess (.jump target)

theorem push (size : Size) (value : BitVec 32) : Refuses R (MachineM.push size value) :=
  sp.bind fun _ => (write size _ value).bind fun _ => setSp _

theorem pop (size : Size) : Refuses R (MachineM.pop size) :=
  sp.bind fun top => (read size top).bind fun _ => (setSp _).bind fun _ => .pure _

/-! ## Operands -/

theorem fetchConstant (size : Size) : Refuses R (MachineM.fetchConstant size) := by
  cases size with
  | byte => exact fetch.bind fun _ => .pure _
  | word => exact fetch.bind fun _ => .pure _
  | long => exact fetchLong

/-- Without an index register an operand is found, unless an access fails. -/
theorem locate {mode : AddressMode} (plain : mode.isIndexed = false) (size : Size) :
    Refuses R (MachineM.locate mode size) := by
  refine cpu.bind fun c => (spend _).bind fun _ => ?_
  cases mode with
  | dataReg r => exact .pure _
  | addrReg r => exact .pure _
  | indirect r => exact (address r).bind fun _ => .pure _
  | postIncrement r => exact (postIncrement r _).bind fun _ => .pure _
  | preDecrement r => exact (preDecrement r _).bind fun _ => .pure _
  | displacement r =>
    exact .bind (fetchSigned.bind fun _ => (address r).bind fun _ => .pure _) fun _ => .pure _
  | absShort => exact fetchSigned.bind fun _ => .pure _
  | absLong => exact fetchLong.bind fun _ => .pure _
  | pcDisplacement =>
    exact .bind (pc.bind fun _ => fetchSigned.bind fun _ => .pure _) fun _ => .pure _
  | immediate => exact (fetchConstant size).bind fun _ => .pure _
  | index r => cases plain
  | pcIndex => cases plain

theorem load (size : Size) (location : Location) : Refuses R (MachineM.load size location) := by
  cases location with
  | dataReg r => exact (data r).bind fun _ => .pure _
  | addrReg r => exact (address r).bind fun _ => .pure _
  | constant value => exact .pure _
  | memory place program =>
    cases program with
    | false => exact read size place
    | true => exact cpu.bind fun _ => readIn _ size place

theorem operand {mode : AddressMode} (plain : mode.isIndexed = false) (size : Size) :
    Refuses R (MachineM.operand mode size) :=
  (locate plain size).bind fun location => load size location

end Refuses

/-- Where an operand is a place, and not a value. -/
def Location.IsPlace : Location → Prop
  | constant _ => False
  | _ => True

/-- An operand is at a place, unless it is a constant. -/
theorem Answers.locate {β : Type} [Bus β] {mode : AddressMode} (place : mode ≠ .immediate)
    (size : Size) : Answers (β := β) Location.IsPlace (MachineM.locate mode size) := by
  refine .bind fun c => .bind fun _ => ?_
  cases mode with
  | immediate => exact (place rfl).elim
  | dataReg r => exact .pure trivial
  | addrReg r => exact .pure trivial
  | _ => exact .bind fun _ => .pure trivial

/-- What is a place can be written. -/
theorem Refuses.store {β : Type} [Bus β] {R : Machine β → Machine β → Prop} {location : Location}
    (place : location.IsPlace) (size : Size) (value : BitVec 32) :
    Refuses R (MachineM.store size location value) := by
  cases location with
  | dataReg r =>
    unfold MachineM.store
    exact modifyRegisters _
  | addrReg r => exact setAddress r value
  | constant _ => exact place.elim
  | memory address _ => exact write size address value

/-- A data register can. -/
theorem Refuses.storeData {β : Type} [Bus β] {R : Machine β → Machine β → Prop}
    (r : RegisterNumber) (size : Size) (value : BitVec 32) :
    Refuses R (MachineM.store size (.dataReg r) value) :=
  store (by trivial) size value

namespace Precise

open MachineM

variable {β α γ : Type} [Bus β]

/-- An action that keeps the machine is precise. -/
theorem of_quiet {x : MachineM β α} (quiet : Quiet BusEvent.IsInquiry x) : Precise x := by
  intro m vector m' fails _
  have stays := quiet m
  rwa [fails] at stays

/-- What is precise may follow an action that keeps the machine. -/
theorem after {x : MachineM β α} {f : α → MachineM β γ} (first : Quiet BusEvent.IsInquiry x)
    (rest : ∀ a, Precise (f a)) : Precise (x >>= f) := by
  intro m vector m' fails refusal
  have stays := first m
  rw [bind_apply] at fails
  rcases ends : x m with ⟨fault | a, m₁⟩
  · rw [ends] at fails stays
    obtain ⟨-, rfl⟩ := Prod.mk.inj fails
    exact stays
  · rw [ends] at fails stays
    exact stays.trans (rest a fails refusal)

/-- A test for supervisor mode comes first. -/
theorem guarded {f : Unit → MachineM β α} (rest : ∀ u, Precise (f u)) :
    Precise (requireSupervisor >>= f) :=
  after .requireSupervisor rest

theorem memoryAddress (mode : AddressMode) (bytes : Nat) :
    Precise (β := β) (MachineM.memoryAddress mode bytes) := by
  cases steps : mode.steps with
  | false => exact of_quiet (.memoryAddress steps bytes)
  | true =>
    cases mode with
    | postIncrement r => exact .postIncrement r bytes
    | preDecrement r => exact .preDecrement r bytes
    | _ => cases steps

theorem controlAddress (mode : AddressMode) : Precise (β := β) (MachineM.controlAddress mode) :=
  memoryAddress mode _

/-- An operand that is not found has changed nothing. -/
theorem locate (mode : AddressMode) (size : Size) :
    Precise (β := β) (MachineM.locate mode size) := by
  intro m vector m' fails _
  exact (locate_error fails).2

theorem operand (mode : AddressMode) (size : Size) :
    Precise (β := β) (MachineM.operand mode size) :=
  (locate mode size).bind fun location => .load size location

end Precise

end M68k
