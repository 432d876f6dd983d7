import M68k.Proofs.Cpu.Abandonment
import M68k.Proofs.Cpu.Composition

/-!
# Words that can be fetched

Whether the words of an instruction can be fetched, and which words they are, depends on the place
in the program and on the bus, but not on what the processor has noted about its course.  An action
that takes nothing but words finds as many as it needs.

* `Machine.Fetches` — the next words of the instruction stream;
* `Fetches.begin` — an instruction that can be fetched is begun;
* `Consumes` — an action that takes so many words;
* `Tells` — whether an operand is found tells whether its extension word is reserved.
-/

namespace M68k

namespace Machine

variable {β : Type}

/-- The machine with other notes about its course. -/
def noted (m : Machine β) (notes : Cpu.Notes) : Machine β := ⟨m.cpu.noted notes, m.bus⟩

/-- The next words of the instruction stream can be fetched, and are these. -/
def Fetches [Bus β] : Machine β → List (BitVec 16) → Prop
  | _, [] => True
  | m, word :: rest => ∃ m', MachineM.fetch m = (.ok word, m') ∧ m'.Fetches rest

end Machine

namespace MachineM

variable {β : Type} [Bus β] {m m' : Machine β}

/-- What is read ahead does not depend on the notes. -/
theorem afterFetch_noted (next : BitVec 32) (word : BitVec 16) (found : Machine β)
    (notes notes' : Cpu.Notes) :
    afterFetch (m.noted notes) next (.ok word, found.noted notes') =
      (.ok word, (afterFetch m next (.ok word, found)).2.noted notes') := by
  refine Prod.ext rfl ?_
  show (if m.cpu.prefetch then (readAhead next m.cpu.programCode (found.noted notes')).2
      else found.noted notes') =
    (if m.cpu.prefetch then (readAhead next m.cpu.programCode found).2 else found).noted notes'
  cases m.cpu.prefetch with
  | false => rfl
  | true =>
    rw [if_pos rfl, if_pos rfl, readAhead_apply, readAhead_apply]
    show (⟨if (Bus.fetch next m.cpu.programCode found.bus).1.error then _ else _, _⟩ :
      Machine β) = _
    dsimp only
    cases (Bus.fetch next m.cpu.programCode found.bus).1.error <;> rfl

theorem fetchFromBus_noted {access : AccessFault} {word : BitVec 16}
    (finds : fetchFromBus access m = (.ok word, m')) (notes : Cpu.Notes) :
    ∃ notes', fetchFromBus access (m.noted notes) = (.ok word, m'.noted notes') := by
  rw [fetchFromBus_apply] at finds
  dsimp only at finds
  split at finds
  · cases congrArg Prod.fst finds
  · next sound =>
    obtain ⟨same, rfl⟩ := Prod.mk.inj finds
    obtain rfl := Except.ok.inj same
    refine ⟨{ notes with cycles := notes.cycles + (Bus.fetch access.address access.functionCode
      m.bus).1.wait.toNat }, ?_⟩
    rw [fetchFromBus_apply]
    exact if_neg sound

/-- The next word, from what was read ahead or from the bus. -/
def sought (m : Machine β) : Except Fault (BitVec 16) × Machine β :=
  let place := m.cpu.model.place m.cpu.registers.pc
  let moved : Machine β := { m with cpu := m.cpu.setPc (m.cpu.registers.pc + 2) }
  match prefetchedAt? m.cpu place with
  | some word => (.ok word, moved)
  | none => fetchFromBus ⟨place, m.cpu.programCode, true, .word, 0⟩ moved

theorem fetch_eq_sought (m : Machine β) :
    fetch m =
      if (m.cpu.model.place m.cpu.registers.pc).getLsbD 0 then
        (.error (.address
          ⟨m.cpu.model.place m.cpu.registers.pc, m.cpu.programCode, true, .word, 0⟩), m)
      else afterFetch m (m.cpu.model.place (m.cpu.model.place m.cpu.registers.pc + 2)) (sought m) :=
  fetch_apply m

theorem sought_noted {word : BitVec 16} (finds : sought m = (.ok word, m')) (notes : Cpu.Notes) :
    ∃ notes', sought (m.noted notes) = (.ok word, m'.noted notes') := by
  cases looked : prefetchedAt? m.cpu (m.cpu.model.place m.cpu.registers.pc) with
  | some found =>
    have ahead : prefetchedAt? (m.noted notes).cpu
        ((m.noted notes).cpu.model.place (m.noted notes).cpu.registers.pc) = some found := looked
    simp only [sought, looked, Prod.mk.injEq] at finds
    obtain ⟨same, rfl⟩ := finds
    simp only [sought, ahead, same]
    exact ⟨notes, rfl⟩
  | none =>
    have ahead : prefetchedAt? (m.noted notes).cpu
        ((m.noted notes).cpu.model.place (m.noted notes).cpu.registers.pc) = none := looked
    simp only [sought, looked] at finds
    simp only [sought, ahead]
    exact fetchFromBus_noted finds notes

/-- Fetching does not depend on the notes. -/
theorem fetch_noted {word : BitVec 16} (fetches : fetch m = (.ok word, m')) (notes : Cpu.Notes) :
    ∃ notes', fetch (m.noted notes) = (.ok word, m'.noted notes') := by
  rw [fetch_eq_sought] at fetches
  split at fetches
  · cases congrArg Prod.fst fetches
  · next even =>
    rcases finds : sought m with ⟨fault | found, m₁⟩
    · rw [finds] at fetches
      cases congrArg Prod.fst fetches
    · rw [finds] at fetches
      obtain ⟨notes', looks⟩ := sought_noted finds notes
      refine ⟨notes', ?_⟩
      rw [fetch_eq_sought]
      refine (if_neg even).trans ?_
      rw [looks, afterFetch_noted]
      obtain ⟨same, rfl⟩ := Prod.mk.inj fetches
      exact congrArg (·, _) same

end MachineM

namespace Machine.Fetches

variable {β : Type} [Bus β] {m m' : Machine β} {word : BitVec 16} {words rest : List (BitVec 16)}

/-- Whether words can be fetched does not depend on the notes. -/
theorem noted (h : m.Fetches words) (notes : Cpu.Notes) : (m.noted notes).Fetches words := by
  induction words generalizing m notes with
  | nil => trivial
  | cons word rest ih =>
    obtain ⟨m', fetches, more⟩ := h
    obtain ⟨notes', fetched⟩ := MachineM.fetch_noted fetches notes
    exact ⟨m'.noted notes', fetched, ih more notes'⟩

/-- Fetching a word moves the program counter. -/
theorem fetch (h : m.Fetches (word :: rest)) :
    ∃ m', MachineM.fetch m = (.ok word, m') ∧ m.Stays BusEvent.IsFetch m' ∧ m'.Fetches rest := by
  obtain ⟨m', fetches, more⟩ := h
  have quiet : Quiet (β := β) BusEvent.IsFetch MachineM.fetch := .fetch fun _ _ => trivial
  have stays := quiet m
  rw [fetches] at stays
  exact ⟨m', fetches, stays, more⟩

/-- An instruction whose words can be fetched is begun. -/
theorem begin (h : m.Fetches (word :: rest)) :
    ∃ m₀, MachineM.begin m =
        (.ok (.perform m.cpu.registers.sr (.ofOpcode m.cpu.capabilities word)), m₀) ∧
      m₀.cpu.opcode = word ∧ m.cpu.BegunTo m₀.cpu ∧ m.Uses BusEvent.IsFetch m₀ ∧
        m₀.Fetches rest := by
  have starts : m.started.Fetches (word :: rest) :=
    h.noted ⟨m.cpu.registers.pc, m.cpu.opcode, m.cpu.faultState, m.cpu.lastLevel, false,
      m.cpu.cycles⟩
  obtain ⟨m₁, fetches, stays, more⟩ := starts.fetch
  have begins : MachineM.begin m = (.ok (.perform m.cpu.registers.sr
      (.ofOpcode m₁.cpu.capabilities word)), m₁.decoded word) := by
    rw [MachineM.begin_apply, fetches]
  rw [stays.capabilities] at begins
  have uses := MachineM.begin_uses m
  rw [begins] at uses
  refine ⟨_, begins, rfl, (MachineM.begin_perform begins).2, uses, ?_⟩
  exact more.noted ⟨m₁.cpu.registers.ppc, word, m₁.cpu.faultState, m₁.cpu.lastLevel,
    m₁.cpu.flowChanged, (m₁.decoded word).cpu.cycles⟩

end Machine.Fetches

/-- An action that takes so many words of the instruction stream, and succeeds if there are as
many. -/
def Consumes {β α : Type} [Bus β] (count : Nat) (x : MachineM β α) : Prop :=
  ∀ ⦃m : Machine β⦄ ⦃words rest : List (BitVec 16)⦄, words.length = count →
    m.Fetches (words ++ rest) →
      ∃ a m', x m = (.ok a, m') ∧ m.Stays BusEvent.IsFetch m' ∧ m'.Fetches rest

namespace Consumes

variable {β α γ : Type} [Bus β] {count more : Nat}

/-- All of the words there are. -/
theorem all {x : MachineM β α} {m : Machine β} {words : List (BitVec 16)} (h : Consumes count x)
    (length : words.length = count) (fetches : m.Fetches words) :
    ∃ a m', x m = (.ok a, m') ∧ m.Stays BusEvent.IsFetch m' := by
  rw [← List.append_nil words] at fetches
  obtain ⟨a, m', does, stays, -⟩ := h length fetches
  exact ⟨a, m', does, stays⟩

theorem bind {x : MachineM β α} {f : α → MachineM β γ} (first : Consumes count x)
    (second : ∀ a, Consumes more (f a)) : Consumes (count + more) (x >>= f) := by
  intro m words rest length fetches
  have split : words = words.take count ++ words.drop count := (List.take_append_drop ..).symm
  rw [split, List.append_assoc] at fetches
  obtain ⟨a, m₁, does, stays, left⟩ :=
    first (by rw [List.length_take, length]; omega) fetches
  obtain ⟨b, m', goesOn, stays', left'⟩ :=
    second a (by rw [List.length_drop, length]; omega) left
  exact ⟨b, m', (MachineM.bind_ok does f).trans goesOn, stays.trans stays', left'⟩

/-- An action that looks at the processor needs no word. -/
theorem look {x : MachineM β α} (same : ∀ m, ∃ a, x m = (.ok a, m)) : Consumes 0 x := by
  intro m words rest length fetches
  obtain ⟨a, looks⟩ := same m
  rw [List.length_eq_zero_iff.mp length] at fetches
  exact ⟨a, m, looks, .refl m, fetches⟩

theorem pure (a : α) : Consumes 0 (Pure.pure a : MachineM β α) := look fun _ => ⟨a, rfl⟩

theorem address (r : RegisterNumber) : Consumes (β := β) 0 (MachineM.address r) :=
  look fun m => ⟨m.cpu.registers.address r, rfl⟩

theorem fetch : Consumes (β := β) 1 MachineM.fetch := by
  intro m words rest length fetches
  obtain ⟨word, rfl⟩ := List.length_eq_one_iff.mp length
  obtain ⟨m', does, stays, left⟩ := fetches.fetch
  exact ⟨word, m', does, stays, left⟩

theorem fetchSigned : Consumes (β := β) 1 MachineM.fetchSigned := fetch.bind fun _ => .pure _

theorem fetchLong : Consumes (β := β) 2 MachineM.fetchLong :=
  fetch.bind fun _ => fetch.bind fun _ => .pure _

end Consumes

/-- How many words a displacement of the full format has. -/
def displacementWords (code : Nat) : Nat :=
  match code % 4 with
  | 2 => 1
  | 3 => 2
  | _ => 0

/-- The extension words of an operand that can be written and counts no register, where its address
is not itself in memory. -/
inductive AddressMode.ExtendedBy (caps : Capabilities) :
    AddressMode → List (BitVec 16) → Prop where
  | dataReg (r : RegisterNumber) : ExtendedBy caps (.dataReg r) []
  | indirect (r : RegisterNumber) : ExtendedBy caps (.indirect r) []
  | displacement (r : RegisterNumber) (word : BitVec 16) : ExtendedBy caps (.displacement r) [word]
  | absShort (word : BitVec 16) : ExtendedBy caps .absShort [word]
  | absLong (high low : BitVec 16) : ExtendedBy caps .absLong [high, low]
  | short (r : RegisterNumber) (extension : BitVec 16)
      (format : (extension.getLsbD 8 && caps.extendedAddressing) = false) :
      ExtendedBy caps (.index r) [extension]
  | full (r : RegisterNumber) (extension : BitVec 16) (words : List (BitVec 16))
      (format : (extension.getLsbD 8 && caps.extendedAddressing) = true)
      (base : (extension.extractLsb' 4 2).toNat ≠ 0)
      (direct : (extension.extractLsb' 0 3).toNat = 0)
      (length : words.length = displacementWords (extension.extractLsb' 4 2).toNat) :
      ExtendedBy caps (.index r) (extension :: words)

namespace Consumes

variable {β : Type} [Bus β]

theorem fetchDisplacement (code : Nat) :
    Consumes (β := β) (displacementWords code) (MachineM.fetchDisplacement code) := by
  unfold MachineM.fetchDisplacement displacementWords
  rcases code % 4 with _ | _ | _ | _ | kind
  · exact pure (0 : BitVec 32)
  · exact pure (0 : BitVec 32)
  · exact fetchSigned
  · exact fetchLong
  · exact pure (0 : BitVec 32)

/-- The full format without memory indirection. -/
theorem fullIndex (base : BitVec 32) {extension : BitVec 16}
    (defined : (extension.extractLsb' 4 2).toNat ≠ 0)
    (direct : (extension.extractLsb' 0 3).toNat = 0) :
    Consumes (β := β) (displacementWords (extension.extractLsb' 4 2).toNat)
      (MachineM.fullIndex base extension) := by
  unfold MachineM.fullIndex
  simp only [if_neg defined, if_pos direct]
  rw [← Nat.zero_add (displacementWords _)]
  refine (look fun m => ⟨_, rfl⟩).bind fun caps => ?_
  rw [← Nat.zero_add (displacementWords _)]
  refine (look fun m => ⟨_, rfl⟩).bind fun rs => ?_
  exact (fetchDisplacement _).bind fun _ => .pure _

end Consumes

namespace AddressMode.ExtendedBy

variable {β : Type} [Bus β] {caps : Capabilities} {m : Machine β}

theorem isDataAlterable {mode : AddressMode} {words : List (BitVec 16)}
    (extended : mode.ExtendedBy caps words) : mode.isDataAlterable = true := by
  cases extended <;> rfl

/-- The address of an indexed mode, which is not itself in memory. -/
theorem indexed {r : RegisterNumber} {words : List (BitVec 16)}
    (extended : (AddressMode.index r).ExtendedBy m.cpu.capabilities words)
    (fetches : m.Fetches words) (base : BitVec 32) :
    ∃ place m', MachineM.indexed base m = (.ok place, m') ∧ m.Stays BusEvent.IsFetch m' := by
  obtain ⟨extension, words, rfl⟩ : ∃ extension rest, words = extension :: rest := by
    cases extended <;> exact ⟨_, _, rfl⟩
  obtain ⟨m₁, fetched, stays, left⟩ := fetches.fetch
  unfold MachineM.indexed
  rw [MachineM.bind_ok fetched, MachineM.bind_ok (MachineM.capabilities_apply m₁),
    stays.capabilities]
  cases extended with
  | short _ _ format =>
    rw [format]
    exact ⟨_, m₁, rfl, stays⟩
  | full _ _ _ format defined direct length =>
    rw [format]
    obtain ⟨place, m', finds, stays'⟩ := (Consumes.fullIndex base defined direct).all length left
    exact ⟨place, m', finds, stays.trans stays'⟩

theorem memoryAddress_index (r : RegisterNumber) (bytes : Nat) (m : Machine β) :
    MachineM.memoryAddress (.index r) bytes m =
      MachineM.indexed (m.cpu.registers.address r) m := by
  have based : MachineM.address r m = (.ok (m.cpu.registers.address r), m) := rfl
  exact MachineM.bind_ok based MachineM.indexed

/-- An operand in memory whose extension words can be fetched has an address. -/
theorem memoryAddress {mode : AddressMode} {words : List (BitVec 16)}
    (extended : mode.ExtendedBy m.cpu.capabilities words) (memory : mode.isMemory = true)
    (fetches : m.Fetches words) (bytes : Nat) :
    ∃ place m', MachineM.memoryAddress mode bytes m = (.ok place, m') ∧
      m.Stays BusEvent.IsFetch m' := by
  -- all but the indexed modes take words whatever is in them
  suffices consumed : ∀ {count : Nat}, words.length = count →
      Consumes (β := β) count (MachineM.memoryAddress mode bytes) →
      ∃ place m', MachineM.memoryAddress mode bytes m = (.ok place, m') ∧
        m.Stays BusEvent.IsFetch m' by
    cases extended with
    | dataReg r => cases memory
    | indirect r => exact consumed rfl (.address r)
    | displacement r word =>
      exact consumed rfl <| Consumes.fetchSigned.bind fun _ =>
        (Consumes.address r).bind fun _ => .pure _
    | absShort word => exact consumed rfl .fetchSigned
    | absLong high low => exact consumed rfl .fetchLong
    | short r extension format =>
      rw [memoryAddress_index]
      exact indexed (.short r extension format) fetches _
    | full r extension words format base direct length =>
      rw [memoryAddress_index]
      exact indexed (.full r extension words format base direct length) fetches _
  intro count length consumes
  exact consumes.all length fetches

/-- An operand whose extension words can be fetched is found. -/
theorem locate {mode : AddressMode} {words : List (BitVec 16)}
    (extended : mode.ExtendedBy m.cpu.capabilities words) (fetches : m.Fetches words)
    (size : Size) :
    ∃ location m', MachineM.locate mode size m = (.ok location, m') ∧
      m.Stays BusEvent.IsFetch m' := by
  let m₁ := m.noted
    { m.cpu.notes with cycles := m.cpu.cycles + Timing.operand m.cpu.model mode size }
  have spends : MachineM.spend (Timing.operand m.cpu.model mode size) m = (.ok (), m₁) := rfl
  have paid : m.Stays BusEvent.IsFetch m₁ := ⟨rfl, .refl m⟩
  have memory (isMemory : mode.isMemory = true) : ∃ location m',
      MachineM.locate mode size m = (.ok location, m') ∧ m.Stays BusEvent.IsFetch m' := by
    have left : m₁.Fetches words := fetches.noted _
    obtain ⟨place, m', finds, stays⟩ := memoryAddress (m := m₁) extended isMemory left size.bytes
    unfold MachineM.locate
    rw [MachineM.bind_ok (MachineM.cpu_apply m), MachineM.bind_ok spends]
    cases mode with
    | dataReg r => cases isMemory
    | addrReg r => cases isMemory
    | immediate => cases isMemory
    | _ => exact ⟨_, m', MachineM.bind_ok finds _, paid.trans stays⟩
  cases extended with
  | dataReg r => exact ⟨.dataReg r, m₁, rfl, paid⟩
  | _ => exact memory rfl

end AddressMode.ExtendedBy

/-- An extension word of the full format is reserved if it has no code for a base displacement, or a
selector that is not defined for its index. -/
def reservedFormat (caps : Capabilities) (extension : BitVec 16) : Bool :=
  let selector := (extension.extractLsb' 0 3).toNat
  extension.getLsbD 8 && caps.extendedAddressing &&
    decide ((extension.extractLsb' 4 2).toNat = 0 ∨ selector = 4 ∨
      extension.getLsbD 6 ∧ 4 < selector)

/-- Unless an access fails, an address is found just where its extension word is not reserved. -/
def Tells {α : Type} (reserved : Bool) : Except Fault α → Prop
  | .ok _ => reserved = false
  | .error fault => fault.IsAccess ∨ reserved = true ∧ fault = .exception .illegalInstruction

namespace FailsByAccess

variable {β : Type} [Bus β]

theorem fetchSigned : FailsByAccess (β := β) MachineM.fetchSigned :=
  fetch.bind fun _ => .of_ok fun _ => ⟨_, _, rfl⟩

theorem fetchLong : FailsByAccess (β := β) MachineM.fetchLong :=
  fetch.bind fun _ => fetch.bind fun _ => .of_ok fun _ => ⟨_, _, rfl⟩

theorem fetchDisplacement (code : Nat) :
    FailsByAccess (β := β) (MachineM.fetchDisplacement code) := by
  unfold MachineM.fetchDisplacement
  split
  · exact fetchSigned
  · exact fetchLong
  · exact .of_ok fun m => ⟨0, m, rfl⟩

end FailsByAccess

namespace Tells

open MachineM

variable {β α γ : Type} {reserved : Bool}

theorem of_failsByAccess {x : MachineM β α} (fails : FailsByAccess x) (defined : reserved = false)
    (m : Machine β) : Tells reserved (x m).1 := by
  rcases ends : x m with ⟨fault | a, m'⟩
  · exact .inl (fails ends)
  · exact defined

theorem of_reserved {f : PUnit → MachineM β α} (is : reserved = true) (m : Machine β) :
    Tells reserved ((throw (.exception .illegalInstruction) >>= f) m).1 :=
  .inr ⟨is, rfl⟩

theorem bind {x : MachineM β α} {f : α → MachineM β γ} (first : FailsByAccess x)
    (rest : ∀ a m, Tells reserved (f a m).1) (m : Machine β) : Tells reserved ((x >>= f) m).1 := by
  rcases ends : x m with ⟨fault | a, m'⟩
  · rw [bind_error ends]
    exact .inl (first ends)
  · rw [bind_ok ends]
    exact rest a m'

/-- What is made of a result does not matter. -/
theorem map {x : MachineM β α} (f : α → γ) {m : Machine β} (h : Tells reserved (x m).1) :
    Tells reserved ((x >>= fun a => pure (f a)) m).1 := by
  rcases ends : x m with ⟨fault | a, m'⟩
  · rw [ends] at h
    rw [bind_error ends]
    exact h
  · rw [ends] at h
    rw [bind_ok ends]
    exact h

variable [Bus β] {caps : Capabilities}

theorem fullIndex (base : BitVec 32) {extension : BitVec 16}
    (full : (extension.getLsbD 8 && caps.extendedAddressing) = true) (m : Machine β) :
    Tells (reservedFormat caps extension) (MachineM.fullIndex base extension m).1 := by
  unfold reservedFormat
  rw [full, Bool.true_and]
  refine bind (.of_ok fun m => ⟨_, m, rfl⟩) (fun caps m => ?_) m
  refine bind (.of_ok fun m => ⟨_, m, rfl⟩) (fun rs m => ?_) m
  dsimp only
  split
  · next noBase => exact of_reserved (decide_eq_true (.inl noBase)) m
  · next someBase =>
    refine bind (.fetchDisplacement _) (fun displacement m => ?_) m
    split
    · next direct =>
      refine of_failsByAccess (.of_ok fun m => ⟨_, m, rfl⟩) (decide_eq_false ?_) m
      omega
    · split
      · next unknown =>
        rw [decide_eq_true_eq] at unknown
        exact of_reserved (decide_eq_true (.inr unknown)) m
      · next known =>
        rw [decide_eq_true_eq] at known
        refine of_failsByAccess ?_ (decide_eq_false (not_or.mpr ⟨someBase, known⟩)) m
        refine (FailsByAccess.fetchDisplacement _).bind fun outer => ?_
        refine FailsByAccess.bind (.of_ok fun _ => ⟨_, _, rfl⟩) fun _ => ?_
        split
        · exact (FailsByAccess.read _ _).bind fun _ => .of_ok fun m => ⟨_, m, rfl⟩
        · exact (FailsByAccess.read _ _).bind fun _ => .of_ok fun m => ⟨_, m, rfl⟩

theorem indexed {m : Machine β} {extension : BitVec 16} (fetches : m.Fetches [extension])
    (base : BitVec 32) :
    Tells (reservedFormat m.cpu.capabilities extension) (MachineM.indexed base m).1 := by
  obtain ⟨m₁, fetched, stays, -⟩ := fetches.fetch
  unfold MachineM.indexed
  rw [bind_ok fetched, bind_ok (capabilities_apply m₁), stays.capabilities]
  split
  · next full => exact fullIndex base full m₁
  · next short =>
    refine of_failsByAccess (.of_ok fun m => ⟨_, m, rfl⟩) ?_ m₁
    unfold reservedFormat
    rw [Bool.eq_false_iff.mpr short, Bool.false_and]

/-- The search for an indexed operand tells of its extension word. -/
theorem locate {m : Machine β} {extension : BitVec 16} (fetches : m.Fetches [extension])
    (r : RegisterNumber) (size : Size) :
    Tells (reservedFormat m.cpu.capabilities extension)
      (MachineM.locate (.index r) size m).1 := by
  let m₁ := m.noted
    { m.cpu.notes with cycles := m.cpu.cycles + Timing.operand m.cpu.model (.index r) size }
  have left : m₁.Fetches [extension] := fetches.noted _
  exact map (Location.memory · false) (indexed left (m.cpu.registers.address r))

end Tells

end M68k
