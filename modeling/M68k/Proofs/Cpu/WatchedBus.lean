import M68k.Proofs.Cpu.Course

/-!
# Watching the word that was read ahead

A processor that reads ahead uses a word that may be older than what is on the bus by then.  A
`Watched` bus knows which word was read ahead, since it has fetched it, and notices when anything
but a fetch changes it.

An action is `Transparent` at a machine with such a bus if watching changes nothing, and if, unless
that word was touched, a processor that does not read ahead does the same.  Elementary actions are,
and what is composed of them.

* `Composed.transparent` — actions are transparent wherever fetching is steady.
-/

namespace M68k

open MachineM

/-- A bus on which fetching changes nothing and costs nothing, finds the same in every mode, and
fails at fixed addresses. -/
class SteadyFetch (β : Type) [Bus β] : Prop where
  bus_fetch (address : BitVec 32) (space : FunctionCode) (bus : β) :
    (Bus.fetch address space bus).2 = bus
  wait_fetch (address : BitVec 32) (space : FunctionCode) (bus : β) :
    (Bus.fetch address space bus).1.wait = 0
  fetch_space (address : BitVec 32) (space space' : FunctionCode) (bus : β) :
    (Bus.fetch address space bus).1 = (Bus.fetch address space' bus).1
  error_fetch (address : BitVec 32) (space : FunctionCode) (bus bus' : β) :
    (Bus.fetch address space bus).1.error = (Bus.fetch address space bus').1.error

/-- The word that a fetch finds at an address. -/
def Bus.wordAt {β : Type} [Bus β] (address : BitVec 32) (bus : β) : BitVec 16 :=
  (Bus.fetch address .supervisorProgram bus).1.data.setWidth 16

/-- A bus that is watched. -/
structure Watched (β : Type) where
  bus : β
  /-- The address of the word that the processor has read ahead. -/
  held : Option (BitVec 32)
  /-- Whether such a word has changed while it was held. -/
  touched : Bool

namespace Watched

variable {β : Type} [Bus β]

/-- The watched bus after an operation that has left the bus in another state. -/
def goOn (w : Watched β) (bus : β) : Watched β where
  bus
  held := w.held
  touched := w.touched || w.held.any fun address =>
    Bus.wordAt address bus != Bus.wordAt address w.bus

/-- The last word that was fetched is held until the program goes on elsewhere. -/
instance : Bus (Watched β) where
  read size address space w :=
    ((Bus.read size address space w.bus).1, w.goOn (Bus.read size address space w.bus).2)
  write size address value space w :=
    ((Bus.write size address value space w.bus).1,
      w.goOn (Bus.write size address value space w.bus).2)
  fetch address space w :=
    ((Bus.fetch address space w.bus).1,
      { w.goOn (Bus.fetch address space w.bus).2 with
        held := if (Bus.fetch address space w.bus).1.error then none else some address })
  interruptLevel w := ((Bus.interruptLevel w.bus).1, w.goOn (Bus.interruptLevel w.bus).2)
  acknowledge level w :=
    ((Bus.acknowledge level w.bus).1, w.goOn (Bus.acknowledge level w.bus).2)
  reset w := w.goOn (Bus.reset w.bus)
  illegal opcode w := ((Bus.illegal opcode w.bus).1, w.goOn (Bus.illegal opcode w.bus).2)
  pcChanged target w := { w with bus := Bus.pcChanged target w.bus, held := none }

end Watched

variable {β : Type}

/-- What is read ahead at an address. -/
def Bus.ahead? [Bus β] (address : BitVec 32) (bus : β) : Option Prefetched :=
  if (Bus.fetch address .supervisorProgram bus).1.error then none
  else some ⟨address, Bus.wordAt address bus⟩

/-- What is read ahead depends on the word at the address only, since failures stay. -/
theorem Bus.ahead?_congr [Bus β] [SteadyFetch β] {address : BitVec 32} {bus bus' : β}
    (same : Bus.wordAt address bus' = Bus.wordAt address bus) :
    Bus.ahead? address bus' = Bus.ahead? address bus := by
  rw [ahead?, ahead?, same, SteadyFetch.error_fetch address _ bus' bus]

/-- What was read ahead is at the address that it is for. -/
theorem Bus.ahead?_address [Bus β] {address : BitVec 32} {bus : β} {p : Prefetched}
    (found : Bus.ahead? address bus = some p) : p.address = address := by
  unfold ahead? at found
  split at found
  · exact nomatch found
  · obtain rfl := Option.some.inj found
    rfl

/-- Every word that was read ahead is still what a fetch finds. -/
def Machine.Fresh [Bus β] (m : Machine β) : Prop :=
  ∀ p, m.cpu.prefetched = some p → Bus.ahead? p.address m.bus = some p

/-- Where no word was read ahead, none is old. -/
theorem Machine.Fresh.of_none [Bus β] {m : Machine β} (empty : m.cpu.prefetched = none) :
    m.Fresh := fun p held => by
  rw [empty] at held
  cases held

namespace Machine

/-- The machine without the watch. -/
def unwatched (a : Machine (Watched β)) : Machine β := ⟨a.cpu, a.bus.bus⟩

/-- The machine without the watch, and with a processor that does not read ahead. -/
def plain (a : Machine (Watched β)) : Machine β := ⟨a.cpu.setPrefetch false, a.bus.bus⟩

/-- The word that was read ahead is the one that the watch knows of, and is still what a fetch
finds. -/
structure Coherent [Bus β] (a : Machine (Watched β)) : Prop where
  prefetch : a.cpu.prefetch = true
  held : a.bus.held = a.cpu.prefetched.map (·.address)
  fresh : a.unwatched.Fresh

end Machine

/-- What there is to say about machines with any bus. -/
abbrev Behaviour (ρ : Type) := (β : Type) → [Bus β] → Machine β → ρ × Machine β

/-- Neither watching the bus nor reading ahead makes a difference for a behaviour. -/
structure Transparent [Bus β] {ρ : Type} (x : Behaviour ρ) (a : Machine (Watched β)) : Prop where
  erases : x β a.unwatched = ((x (Watched β) a).1, (x (Watched β) a).2.unwatched)
  stays : a.bus.touched = true → (x (Watched β) a).2.bus.touched = true
  plain : a.Coherent → (x (Watched β) a).2.bus.touched = true ∨
    (x β a.plain = ((x (Watched β) a).1, (x (Watched β) a).2.plain) ∧
      (x (Watched β) a).2.Coherent)

namespace Transparent

variable [Bus β] {a : Machine (Watched β)} {ρ σ : Type}

theorem congr {x y : Behaviour ρ} (same : ∀ (β : Type) [Bus β] (m : Machine β), y β m = x β m)
    (h : Transparent x a) : Transparent y a := by
  have equal : y = x := funext fun β => funext fun _ => funext fun m => same β m
  exact equal ▸ h

/-- One behaviour after the other. -/
theorem andThen {x : Behaviour ρ} {k : ρ → Behaviour σ} (first : Transparent x a)
    (rest : Transparent (k (x (Watched β) a).1) (x (Watched β) a).2) :
    Transparent (fun β _ m => k (x β m).1 β (x β m).2) a where
  erases := by
    rw [first.erases]
    exact rest.erases
  stays touched := rest.stays (first.stays touched)
  plain coherent := by
    rcases first.plain coherent with touched | ⟨same, coherent'⟩
    · exact .inl (rest.stays touched)
    · rw [same]
      exact rest.plain coherent'

/-- What depends on the processor, but not on what was read ahead. -/
theorem ofCpu {k : Cpu → Behaviour ρ} (blind : k (a.cpu.setPrefetch false) β = k a.cpu β)
    (rest : Transparent (k a.cpu) a) : Transparent (fun β _ m => k m.cpu β m) a where
  erases := rest.erases
  stays := rest.stays
  plain coherent := by
    show _ ∨ k (a.cpu.setPrefetch false) β a.plain = _ ∧ _
    rw [blind]
    exact rest.plain coherent

/-- A change of the processor that lets alone what was read ahead. -/
theorem modify (result : Cpu → ρ) (change : Cpu → Cpu)
    (keeps : ∀ c, (change c).prefetch = c.prefetch ∧ (change c).prefetched = c.prefetched)
    (blind : ∀ c, result (c.setPrefetch false) = result c ∧
      change (c.setPrefetch false) = (change c).setPrefetch false) :
    Transparent (fun _ _ m => (result m.cpu, ⟨change m.cpu, m.bus⟩)) a where
  erases := rfl
  stays := id
  plain coherent := by
    obtain ⟨prefetch, prefetched⟩ := keeps a.cpu
    refine .inr ⟨?_, ?_, ?_, ?_⟩
    · exact Prod.ext (blind a.cpu).1
        (congrArg (Machine.mk · a.bus.bus) (blind a.cpu).2)
    · exact prefetch.trans coherent.prefetch
    · exact coherent.held.trans (congrArg _ prefetched.symm)
    · intro p holds
      exact coherent.fresh p (prefetched.symm.trans holds)

/-- An outcome, and nothing done. -/
theorem result {ε α : Type} (outcome : Except ε α) : Transparent (fun _ _ m => (outcome, m)) a :=
  .modify (fun _ => outcome) id (fun _ => ⟨rfl, rfl⟩) fun _ => ⟨rfl, rfl⟩

variable [SteadyFetch β]

/-- An operation of the bus, after which the watch looks at the word that is held. -/
theorem exchange (operate : (β : Type) → [Bus β] → β → ρ × β)
    (watched : ∀ w : Watched β, operate (Watched β) w =
      ((operate β w.bus).1, w.goOn (operate β w.bus).2)) :
    Transparent (fun β _ m => ((operate β m.bus).1, ⟨m.cpu, (operate β m.bus).2⟩)) a where
  erases := by
    rw [watched]
    rfl
  stays touched := by
    rw [watched]
    exact Bool.or_eq_true_iff.mpr (.inl touched)
  plain coherent := by
    rw [watched, show a.plain.bus = a.bus.bus from rfl]
    dsimp only
    generalize operate β a.bus.bus = answer
    obtain ⟨reply, bus⟩ := answer
    dsimp only
    cases changed : (a.bus.goOn bus).touched with
    | true => exact .inl rfl
    | false =>
      refine .inr ⟨rfl, coherent.prefetch, coherent.held, fun p holds => ?_⟩
      have held : a.bus.held = some p.address := by
        rw [coherent.held, show a.cpu.prefetched = some p from holds]
        rfl
      have same : Bus.wordAt p.address bus = Bus.wordAt p.address a.bus.bus := by
        have untouched := (Bool.or_eq_false_iff.mp changed).2
        rw [held] at untouched
        simpa using untouched
      exact (Bus.ahead?_congr same).trans (coherent.fresh p holds)

omit [SteadyFetch β] in
/-- Going on elsewhere: the word that was read ahead is forgotten on both sides. -/
theorem jump (target : BitVec 32) :
    Transparent (ρ := Except Fault Unit) (fun _ _ m => MachineM.jump target m) a := by
  by_cases odd : target.getLsbD 0 = true
  · refine congr (fun β _ m => ?_) <|
      modify (fun c => .error (.address ⟨target, c.programCode, true, .word, 0⟩)) id
        (fun _ => ⟨rfl, rfl⟩) fun _ => ⟨rfl, rfl⟩
    rw [jump_apply, if_pos odd]
    rfl
  · refine ⟨?_, ?_, fun coherent => .inr ⟨?_, ?_⟩⟩
    · rw [jump_apply, jump_apply, if_neg odd, if_neg odd]
      rfl
    · rw [jump_apply, if_neg odd]
      exact id
    · rw [jump_apply, jump_apply, if_neg odd, if_neg odd]
      rfl
    · rw [jump_apply, if_neg odd]
      exact ⟨coherent.prefetch, rfl, .of_none rfl⟩

end Transparent

section Fetch

variable [Bus β] [SteadyFetch β]

omit [SteadyFetch β] in
/-- A word that was read ahead, and is still there, is what a fetch finds. -/
theorem Machine.Fresh.fetches {m : Machine β} (fresh : m.Fresh) {place : BitVec 32}
    {word : BitVec 16} (found : prefetchedAt? m.cpu place = some word) :
    (Bus.fetch place .supervisorProgram m.bus).1.error = false ∧ Bus.wordAt place m.bus = word := by
  obtain ⟨p, holds, same⟩ := Option.bind_eq_some_iff.mp found
  obtain ⟨rfl, taken⟩ := Option.ite_none_right_eq_some.mp same
  obtain rfl := Option.some.inj taken
  have there := fresh p holds
  rw [Bus.ahead?] at there
  split at there
  · exact nomatch there
  next succeeds =>
    exact ⟨Bool.eq_false_iff.mpr succeeds, congrArg Prefetched.word (Option.some.inj there)⟩

/-- A fetch that leaves the bus alone costs nothing either. -/
theorem Machine.after_fetch (m : Machine β) (place : BitVec 32) :
    m.after (Bus.fetch place .supervisorProgram m.bus).1 m.bus = m := by
  rw [after, SteadyFetch.wait_fetch]
  rfl

/-- Where no word is held, reading ahead holds what a fetch finds. -/
theorem MachineM.readAhead_of_none {m : Machine β} (empty : m.cpu.prefetched = none)
    (address : BitVec 32) (space : FunctionCode) :
    (readAhead address space m).2 =
      ⟨{ m.cpu with prefetched := Bus.ahead? address m.bus }, m.bus⟩ := by
  rw [readAhead_apply]
  dsimp only
  rw [SteadyFetch.fetch_space address space .supervisorProgram, SteadyFetch.bus_fetch, Bus.ahead?]
  split
  · rw [← empty]
  · rfl

/-- Where fetching is steady, it does not matter whether a word was read ahead. -/
theorem MachineM.fetch_of_fresh {m : Machine β} (fresh : m.Fresh) :
    fetch m =
      let place := m.cpu.registers.pc &&& m.cpu.model.addressMask
      let access : AccessFault := ⟨place, m.cpu.programCode, true, .word, 0⟩
      let moved := m.cpu.setPc (m.cpu.registers.pc + 2)
      if place.getLsbD 0 then (.error (.address access), m)
      else if (Bus.fetch place .supervisorProgram m.bus).1.error then
        (.error (.bus access), ⟨moved, m.bus⟩)
      else
        (.ok (Bus.wordAt place m.bus),
          ⟨{ moved with
              prefetched :=
                if m.cpu.prefetch then Bus.ahead? ((place + 2) &&& m.cpu.model.addressMask) m.bus
                else none },
            m.bus⟩) := by
  rw [fetch_apply]
  dsimp only
  generalize m.cpu.registers.pc &&& m.cpu.model.addressMask = place
  have goesOn (word : BitVec 16) :
      afterFetch m ((place + 2) &&& m.cpu.model.addressMask)
          (.ok word, ⟨m.cpu.setPc (m.cpu.registers.pc + 2), m.bus⟩) =
        (.ok word, ⟨{ m.cpu.setPc (m.cpu.registers.pc + 2) with
          prefetched :=
            if m.cpu.prefetch then Bus.ahead? ((place + 2) &&& m.cpu.model.addressMask) m.bus
            else none }, m.bus⟩) := by
    rw [afterFetch, readAhead_of_none rfl]
    split <;> rfl
  split
  · rfl
  · cases found : prefetchedAt? m.cpu place with
    | none =>
      dsimp only
      rw [fetchFromBus_apply]
      dsimp only
      rw [SteadyFetch.fetch_space place _ .supervisorProgram, SteadyFetch.bus_fetch,
        Machine.after_fetch ⟨m.cpu.setPc (m.cpu.registers.pc + 2), m.bus⟩]
      cases (Bus.fetch place .supervisorProgram m.bus).1.error with
      | true => rfl
      | false => exact goesOn _
    | some word =>
      obtain ⟨succeeds, rfl⟩ := fresh.fetches found
      rw [succeeds]
      exact goesOn _

/-- What was read ahead is forgotten without a loss, and what is read ahead next is what a fetch
finds. -/
theorem MachineM.fetch_plain {m : Machine β} (fresh : m.Fresh) :
    fetch ⟨m.cpu.setPrefetch false, m.bus⟩ =
        ((fetch m).1, ⟨(fetch m).2.cpu.setPrefetch false, (fetch m).2.bus⟩) ∧
      (fetch m).2.Fresh := by
  have emptied : Machine.Fresh ⟨m.cpu.setPrefetch false, m.bus⟩ := .of_none rfl
  rw [fetch_of_fresh fresh, fetch_of_fresh emptied]
  cases odd : (m.cpu.registers.pc &&& m.cpu.model.addressMask).getLsbD 0 with
  | true =>
    simp only [Cpu.setPrefetch, odd, if_true]
    exact ⟨rfl, fresh⟩
  | false =>
    cases failed : (Bus.fetch (m.cpu.registers.pc &&& m.cpu.model.addressMask)
      .supervisorProgram m.bus).1.error with
    | true =>
      simp only [Cpu.setPrefetch, odd, failed, if_true, Bool.false_eq_true, if_false]
      exact ⟨rfl, .of_none rfl⟩
    | false =>
      simp only [Cpu.setPrefetch, odd, failed, Bool.false_eq_true, if_false]
      refine ⟨rfl, fun p holds => ?_⟩
      obtain ⟨-, found⟩ := Option.ite_none_right_eq_some.mp holds
      rw [Bus.ahead?_address found]
      exact found

end Fetch

section WatchedFetch

variable [Bus β]

namespace Watched

/-- What a watched bus does when a word is fetched. -/
theorem held_fetch (address : BitVec 32) (space : FunctionCode) (w : Watched β) :
    (Bus.fetch address space w).2.held =
      if (Bus.fetch address space w).1.error then none else some address := rfl

theorem touched_fetch (address : BitVec 32) (space : FunctionCode) {w : Watched β}
    (touched : w.touched = true) : (Bus.fetch address space w).2.touched = true :=
  Bool.or_eq_true_iff.mpr (.inl touched)

end Watched

variable (a : Machine (Watched β))

/-- Fetching reads the same ahead, with a watch and without. -/
theorem MachineM.afterFetch_unwatched (next : BitVec 32)
    (outcome : Except Fault (BitVec 16) × Machine (Watched β)) :
    afterFetch a.unwatched next (outcome.1, outcome.2.unwatched) =
      ((afterFetch a next outcome).1, (afterFetch a next outcome).2.unwatched) := by
  obtain ⟨fault | word, found⟩ := outcome
  · rfl
  · have ahead : (readAhead next a.cpu.programCode found.unwatched).2 =
        (readAhead next a.cpu.programCode found).2.unwatched := by
      rw [readAhead_apply, readAhead_apply]
      rfl
    dsimp only [afterFetch]
    rw [show a.unwatched.cpu = a.cpu from rfl, ahead]
    split <;> rfl

theorem MachineM.fetch_unwatched :
    fetch a.unwatched = ((fetch a).1, (fetch a).2.unwatched) := by
  have looked (access : AccessFault) (a : Machine (Watched β)) :
      fetchFromBus access a.unwatched =
        ((fetchFromBus access a).1, (fetchFromBus access a).2.unwatched) := by
    rw [fetchFromBus_apply, fetchFromBus_apply]
    show (if (Bus.fetch access.address access.functionCode a.bus).1.error then _ else _) = _
    dsimp only
    split <;> rfl
  rw [fetch_apply, fetch_apply, show a.unwatched.cpu = a.cpu from rfl]
  dsimp only
  split
  · rfl
  · cases prefetchedAt? a.cpu (a.cpu.registers.pc &&& a.cpu.model.addressMask) with
    | some word =>
      exact afterFetch_unwatched a _ (.ok word, ⟨a.cpu.setPc (a.cpu.registers.pc + 2), a.bus⟩)
    | none =>
      rw [← afterFetch_unwatched, ← looked]
      rfl

theorem MachineM.touched_fetch (touched : a.bus.touched = true) :
    (fetch a).2.bus.touched = true := by
  have led : Leads (fun a a' : Machine (Watched β) =>
      a.bus.touched = true → a'.bus.touched = true) fetch := by
    refine leads_fetch (fun _ => id) (fun h h' => h' ∘ h) (fun _ => id) ?_ ?_
    · intro a access _ touched
      rw [fetchFromBus_apply]
      dsimp only
      split <;> exact Watched.touched_fetch _ _ touched
    · intro a address touched
      rw [readAhead_apply]
      exact Watched.touched_fetch _ _ touched
  exact led a touched

/-- The watch knows which word was read ahead. -/
theorem Machine.Coherent.held_fetch {a : Machine (Watched β)} (coherent : a.Coherent) :
    (MachineM.fetch a).2.bus.held = (MachineM.fetch a).2.cpu.prefetched.map (·.address) := by
  have ahead (address : BitVec 32) (space : FunctionCode) (a : Machine (Watched β))
      (empty : a.cpu.prefetched = none) :
      (readAhead address space a).2.bus.held =
        (readAhead address space a).2.cpu.prefetched.map (·.address) := by
    rw [readAhead_apply]
    dsimp only
    rw [Watched.held_fetch]
    split
    · rw [empty]; rfl
    · rfl
  have goesOn (word : BitVec 16) (found : Machine (Watched β))
      (empty : found.cpu.prefetched = none) (next : BitVec 32) :
      (afterFetch a next (.ok word, found)).2.bus.held =
        (afterFetch a next (.ok word, found)).2.cpu.prefetched.map (·.address) := by
    dsimp only [afterFetch]
    rw [if_pos coherent.prefetch]
    exact ahead next _ found empty
  rw [fetch_apply]
  dsimp only
  split
  · exact coherent.held
  · cases prefetchedAt? a.cpu (a.cpu.registers.pc &&& a.cpu.model.addressMask) with
    | some word => exact goesOn word _ rfl _
    | none =>
      dsimp only
      rw [fetchFromBus_apply]
      dsimp only
      cases failed : (Bus.fetch _ _ a.bus).1.error with
      | true => exact (Watched.held_fetch _ _ a.bus).trans (if_pos failed)
      | false => exact goesOn _ _ rfl _

end WatchedFetch

namespace Transparent

variable [Bus β] [SteadyFetch β] {a : Machine (Watched β)}

/-- Fetching: the watched processor reads ahead what the plain one does not need yet. -/
theorem fetch : Transparent (ρ := Except Fault (BitVec 16)) (fun _ _ m => MachineM.fetch m) a where
  erases := fetch_unwatched a
  stays := touched_fetch a
  plain coherent := by
    obtain ⟨plain, fresh⟩ := fetch_plain coherent.fresh
    have course : a.cpu.Course false false (MachineM.fetch a).2.cpu := Course.fetch a
    rw [fetch_unwatched] at plain fresh
    exact .inr ⟨plain, course.prefetch.trans coherent.prefetch, coherent.held_fetch, fresh⟩

end Transparent

/-- Neither watching the bus nor reading ahead makes a difference for an action. -/
def Action.Transparent [Bus β] {α : Type} (x : Action α) (a : Machine (Watched β)) : Prop :=
  M68k.Transparent (ρ := Except Fault α) (fun β _ m => x β m) a

/-- How a sequence goes on, unless its first action has failed. -/
def Action.goOn {α γ : Type} (f : α → Action γ) : Except Fault α → Behaviour (Except Fault γ)
  | .ok r => fun β _ m => f r β m
  | .error fault => fun _ _ m => (.error fault, m)

/-- What the floating-point unit answers, if there is one. -/
def Fpu.answer {α : Type} (vector : VectorNumber) (change : Fpu → Option (α × Fpu))
    (fpu : Option Fpu) : Except Fault α :=
  match fpu with
  | none => .error (.exception .lineF)
  | some fpu =>
    match change fpu with
    | none => .error (.exception vector)
    | some (r, _) => .ok r

/-- What becomes of the unit then. -/
def Fpu.answered {α : Type} (change : Fpu → Option (α × Fpu)) : Option Fpu → Option Fpu :=
  Option.map fun fpu =>
    match change fpu with
    | none => fpu
    | some (_, fpu') => fpu'

namespace Action.Transparent

variable [Bus β] {a : Machine (Watched β)} {α γ : Type}

theorem bind {x : Action α} {f : α → Action γ} (first : x.Transparent a)
    (rest : ∀ r, (f r).Transparent (x (Watched β) a).2) :
    Action.Transparent (fun β _ => x β >>= fun r => f r β) a := by
  have both : M68k.Transparent (fun β _ m => goOn f (x β m).1 β (x β m).2) a := by
    refine M68k.Transparent.andThen first ?_
    cases (x (Watched β) a).1 with
    | ok r => exact rest r
    | error fault => exact .result (.error fault)
  refine M68k.Transparent.congr (fun β _ m => (bind_apply m _ _).trans ?_) both
  obtain ⟨_ | r, m'⟩ := x β m <;> rfl

theorem cpu {f : Cpu → Action α} (rest : (f a.cpu).Transparent a)
    (blind : ∀ c (β : Type) [Bus β], f (c.setPrefetch false) β = f c β) :
    Action.Transparent (fun β _ => MachineM.cpu >>= fun c => f c β) a :=
  M68k.Transparent.congr (fun _ _ m => bind_ok (cpu_apply m) _)
    (M68k.Transparent.ofCpu (k := fun c β _ m => f c β m) (blind a.cpu β) rest)

variable [SteadyFetch β]

/-- An access: it is made unless the processor finds it misaligned, and fails if the reply says
so. -/
theorem access {x : Action α} (misaligned : Model → Bool) (early : Model → Fault)
    (operate : Model → (β : Type) → [Bus β] → β → BusReply × β)
    (late : Model → BusReply → Except Fault α)
    (watched : ∀ (model : Model) (w : Watched β), operate model (Watched β) w =
      ((operate model β w.bus).1, w.goOn (operate model β w.bus).2))
    (apply : ∀ (β : Type) [Bus β] (m : Machine β), x β m =
      if misaligned m.cpu.model then (.error (early m.cpu.model), m)
      else (late m.cpu.model (operate m.cpu.model β m.bus).1,
        m.after (operate m.cpu.model β m.bus).1 (operate m.cpu.model β m.bus).2)) :
    x.Transparent a := by
  let made (model : Model) : Behaviour (Except Fault α) := fun β _ m =>
    (late model (operate model β m.bus).1,
      m.after (operate model β m.bus).1 (operate model β m.bus).2)
  refine M68k.Transparent.congr apply (M68k.Transparent.ofCpu (k := fun c β _ m =>
    if misaligned c.model then (.error (early c.model), m) else made c.model β m) rfl ?_)
  split
  · exact .result (.error (early a.cpu.model))
  · exact M68k.Transparent.andThen
      (k := fun reply _ _ m => (late a.cpu.model reply, m.after reply m.bus))
      (.exchange (operate a.cpu.model) (watched a.cpu.model))
      (.modify (fun _ => late a.cpu.model _) (fun c => { c with cycles := c.cycles + _ })
        (fun _ => ⟨rfl, rfl⟩) fun _ => ⟨rfl, rfl⟩)

theorem readIn (space : FunctionCode) (size : Size) (address : BitVec 32) :
    Action.Transparent (fun _ _ => MachineM.readIn space size address) a := by
  refine access (fun model => misaligned model.capabilities size (address &&& model.addressMask))
    (fun model => .address ⟨address &&& model.addressMask, space, true, size, 0⟩)
    (fun model β _ => Bus.read size (address &&& model.addressMask) space)
    (fun model reply =>
      if reply.error then .error (.bus ⟨address &&& model.addressMask, space, true, size, 0⟩)
      else .ok (size.truncate reply.data)) (fun _ _ => rfl) fun β _ m => ?_
  rw [readIn_apply]
  dsimp only
  split
  · rfl
  · split <;> rfl

theorem writeIn (space : FunctionCode) (size : Size) (address value : BitVec 32) :
    Action.Transparent (fun _ _ => MachineM.writeIn space size address value) a := by
  refine access (fun model => misaligned model.capabilities size (address &&& model.addressMask))
    (fun model =>
      .address ⟨address &&& model.addressMask, space, false, size, size.truncate value⟩)
    (fun model β _ => Bus.write size (address &&& model.addressMask) (size.truncate value) space)
    (fun model reply =>
      if reply.error then
        .error (.bus ⟨address &&& model.addressMask, space, false, size, size.truncate value⟩)
      else .ok ()) (fun _ _ => rfl) fun β _ m => ?_
  rw [writeIn_apply]
  dsimp only
  split
  · rfl
  · split <;> rfl

/-- An operation of the bus that cannot fail. -/
theorem onBus (operate : (β : Type) → [Bus β] → β → α × β)
    (watched : ∀ w : Watched β, operate (Watched β) w =
      ((operate β w.bus).1, w.goOn (operate β w.bus).2)) :
    Action.Transparent (fun β _ => MachineM.onBus (operate β)) a :=
  M68k.Transparent.andThen (σ := Except Fault α) (k := fun answer _ _ m => (.ok answer, m))
    (.exchange operate watched) (.result (.ok _))

omit [SteadyFetch β] in
/-- A change of the processor that lets alone what was read ahead. -/
theorem modifyCpu (change : Cpu → Cpu)
    (keeps : ∀ c, (change c).prefetch = c.prefetch ∧ (change c).prefetched = c.prefetched)
    (blind : ∀ c, change (c.setPrefetch false) = (change c).setPrefetch false) :
    Action.Transparent (fun _ _ => MachineM.modifyCpu change) a :=
  M68k.Transparent.modify (ρ := Except Fault Unit) (fun _ => .ok ()) change keeps fun c =>
    ⟨rfl, blind c⟩

omit [SteadyFetch β] in
theorem requireSupervisor : Action.Transparent (fun _ _ => MachineM.requireSupervisor) a :=
  M68k.Transparent.congr (fun _ _ m => requireSupervisor_apply m)
    (.modify (ρ := Except Fault Unit) (fun c => if c.registers.isSupervisor then .ok ()
      else .error (.exception .privilegeViolation)) id (fun _ => ⟨rfl, rfl⟩)
      fun _ => ⟨rfl, rfl⟩)

omit [SteadyFetch β] in
theorem onUnit (vector : VectorNumber) (change : Fpu → Option (α × Fpu)) :
    Action.Transparent (fun _ _ => MachineM.onUnit vector change) a := by
  refine M68k.Transparent.congr (fun _ _ m => ?_)
    (.modify (fun c => Fpu.answer vector change c.fpu)
      (fun c => { c with fpu := Fpu.answered change c.fpu })
      (fun _ => ⟨rfl, rfl⟩) fun _ => ⟨rfl, rfl⟩)
  refine (onUnit_apply vector change m).trans ?_
  obtain ⟨⟨_, _, _, _, _, _, _, _, fpu, _, _, _, _, _, _, _, _, _⟩, bus⟩ := m
  cases fpu with
  | none => rfl
  | some fpu =>
    simp only [Fpu.answer, Fpu.answered, Option.map_some]
    cases change fpu <;> rfl

end Action.Transparent

/-- **Neither watching the bus nor reading ahead makes a difference** for what is composed of
elementary actions, wherever fetching is steady. -/
theorem Composed.transparent [Bus β] [SteadyFetch β] {α : Type} {model : Model} {grant : Grant}
    {x : Action α} (h : Composed model grant x) (a : Machine (Watched β))
    (known : a.cpu.model = model) : x.Transparent a := by
  induction h generalizing a with
  | pure r => exact M68k.Transparent.result (.ok r)
  | exception vector => exact M68k.Transparent.result (.error (Fault.exception vector))
  | trap vector => exact M68k.Transparent.result (.error (Fault.trap vector))
  | unfinished => exact M68k.Transparent.result (.error Fault.unfinished)
  | bind first _ ihx ihf => exact .bind (ihx a known) fun r => ihf r _ (first.model_eq a known)
  | cpu blind _ ih => exact .cpu (ih a.cpu known a known) blind
  | guarded _ ih =>
    refine .bind .requireSupervisor fun u => ?_
    rw [requireSupervisor_stays]
    exact ih u a known
  | spend | modifyRegisters | control | setStatus | setRunState =>
    exact .modifyCpu _ (fun _ => ⟨rfl, rfl⟩) fun _ => rfl
  | note notes blind =>
    exact .modifyCpu _ (fun _ => ⟨rfl, rfl⟩) fun c =>
      congrArg (c.setPrefetch false).noted (blind c)
  | onUnit vector => exact .onUnit vector _
  | requireSupervisor => exact .requireSupervisor
  | read size address =>
    exact .cpu (f := fun c β _ => MachineM.readIn c.dataCode size address) (.readIn _ size address)
      fun _ _ _ => rfl
  | readProgram size address =>
    exact .cpu (f := fun c β _ => MachineM.readIn c.programCode size address)
      (.readIn _ size address) fun _ _ _ => rfl
  | write size address value =>
    exact .cpu (f := fun c β _ => MachineM.writeIn c.dataCode size address value)
      (.writeIn _ size address value) fun _ _ _ => rfl
  | readIn space size address => exact .readIn space size address
  | writeIn space size address value => exact .writeIn space size address value
  | fetch => exact M68k.Transparent.fetch
  | jump target => exact M68k.Transparent.jump target
  | askIllegal opcode => exact .onBus (fun β _ => Bus.illegal opcode) fun _ => rfl
  | acknowledge level => exact .onBus (fun β _ => Bus.acknowledge level) fun _ => rfl
  | askLevel => exact .onBus (fun β _ => Bus.interruptLevel) fun _ => rfl
  | resetLine => exact .onBus (fun β _ b => ((), Bus.reset b)) fun _ => rfl

end M68k
