import M68k.Proofs.Cpu.Ram
import M68k.Proofs.Cpu.SupervisorEntry
import M68k.Proofs.Cpu.Unwinding

/-!
# Frames in memory

The words of a frame, written one after the other, are read back as they were written, even where
addresses wrap around; all other bytes stay as they are.

* `word_putWords`, `putWords_of_not_covers` — the words of a frame, and what is around it;
* `pushFrame_ram` — pushing a frame in a memory.
-/

namespace M68k

/-- The bytes after words were written from an address on. -/
def Bytes.putWords (model : Model) (bytes : Bytes) : BitVec 32 → List (BitVec 16) → Bytes
  | _, [] => bytes
  | address, word :: rest =>
    putWords model (bytes.putWord (model.place address) word) (address + 2) rest

/-- Whether a byte belongs to one of so many words from an address on. -/
def Model.Covers (model : Model) (address : BitVec 32) (count : Nat) (byte : BitVec 32) : Prop :=
  ∃ i < count, byte = model.place (address + BitVec.ofNat 32 (2 * i)) ∨
    byte = model.place (address + BitVec.ofNat 32 (2 * i)) + 1

instance (model : Model) (address : BitVec 32) (count : Nat) (byte : BitVec 32) :
    Decidable (model.Covers address count byte) :=
  inferInstanceAs (Decidable (∃ i < count, byte = model.place (address + BitVec.ofNat 32 (2 * i)) ∨
    byte = model.place (address + BitVec.ofNat 32 (2 * i)) + 1))

namespace Bytes

theorem putWord_self (bytes : Bytes) (address : BitVec 32) (value : BitVec 16) :
    (bytes.putWord address value).word address = value := by
  have next : address + 1 ≠ address := fun same => by
    have := congrArg BitVec.toNat same
    rw [BitVec.toNat_add, show (1 : BitVec 32).toNat = 1 from rfl] at this
    omega
  simp only [word, putWord, put, if_pos, if_neg next]
  ext i hi
  simp only [BitVec.getElem_append, BitVec.getElem_extractLsb']
  by_cases low : i < 8
  · simp [low, BitVec.getLsbD_eq_getElem hi]
  · simp [low, show 8 + (i - 8) = i by omega, BitVec.getLsbD_eq_getElem hi]

theorem putWord_of_ne (bytes : Bytes) {address byte : BitVec 32} (value : BitVec 16)
    (first : byte ≠ address) (second : byte ≠ address + 1) :
    bytes.putWord address value byte = bytes byte := by
  simp only [putWord, put, if_neg first.symm, if_neg second.symm]

variable (model : Model)

theorem succ_offset (address : BitVec 32) (i : Nat) :
    address + 2 + BitVec.ofNat 32 (2 * i) = address + BitVec.ofNat 32 (2 * (i + 1)) := by
  rw [BitVec.add_assoc]
  congr 1
  apply BitVec.eq_of_toNat_eq
  simp [BitVec.toNat_add, Nat.mul_add, Nat.add_comm]

/-- Words leave alone what they do not cover. -/
theorem putWords_of_not_covers (words : List (BitVec 16)) (bytes : Bytes) (address : BitVec 32)
    {byte : BitVec 32} (outside : ¬model.Covers address words.length byte) :
    bytes.putWords model address words byte = bytes byte := by
  induction words generalizing bytes address with
  | nil => rfl
  | cons word rest ih =>
    have apart : byte ≠ model.place address ∧ byte ≠ model.place address + 1 := by
      have start : address + BitVec.ofNat 32 (2 * 0) = address := BitVec.add_zero address
      constructor
      · exact fun same => outside ⟨0, by simp, .inl (start.symm ▸ same)⟩
      · exact fun same => outside ⟨0, by simp, .inr (start.symm ▸ same)⟩
    rw [putWords, ih, putWord_of_ne _ _ apart.1 apart.2]
    rintro ⟨i, hi, covered⟩
    rw [succ_offset] at covered
    exact outside ⟨i + 1, Nat.succ_lt_succ hi, covered⟩

/-- Where the words of a frame are, as numbers: even ones below two to the 24th, or any. -/
theorem toNat_place_offset {address : BitVec 32}
    (even : model.capabilities.misalignedData = false → address.toNat % 2 = 0) :
    (address.toNat % 2 = 0 ∧ ∀ i < 64,
      (model.place (address + BitVec.ofNat 32 (2 * i))).toNat =
        (address.toNat + 2 * i) % 16777216) ∨
    ∀ i < 64, (model.place (address + BitVec.ofNat 32 (2 * i))).toNat =
      (address.toNat + 2 * i) % 4294967296 := by
  have sum (i : Nat) (hi : i < 64) : (address + BitVec.ofNat 32 (2 * i)).toNat =
      (address.toNat + 2 * i) % 4294967296 := by
    rw [BitVec.toNat_add, BitVec.toNat_ofNat]
    omega
  cases lines : model.capabilities.addressBus32 with
  | true =>
    refine .inr fun i hi => ?_
    rw [model.place_of_lines lines, sum i hi]
  | false =>
    have early : model.capabilities.misalignedData = false := by
      cases model <;> first | rfl | exact nomatch lines
    refine .inl ⟨even early, fun i hi => ?_⟩
    rw [Model.toNat_place lines, sum i hi]
    omega

/-- Words at different places of a frame have no byte in common. -/
theorem place_apart {address : BitVec 32} {i j : Nat}
    (even : model.capabilities.misalignedData = false → address.toNat % 2 = 0)
    (hi : i < 64) (hj : j < 64) (ne : i ≠ j) :
    (model.place (address + BitVec.ofNat 32 (2 * i)) ≠
        model.place (address + BitVec.ofNat 32 (2 * j)) ∧
      model.place (address + BitVec.ofNat 32 (2 * i)) ≠
        model.place (address + BitVec.ofNat 32 (2 * j)) + 1) ∧
    (model.place (address + BitVec.ofNat 32 (2 * i)) + 1 ≠
        model.place (address + BitVec.ofNat 32 (2 * j)) ∧
      model.place (address + BitVec.ofNat 32 (2 * i)) + 1 ≠
        model.place (address + BitVec.ofNat 32 (2 * j)) + 1) := by
  have places := toNat_place_offset model even
  simp only [ne_eq, ← BitVec.toNat_inj, BitVec.toNat_add, show (1 : BitVec 32).toNat = 1 from rfl]
  rcases places with ⟨parity, at_⟩ | at_
  · rw [at_ i hi, at_ j hj]
    omega
  · rw [at_ i hi, at_ j hj]
    omega

/-- The words of a frame are read back. -/
theorem word_putWords (words : List (BitVec 16)) (bytes : Bytes) (address : BitVec 32)
    (even : model.capabilities.misalignedData = false → address.toNat % 2 = 0)
    (short : words.length < 64) {i : Nat} (hi : i < words.length) :
    (bytes.putWords model address words).word
      (model.place (address + BitVec.ofNat 32 (2 * i))) = words[i] := by
  induction words generalizing bytes address i with
  | nil => exact nomatch hi
  | cons word rest ih =>
    have even' : model.capabilities.misalignedData = false → (address + 2).toNat % 2 = 0 := by
      intro early
      rw [BitVec.toNat_add, show (2 : BitVec 32).toNat = 2 from rfl]
      have := even early
      omega
    have short' : rest.length < 64 := Nat.lt_of_succ_lt short
    cases i with
    | succ i =>
      rw [← succ_offset, putWords]
      exact ih _ _ even' short' (Nat.lt_of_succ_lt_succ hi)
    | zero =>
      have start : address + BitVec.ofNat 32 (2 * 0) = address := BitVec.add_zero address
      have apart {k : Nat} (hk : k < rest.length) :=
        place_apart model (i := 0) (j := k + 1) even (by decide) (by omega) (by omega)
      rw [start] at apart
      have first : ¬model.Covers (address + 2) rest.length (model.place address) := by
        rintro ⟨k, hk, covered⟩
        rw [succ_offset] at covered
        exact covered.elim (apart hk).1.1 (apart hk).1.2
      have second : ¬model.Covers (address + 2) rest.length (model.place address + 1) := by
        rintro ⟨k, hk, covered⟩
        rw [succ_offset] at covered
        exact covered.elim (apart hk).2.1 (apart hk).2.2
      rw [start, putWords, Bytes.word, putWords_of_not_covers model rest _ _ first,
        putWords_of_not_covers model rest _ _ second]
      exact putWord_self bytes (model.place address) word

end Bytes

variable {β : Type} [RamBus β]

namespace MachineM

/-- Writing words one after the other. -/
theorem writeWords_ram (words : List (BitVec 16)) (m : Machine β) (top : BitVec 32)
    (even : m.cpu.model.capabilities.misalignedData = false → top.toNat % 2 = 0) :
    ∃ m', writeWords top words m = (.ok (), m') ∧
      m.Becomes m.cpu.registers ((RamBus.bytes m.bus).putWords m.cpu.model top words) m' := by
  induction words generalizing m top with
  | nil => exact ⟨m, rfl, rfl, rfl, rfl, rfl⟩
  | cons word rest ih =>
    obtain ⟨m₁, writes, first⟩ := writeIn_ram m .supervisorData .word top (word.setWidth 32) even
    have even' : m₁.cpu.model.capabilities.misalignedData = false → (top + 2).toNat % 2 = 0 := by
      intro early
      rw [first.model] at early
      rw [BitVec.toNat_add, show (2 : BitVec 32).toNat = 2 from rfl]
      have := even early
      omega
    obtain ⟨m', writes', second⟩ := ih m₁ (top + 2) even'
    have stored : (RamBus.bytes m.bus).store (m.cpu.model.place top)
        (Size.word.truncate (word.setWidth 32)) .word =
          (RamBus.bytes m.bus).putWord (m.cpu.model.place top) word := by
      show Bytes.putWord _ _ ((((word.setWidth 32).setWidth 16).setWidth 32).extractLsb' 0 16) = _
      congr 1
      ext i hi
      simp [show i < 32 by omega, BitVec.getLsbD_eq_getElem hi]
    refine ⟨m', ?_, ?_⟩
    · rw [writeWords, bind_ok writes]
      exact writes'
    · have both := first.trans second
      rw [first.registers, first.bytes, first.model, stored] at both
      exact both

/-- Pushing a frame writes its words below the stack pointer. -/
theorem pushFrame_ram (format : FrameFormat) (vector : VectorNumber) (sr : StatusRegister)
    (returnAddress : BitVec 32) (access : Option AccessFault) (m : Machine β) {top : BitVec 32}
    (below : m.cpu.registers.sp - BitVec.ofNat 32 (2 * format.words) = top)
    (even : m.cpu.model.capabilities.misalignedData = false → top.toNat % 2 = 0) :
    ∃ m', pushFrame format vector sr returnAddress access m = (.ok (), m') ∧
      m.Becomes (m.cpu.registers.setSp top)
        ((RamBus.bytes m.bus).putWords m.cpu.model top
          (FrameContext.contents
            ⟨m.cpu.opcode, m.cpu.registers.ppc, vector, sr, returnAddress, access⟩ format)) m' := by
  subst below
  obtain ⟨m₁, writes, written⟩ := writeWords_ram
    (FrameContext.contents ⟨m.cpu.opcode, m.cpu.registers.ppc, vector, sr, returnAddress, access⟩
      format) m (m.cpu.registers.sp - BitVec.ofNat 32 (2 * format.words)) even
  refine ⟨m₁.withRegisters (m₁.cpu.registers.setSp
      (m.cpu.registers.sp - BitVec.ofNat 32 (2 * format.words))),
    ?_, ?_, written.model, written.runState, written.bytes⟩
  · unfold pushFrame
    rw [bind_ok (cpu_apply m), bind_ok writes]
    exact setSp_apply m₁ _
  · exact congrArg (fun r : Registers => r.setSp _) written.registers

end MachineM

/-- The layouts that a return undoes: the short one on the first model, those with a format word on
the others. -/
def FrameFormat.IsReturnable (format : FrameFormat) (family : FrameFamily) : Prop :=
  if family = .f68000 then format = .short
  else format ∈ [format0, format1, format2, format7, format8, formatB]

/-- What a return discards of a frame with a format word that does not lead on. -/
theorem FrameFormat.IsReturnable.discards {format : FrameFormat} {family : FrameFamily}
    (known : format.IsReturnable family) (late : family ≠ .f68000) (last : format ≠ .format1) :
    format.code ≠ 1 ∧ discardedWords? format.code = some (format.words - 4) ∧
      8 + 2 * (format.words - 4) = 2 * format.words := by
  rw [IsReturnable, if_neg late] at known
  cases format with
  | short | group0 => simp at known
  | format1 => exact absurd rfl last
  | format0 | format2 | format7 | format8 | formatB => exact ⟨by decide, rfl, rfl⟩

namespace FrameContext

variable (ctx : FrameContext)

/-- The words that a return looks at. -/
theorem contents_start {format : FrameFormat} {family : FrameFamily}
    (known : format.IsReturnable family) :
    (ctx.contents format)[0]? = some ctx.sr ∧
      (ctx.contents format)[1]? = some (ctx.returnAddress.extractLsb' 16 16) ∧
      (ctx.contents format)[2]? = some (ctx.returnAddress.extractLsb' 0 16) ∧
      (family ≠ .f68000 → (ctx.contents format)[3]? = some (ctx.formatWord format)) := by
  unfold FrameFormat.IsReturnable at known
  split at known
  · subst known
    exact ⟨rfl, rfl, rfl, fun late => absurd ‹_› late⟩
  · cases format <;> first | exact ⟨rfl, rfl, rfl, fun _ => rfl⟩ | simp at known

/-- The code of the layout, in a format word that was read. -/
theorem extractLsb'_formatWord (format : FrameFormat) :
    ((ctx.formatWord format).setWidth 32).extractLsb' 12 4 = format.code := by
  ext i hi
  rw [BitVec.getElem_extractLsb', BitVec.getLsbD_setWidth, formatWord, BitVec.getLsbD_append,
    if_neg (by omega), show 12 + i - (2 + 8 + 2) = i by omega, BitVec.getLsbD_eq_getElem hi]
  simp [show 12 + i < 32 by omega]

theorem pair_append (value : BitVec 32) :
    value.extractLsb' 16 16 ++ value.extractLsb' 0 16 = value := by
  ext i hi
  simp only [BitVec.getElem_append, BitVec.getElem_extractLsb']
  by_cases low : i < 16
  · simp [low, BitVec.getLsbD_eq_getElem hi]
  · simp [low, show 16 + (i - 16) = i by omega, BitVec.getLsbD_eq_getElem hi]

end FrameContext

/-- The frame that is on top of the stack. -/
def Machine.HasFrame (m : Machine β) (ctx : FrameContext) (format : FrameFormat) : Prop :=
  ∀ i word, (ctx.contents format)[i]? = some word →
    (RamBus.bytes m.bus).word
      (m.cpu.model.place (m.cpu.registers.sp + BitVec.ofNat 32 (2 * i))) = word

namespace Machine.HasFrame

variable {m m' : Machine β} {ctx : FrameContext} {format : FrameFormat}

/-- A frame that was written is on top of the stack. -/
theorem of_putWords {bytes : Bytes}
    (even : m.cpu.model.capabilities.misalignedData = false → m.cpu.registers.sp.toNat % 2 = 0)
    (written : RamBus.bytes m.bus =
      bytes.putWords m.cpu.model m.cpu.registers.sp (ctx.contents format)) :
    m.HasFrame ctx format := by
  intro i word found
  obtain ⟨hi, rfl⟩ := List.getElem?_eq_some_iff.mp found
  have short : (ctx.contents format).length < 64 := by
    have := format.words_le
    rw [ctx.length_contents]
    omega
  rw [written, Bytes.word_putWords m.cpu.model _ _ _ even short hi]

end Machine.HasFrame

/-- A frame on top of the stack from which a return can be made. -/
structure Machine.Unwindable (m : Machine β) (ctx : FrameContext) (format : FrameFormat) :
    Prop where
  frame : m.HasFrame ctx format
  known : format.IsReturnable m.cpu.capabilities.frames
  even : m.cpu.model.capabilities.misalignedData = false → m.cpu.registers.sp.toNat % 2 = 0
  /-- The words of the return address are next to each other on the bus. -/
  adjacent : m.cpu.model.place (m.cpu.registers.sp + 2) + 2 =
    m.cpu.model.place (m.cpu.registers.sp + 4)
  target : ctx.returnAddress.toNat % 2 = 0

namespace Machine.Unwindable

variable {m m' : Machine β} {ctx : FrameContext} {format : FrameFormat}

/-- A frame stays as long as its bytes do. -/
theorem kept (h : m.Unwindable ctx format) (model : m'.cpu.model = m.cpu.model)
    (top : m'.cpu.registers.sp = m.cpu.registers.sp)
    (same : ∀ byte, m.cpu.model.Covers m.cpu.registers.sp format.words byte →
      RamBus.bytes m'.bus byte = RamBus.bytes m.bus byte) : m'.Unwindable ctx format := by
  refine ⟨?_, ?_, ?_, ?_, h.target⟩
  · intro i word found
    have hi : i < format.words := by
      obtain ⟨hi, -⟩ := List.getElem?_eq_some_iff.mp found
      rwa [ctx.length_contents] at hi
    rw [← h.frame i word found, model, top, Bytes.word, Bytes.word, same _ ⟨i, hi, .inl rfl⟩,
      same _ ⟨i, hi, .inr rfl⟩]
  · rw [Cpu.capabilities_congr model]
    exact h.known
  · rw [model, top]
    exact h.even
  · rw [model, top]
    exact h.adjacent

theorem sr_eq (h : m.Unwindable ctx format) :
    (RamBus.bytes m.bus).word (m.cpu.model.place m.cpu.registers.sp) = ctx.sr := by
  have word := h.frame 0 _ (ctx.contents_start h.known).1
  rwa [show m.cpu.registers.sp + BitVec.ofNat 32 (2 * 0) = _ from BitVec.add_zero _] at word

theorem returnAddress_eq (h : m.Unwindable ctx format) :
    (RamBus.bytes m.bus).long (m.cpu.model.place (m.cpu.registers.sp + 2)) =
      ctx.returnAddress := by
  obtain ⟨-, second, third, -⟩ := ctx.contents_start h.known
  have high : (RamBus.bytes m.bus).word (m.cpu.model.place (m.cpu.registers.sp + 2)) = _ :=
    h.frame 1 _ second
  have low : (RamBus.bytes m.bus).word (m.cpu.model.place (m.cpu.registers.sp + 4)) = _ :=
    h.frame 2 _ third
  rw [Bytes.long, h.adjacent, high, low, FrameContext.pair_append]

theorem formatWord_eq (h : m.Unwindable ctx format) (late : m.cpu.capabilities.frames ≠ .f68000) :
    (RamBus.bytes m.bus).word (m.cpu.model.place (m.cpu.registers.sp + 6)) =
      ctx.formatWord format :=
  h.frame 3 _ ((ctx.contents_start h.known).2.2.2 late)

theorem even_add (h : m.Unwindable ctx format) {offset : BitVec 32} (even : offset.toNat % 2 = 0)
    (early : m.cpu.model.capabilities.misalignedData = false) :
    (m.cpu.registers.sp + offset).toNat % 2 = 0 := by
  rw [BitVec.toNat_add]
  have := h.even early
  omega

end Machine.Unwindable

/-- There is room for a frame below the stack pointer. -/
structure Machine.HasRoom (m : Machine β) (format : FrameFormat) (top : BitVec 32) : Prop where
  below : m.cpu.registers.sp - BitVec.ofNat 32 (2 * format.words) = top
  even : m.cpu.model.capabilities.misalignedData = false → top.toNat % 2 = 0
  adjacent : m.cpu.model.place (top + 2) + 2 = m.cpu.model.place (top + 4)

omit [RamBus β] in
/-- The later models have room for a frame everywhere. -/
theorem Machine.HasRoom.of_late {m : Machine β} (late : m.cpu.capabilities.masterState = true)
    (format : FrameFormat) :
    m.HasRoom format (m.cpu.registers.sp - BitVec.ofNat 32 (2 * format.words)) := by
  have lines : m.cpu.model.capabilities.addressBus32 = true ∧
      m.cpu.model.capabilities.misalignedData = true := by
    rw [Cpu.capabilities_eq] at late
    generalize m.cpu.model = model at late ⊢
    cases model <;> first | exact ⟨rfl, rfl⟩ | exact nomatch late
  refine ⟨rfl, fun early => (nomatch early.symm.trans lines.2), ?_⟩
  rw [Model.place_of_lines lines.1, Model.place_of_lines lines.1, BitVec.add_assoc]
  rfl

namespace MachineM

/-- A frame that was pushed can be returned from, and the bytes around it are as they were. -/
theorem pushFrame_unwindable {m : Machine β} {format : FrameFormat} {top : BitVec 32}
    (room : m.HasRoom format top) (known : format.IsReturnable m.cpu.capabilities.frames)
    (vector : VectorNumber) (sr : StatusRegister) {returnAddress : BitVec 32}
    (target : returnAddress.toNat % 2 = 0) (access : Option AccessFault) :
    ∃ m', pushFrame format vector sr returnAddress access m = (.ok (), m') ∧
      m.Becomes (m.cpu.registers.setSp top) (RamBus.bytes m'.bus) m' ∧
      (∀ byte, ¬m.cpu.model.Covers top format.words byte →
        RamBus.bytes m'.bus byte = RamBus.bytes m.bus byte) ∧
      m'.Unwindable ⟨m.cpu.opcode, m.cpu.registers.ppc, vector, sr, returnAddress, access⟩
        format := by
  obtain ⟨m', pushes, pushed⟩ :=
    pushFrame_ram format vector sr returnAddress access m room.below room.even
  have sp : m'.cpu.registers.sp = top := by
    rw [pushed.registers, Registers.sp_setSp]
  have even : m'.cpu.model.capabilities.misalignedData = false →
      m'.cpu.registers.sp.toNat % 2 = 0 := by
    rw [pushed.model, sp]
    exact room.even
  refine ⟨m', pushes, ⟨pushed.registers, pushed.model, pushed.runState, rfl⟩, ?_, ?_, ?_, even, ?_,
    target⟩
  · intro byte outside
    rw [pushed.bytes]
    rw [← FrameContext.length_contents ⟨m.cpu.opcode, m.cpu.registers.ppc, vector, sr,
      returnAddress, access⟩ format] at outside
    exact Bytes.putWords_of_not_covers m.cpu.model _ _ _ outside
  · exact .of_putWords even (by rw [pushed.bytes, pushed.model, sp])
  · rw [Cpu.capabilities_congr pushed.model]
    exact known
  · rw [pushed.model, sp]
    exact room.adjacent

theorem jump_of_even (m : Machine β) {target : BitVec 32} (even : target.toNat % 2 = 0) :
    jump target m =
      (.ok (), ⟨{ m.cpu.setPc target with flowChanged := true }, Bus.pcChanged target m.bus⟩) := by
  have low : target.getLsbD 0 = false := by
    rw [BitVec.getLsbD, Nat.testBit_zero, even]
    rfl
  rw [jump_apply, if_neg (by rw [low]; exact Bool.false_ne_true)]

/-- A handler is entered at the address in the vector table. -/
theorem jumpToHandler_ram (m : Machine β) (vector : VectorNumber) {handler : BitVec 32}
    (table : m.cpu.model.capabilities.misalignedData = false →
      (m.cpu.vectorBase + vector.setWidth 32 <<< 2).toNat % 2 = 0)
    (entry : (RamBus.bytes m.bus).long (m.cpu.vectorPlace vector) = handler)
    (present : handler ≠ 0) (even : handler.toNat % 2 = 0) :
    ∃ m', jumpToHandler vector m = (.ok (), m') ∧
      m.Becomes { m.cpu.registers with pc := handler } (RamBus.bytes m.bus) m' ∧
      m'.cpu.prefetched = none := by
  obtain ⟨m₁, reads, same⟩ := readIn_ram m .supervisorData .long _ table
  have found : readVector m.cpu.vectorBase vector m = (.ok handler, m₁) := by
    rw [← entry]
    exact reads
  refine ⟨⟨{ m₁.cpu.setPc handler with flowChanged := true }, Bus.pcChanged handler m₁.bus⟩, ?_,
    ⟨?_, same.model, same.runState, ?_⟩, rfl⟩
  · unfold jumpToHandler
    rw [bind_ok (cpu_apply m)]
    refine (bind_ok found _).trans ?_
    rw [if_neg present]
    exact jump_of_even m₁ even
  · exact congrArg (fun r : Registers => { r with pc := handler }) same.registers
  · exact (RamBus.bytes_pcChanged _ _).trans same.bytes

/-- Going on behind a frame that was read. -/
theorem leave_ram (m : Machine β) (top : BitVec 32) (sr : StatusRegister) {target : BitVec 32}
    (even : target.toNat % 2 = 0) :
    ∃ m', (setSp top >>= fun _ => setStatus sr >>= fun _ => jump target >>= fun _ =>
        pure false : MachineM β Bool) m = (.ok false, m') ∧
      m.Becomes
        { (m.cpu.registers.setSp top).setStatus sr m.cpu.model.statusMask with pc := target }
        (RamBus.bytes m.bus) m' := by
  rw [bind_ok (setSp_apply m _), bind_ok (setStatus_apply _ _), bind_ok (jump_of_even _ even)]
  exact ⟨_, rfl, rfl, rfl, rfl, RamBus.bytes_pcChanged target m.bus⟩

/-- Reading the words of a frame that all layouts have. -/
theorem readStart_ram {m : Machine β} {ctx : FrameContext} {format : FrameFormat}
    (h : m.Unwindable ctx format) :
    ∃ m₁ m₂, read .word m.cpu.registers.sp m = (.ok (ctx.sr.setWidth 32), m₁) ∧
      read .long (m.cpu.registers.sp + 2) m₁ = (.ok ctx.returnAddress, m₂) ∧
      m.Becomes m.cpu.registers (RamBus.bytes m.bus) m₂ := by
  obtain ⟨m₁, first, same₁⟩ := readIn_ram m m.cpu.dataCode .word m.cpu.registers.sp h.even
  obtain ⟨m₂, second, same₂⟩ := readIn_ram m₁ m₁.cpu.dataCode .long (m.cpu.registers.sp + 2)
    (by rw [same₁.model]; exact h.even_add rfl)
  have both := same₁.trans same₂
  rw [same₁.registers, same₁.bytes] at both
  rw [Bytes.operand, h.sr_eq] at first
  rw [same₁.model, same₁.bytes, Bytes.operand, h.returnAddress_eq] at second
  exact ⟨m₁, m₂, first, second, both⟩

/-- A return takes a frame off the stack that it knows: the stack pointer and the status register
become what they were, and if the frame does not lead on, the program counter the return address. -/
theorem unwindOnce_ram (m : Machine β) {ctx : FrameContext} {format : FrameFormat}
    (h : m.Unwindable ctx format) :
    ∃ m', unwindOnce m = (.ok (format == .format1), m') ∧
      m.Becomes
        { (m.cpu.registers.setSp
              (m.cpu.registers.sp + BitVec.ofNat 32 (2 * format.words))).setStatus ctx.sr
            m.cpu.model.statusMask with
          pc := if format = .format1 then m.cpu.registers.pc else ctx.returnAddress }
        (RamBus.bytes m.bus) m' := by
  obtain ⟨m₁, m₂, first, second, both⟩ := readStart_ram h
  have status : (ctx.sr.setWidth 32).setWidth 16 = ctx.sr :=
    (BitVec.setWidth_setWidth_of_le _ (by decide)).trans (BitVec.setWidth_eq _)
  have capabilities : m₂.cpu.capabilities = m.cpu.capabilities :=
    Cpu.capabilities_congr both.model
  unfold unwindOnce
  rw [bind_ok (sp_apply m), bind_ok first, bind_ok second, bind_ok (capabilities_apply m₂),
    capabilities]
  dsimp only
  rw [status]
  by_cases early : m.cpu.capabilities.frames = .f68000
  · have known := h.known
    rw [FrameFormat.IsReturnable, if_pos early] at known
    subst known
    obtain ⟨m', leaves, last⟩ := leave_ram m₂ (m.cpu.registers.sp + 6) ctx.sr h.target
    rw [both.registers, both.model, both.bytes] at last
    rw [if_pos early]
    exact ⟨m', leaves, both.trans last⟩
  · obtain ⟨m₃, third, same₃⟩ := readIn_ram m₂ m₂.cpu.dataCode .word (m.cpu.registers.sp + 6)
      (by rw [both.model]; exact h.even_add rfl)
    have all := both.trans same₃
    rw [both.registers, both.bytes] at all
    rw [both.model, both.bytes, Bytes.operand, h.formatWord_eq early] at third
    rw [if_neg early, bind_ok ((read_apply m₂ _ _).trans third), ctx.extractLsb'_formatWord]
    by_cases throwaway : format = .format1
    · subst throwaway
      rw [if_pos (show FrameFormat.format1.code = 1 from rfl), bind_ok (setSp_apply m₃ _),
        bind_ok (setStatus_apply _ _)]
      refine ⟨_, rfl, all.trans ⟨?_, rfl, rfl, all.bytes⟩⟩
      have pc := (m.cpu.registers.sameSystem_setSp (m.cpu.registers.sp + 8)).pc
      show (m₃.cpu.registers.setSp _).setStatus _ m₃.cpu.model.statusMask = _
      rw [all.registers, all.model, if_pos rfl, ← pc]
      rfl
    · obtain ⟨notOne, discarded, size⟩ := h.known.discards early throwaway
      obtain ⟨m', leaves, last⟩ := leave_ram m₃
        (m.cpu.registers.sp + BitVec.ofNat 32 (2 * format.words)) ctx.sr h.target
      rw [all.registers, all.model, all.bytes] at last
      rw [if_neg notOne, discarded, if_neg throwaway,
        show (format == .format1) = false from beq_false_of_ne throwaway]
      dsimp only
      rw [size]
      exact ⟨m', leaves, all.trans last⟩

end MachineM

end M68k
