import M68k.Cpu.Property
import M68k.Proofs.Cpu.CallCourse

/-!
# Only bits that exist are ever set

`Cpu.Reached` holds of the processors that a host comes to, starting with a new one, by calls,
resets, and its own writes to registers, with any bus each time.  In all of them every register
keeps to the bits that the model has, and what is kept beside the model is that of the model.  The
one exception is the cache control register, which a switch of the model leaves alone: it keeps to
the bits of the model by which it was last changed.

* `Cpu.HostStep.implemented` — each step of a host respects this;
* `reached_implemented` — so all processors that a host comes to do.
-/

namespace M68k

/-- What a host does to a processor in one step. -/
inductive Cpu.HostStep (c : Cpu) : Cpu → Prop where
  | execute {β : Type} [Bus β] (host : Fpu.HostMath) (limit : Nat) (bus : β) :
      HostStep c (Machine.executeWithin host limit ⟨c, bus⟩).2.cpu
  | reset {β : Type} [Bus β] (bus : β) : HostStep c (Machine.reset ⟨c, bus⟩).cpu
  | resetTo (stack pc : BitVec 32) : HostStep c (c.resetTo stack pc)
  | setStatus (value : StatusRegister) : HostStep c (c.setStatus value)
  | setRegister (name : RegisterName) (value : BitVec 32) : HostStep c (c.setRegister name value)
  | setPrefetch (enabled : Bool) : HostStep c (c.setPrefetch enabled)
  | setModel (model : Model) : HostStep c (c.setModel model)

/-- The processors that a host comes to, with the model that each had when its cache control
register was last changed. -/
inductive Cpu.Reached : Cpu → Model → Prop where
  | new (model : Model) : Reached (Cpu.new model) model
  | step {c c' : Cpu} {writer : Model} (reached : Reached c writer) (does : c.HostStep c') :
      Reached c' (if c'.registers.cacr = c.registers.cacr then writer else c'.model)

/-- A processor whose registers have no bit that they lack, and whose unit, capabilities and masks
are those of its model. -/
structure Cpu.Implemented (c : Cpu) (writer : Model) : Prop where
  status : Within c.model.statusMask c.registers.sr
  sfc : (c.register .sfc).toNat < 8
  dfc : (c.register .dfc).toNat < 8
  cacr : Within writer.cacheControlMask c.registers.cacr
  capabilities : c.capabilities = c.model.capabilities
  addressMask : c.addressMask = c.model.addressMask
  statusMask : c.statusMask = c.model.statusMask
  /-- The first two models have 24 address lines, and neither master state nor trace on flow. -/
  masks : (c.addressMask, c.statusMask) =
    if c.model = .m68000 ∨ c.model = .m68010 then (0x00FFFFFF#32, 0xA71F#16)
    else (0xFFFFFFFF#32, 0xF71F#16)
  unit : c.fpu.map (·.model) = c.capabilities.fpu
  unitBits : ∀ fpu, c.fpu = some fpu → fpu.Masked

/-- Three bits are below eight. -/
theorem FunctionCode.toNat_setWidth_lt (code : BitVec 3) : (code.setWidth 32).toNat < 8 := by
  rw [BitVec.toNat_setWidth_of_le (by decide)]
  exact code.isLt

/-- A switch of the model leaves the cache control register alone. -/
theorem Cpu.cacr_setModel (c : Cpu) (model : Model) :
    (c.setModel model).registers.cacr = c.registers.cacr := by
  unfold Cpu.setModel
  dsimp only
  split <;> rfl

/-- The unit after a change of the model is of the kind that is wanted. -/
theorem Cpu.map_model_unitFor (wanted : Option Fpu.Model) (fpu : Option Fpu) :
    (unitFor wanted fpu).map (·.model) = wanted := by
  cases wanted with
  | none => rfl
  | some kind =>
    cases fpu with
    | none => rfl
    | some unit =>
      by_cases fits : unit.model = kind
      · simp [unitFor, fits]
      · simp [unitFor, fits, Fpu.new]

/-- The unit after a change of the model was there before, or it is new. -/
theorem Cpu.eq_of_unitFor {wanted : Option Fpu.Model} {fpu : Option Fpu} {fpu' : Fpu}
    (had : unitFor wanted fpu = some fpu') : fpu = some fpu' ∨ ∃ kind, fpu' = Fpu.new kind := by
  obtain ⟨kind, -, rfl⟩ := Option.map_eq_some_iff.mp had
  cases fpu with
  | none => exact .inr ⟨kind, rfl⟩
  | some unit =>
    dsimp only
    split
    · exact .inl rfl
    · exact .inr ⟨kind, rfl⟩

/-- The masks that are kept are those of the manuals. -/
theorem Cpu.masks_eq (c : Cpu) : (c.addressMask, c.statusMask) =
    if c.model = .m68000 ∨ c.model = .m68010 then (0x00FFFFFF#32, 0xA71F#16)
    else (0xFFFFFFFF#32, 0xF71F#16) := by
  rw [c.addressMask_eq, c.statusMask_eq]
  cases c.model <;> rfl

namespace Cpu.Implemented

variable {c c' : Cpu} {writer : Model}

theorem new (model : Model) : (Cpu.new model).Implemented model where
  status := by cases model <;> decide
  sfc := FunctionCode.toNat_setWidth_lt _
  dfc := FunctionCode.toNat_setWidth_lt _
  cacr := .zero _
  capabilities := rfl
  addressMask := rfl
  statusMask := rfl
  masks := (Cpu.new model).masks_eq
  unit := by
    show (model.capabilities.fpu.map Fpu.new).map (·.model) = model.capabilities.fpu
    cases model.capabilities.fpu <;> rfl
  unitBits fpu had := by
    obtain ⟨kind, -, rfl⟩ := Option.map_eq_some_iff.mp had
    exact Fpu.masked_new kind

/-- Nothing that keeps to the masks, and changes the unit as instructions do, sets a bit that is
not there. -/
theorem of_keepsMasks (h : c.Implemented writer) (model : c'.model = c.model)
    (registers : c.registers.KeepsMasks c.model c'.registers)
    (fpu : Fpu.Changes true c.fpu c'.fpu) :
    c'.Implemented (if c'.registers.cacr = c.registers.cacr then writer else c'.model) where
  status := model ▸ registers.status h.status
  sfc := FunctionCode.toNat_setWidth_lt _
  dfc := FunctionCode.toNat_setWidth_lt _
  cacr := by
    split
    next same => exact same ▸ h.cacr
    next changed => exact model ▸ registers.cacr.resolve_left changed
  capabilities := c'.capabilities_eq
  addressMask := c'.addressMask_eq
  statusMask := c'.statusMask_eq
  masks := c'.masks_eq
  unit := by rw [fpu.map_model, h.unit, capabilities_congr model]
  unitBits fpu' had := by
    rw [had] at fpu
    cases before : c.fpu with
    | none =>
      rw [before] at fpu
      cases fpu
    | some unit =>
      rw [before] at fpu
      exact fpu.masked (h.unitBits unit before)

/-- A reset clears the cache control register. -/
theorem resetTo (h : c.Implemented writer) (stack pc : BitVec 32) (model : Model) :
    (c.resetTo stack pc).Implemented model where
  status := by
    show Within c.model.statusMask StatusRegister.initial
    cases c.model <;> decide
  sfc := FunctionCode.toNat_setWidth_lt _
  dfc := FunctionCode.toNat_setWidth_lt _
  cacr := .zero _
  capabilities := h.capabilities
  addressMask := h.addressMask
  statusMask := h.statusMask
  masks := h.masks
  unit := by
    show (c.fpu.map Fpu.reset).map (·.model) = c.capabilities.fpu
    rw [← h.unit]
    cases c.fpu <;> rfl
  unitBits fpu had := by
    obtain ⟨unit, -, rfl⟩ := Option.map_eq_some_iff.mp had
    exact Fpu.masked_new _

/-- A switch of the model brings capabilities and masks up to date, cuts the status register, and
replaces a unit that does not fit. -/
theorem setModel (h : c.Implemented writer) (model : Model) :
    (c.setModel model).Implemented writer where
  status := .cut _ _
  sfc := FunctionCode.toNat_setWidth_lt _
  dfc := FunctionCode.toNat_setWidth_lt _
  cacr := by
    rw [c.cacr_setModel model]
    exact h.cacr
  capabilities := rfl
  addressMask := rfl
  statusMask := rfl
  masks := (c.setModel model).masks_eq
  unit := map_model_unitFor model.capabilities.fpu c.fpu
  unitBits fpu had := by
    rcases eq_of_unitFor had with kept | ⟨kind, rfl⟩
    · exact h.unitBits fpu kept
    · exact Fpu.masked_new kind

end Cpu.Implemented

/-- Every step of a host respects the bits that there are. -/
theorem Cpu.HostStep.implemented {c c' : Cpu} {writer : Model} (does : c.HostStep c')
    (h : c.Implemented writer) :
    c'.Implemented (if c'.registers.cacr = c.registers.cacr then writer else c'.model) := by
  -- steps that change nothing but registers
  have changes {c' : Cpu} (model : c'.model = c.model) (fpu : c'.fpu = c.fpu)
      (registers : c.registers.KeepsMasks c.model c'.registers) :=
    h.of_keepsMasks model registers (fpu ▸ .refl true _)
  cases does with
  | execute host limit bus =>
    have course := Machine.course_executeWithin host limit ⟨c, bus⟩
    exact h.of_keepsMasks course.model course.registers course.fpu
  | reset bus => exact h.resetTo _ _ _
  | resetTo stack pc => exact h.resetTo stack pc _
  | setStatus value =>
    refine changes rfl rfl ⟨fun _ => ?_, .inl rfl⟩
    rw [c.registers_setStatus]
    exact .cut _ _
  | setPrefetch enabled => exact changes rfl rfl (.of_eq rfl rfl)
  | setModel model =>
    rw [if_pos (c.cacr_setModel model)]
    exact h.setModel model
  | setRegister name value =>
    cases name with
    | data n => exact changes rfl rfl ((c.registers.sameSystem_setData n value).keepsMasks _)
    | address n => exact changes rfl rfl ((c.registers.sameSystem_setAddress n value).keepsMasks _)
    | sp => exact changes rfl rfl ((c.registers.sameSystem_setSp value).keepsMasks _)
    | sr =>
      refine changes rfl rfl ⟨fun _ => ?_, .inl rfl⟩
      rw [Cpu.setRegister, c.registers_setStatus]
      exact .cut _ _
    | cacr => exact changes rfl rfl ⟨id, .inr (.cut _ _)⟩
    | _ => exact changes rfl rfl (.of_eq rfl rfl)

/-- **Only bits that exist are ever set.**  In every processor that a host comes to by calls, resets
and writes to registers, status register, function codes and the registers of the floating-point
unit have no bit that the model lacks, and the unit, the capabilities and the masks are those of the
model.  The cache control register has no bit that was lacking in the model by which it was last
changed. -/
theorem reached_implemented {c : Cpu} {writer : Model} (reached : Cpu.Reached c writer) :
    c.Implemented writer := by
  induction reached with
  | new model => exact .new model
  | step _ does ih => exact does.implemented ih

/-- A processor that was switched to a model with other bits in the cache control register. -/
def switched : Cpu := ((Cpu.new .m68040).setRegister .cacr 0x80008000).setModel .m68020

theorem reached_switched : Cpu.Reached switched .m68040 :=
  .step (.step (.new .m68040) (.setRegister .cacr 0x80008000)) (.setModel .m68020)

/-- A second switch, to a model with narrower masks. -/
def switchedDown : Cpu := switched.setModel .m68000

theorem reached_switchedDown : Cpu.Reached switchedDown .m68040 :=
  .step reached_switched (.setModel .m68000)

theorem switched_implemented :
    Cpu.Reached switched .m68040 ∧ switched.Implemented .m68040 ∧
      (switched.addressMask, switched.statusMask) = (0xFFFFFFFF#32, 0xF71F#16) ∧
      Cpu.Reached switchedDown .m68040 ∧ switchedDown.Implemented .m68040 ∧
      (switchedDown.addressMask, switchedDown.statusMask) = (0x00FFFFFF#32, 0xA71F#16) :=
  ⟨reached_switched, reached_implemented reached_switched, by decide, reached_switchedDown,
    reached_implemented reached_switchedDown, by decide⟩

/-- The bits of the old model stay, although the new one lacks them. -/
theorem switched_cacr :
    (∃ writer, Cpu.Reached switched writer) ∧
      ¬Within switched.model.cacheControlMask switched.registers.cacr :=
  ⟨⟨.m68040, reached_switched⟩, by decide⟩

end M68k
