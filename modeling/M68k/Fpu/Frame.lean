import M68k.Fpu.State
import M68k.Text.Hex

/-!
# State frames

A state frame starts with a long word that names the version of the unit and the size of the rest. A
unit that has done nothing since its reset saves the null frame, and restoring a null frame resets
the unit.  Idle frames carry no state of their own, their body is zero.

* `restore_save` — a unit accepts the frames it saves, with the size that follows the header.
-/

namespace M68k

namespace Fpu

/-- A frame header that the unit cannot have written. -/
inductive FrameError where
  | unrecognized (header : BitVec 32)
  deriving DecidableEq, Repr

/-- The message for a frame error. -/
def FrameError.message : FrameError → String
  | unrecognized header => "unrecognised FPU state frame header " ++ Text.prefixedHex 8 header.toNat

/-- The version byte in the frames of a model. -/
def Model.version : Model → BitVec 8
  | mc68881 | mc68882 => 0x1F
  | mc68040 => 0x41

/-- The size in bytes of an idle frame's body. -/
def Model.idleSize : Model → Nat
  | mc68881 => 0x18
  | mc68882 => 0x38
  | mc68040 => 0

/-- The body sizes that a model accepts. -/
def Model.acceptedSizes : Model → List Nat
  | mc68881 | mc68882 => [0x18, 0x38, 0xB4, 0xD4]
  | mc68040 => [0x00, 0x28, 0x60]

/-- The long words of the frame that saves the unit, header first. -/
def save (fpu : Fpu) : List (BitVec 32) :=
  if fpu.justReset then [0]
  else
    (fpu.model.version ++ BitVec.ofNat 8 fpu.model.idleSize ++ 0#16)
      :: List.replicate (fpu.model.idleSize / 4) 0

/-- Restores from a frame with the given header: the number of bytes that follow, and the unit
afterwards. -/
def restore (fpu : Fpu) (header : BitVec 32) : Except FrameError (Nat × Fpu) :=
  let version := header.extractLsb' 24 8
  let size := (header.extractLsb' 16 8).toNat
  if version = 0 then .ok (0, fpu.reset)
  else if version = fpu.model.version ∧ size ∈ fpu.model.acceptedSizes then
    .ok (size, { fpu with justReset := false })
  else .error (.unrecognized header)

/-- A unit that is not just reset accepts its own frame and stays as it is; the size that follows
the header is that of the rest of the frame. -/
theorem restore_save (fpu : Fpu) (h : fpu.justReset = false) :
    ∃ header body, fpu.save = header :: body ∧
      fpu.restore header = .ok (4 * body.length, fpu) := by
  obtain ⟨model, _, _, _, _, justReset⟩ := fpu
  subst h
  refine ⟨_, _, rfl, ?_⟩
  cases model <;> simp [restore, Model.version, Model.idleSize, Model.acceptedSizes]

end Fpu

end M68k
