import M68k.Fp.Extended
import Mathlib.Tactic

/-!
# Results out of range are inexact

A result that is too large or too small for its format is never an exact one: overflow and
underflow are only raised together with `inexact`.  Rounding sees to that (`encode_shape` lists what
it can assemble), and since flags of consecutive steps are united, so does every operation.

* `Flags.includes_or` — what united flags include;
* `Raised.RangeInexact` — whether a result out of range is reported as inexact.
-/

namespace M68k

namespace Flags

/-- The flags, one bit each. -/
def all : List Flags := [invalid, divideByZero, overflow, underflow, inexact]

theorem includes_or {flag : Flags} (known : flag ∈ all) (a b : Flags) :
    (a ||| b).includes flag = (a.includes flag || b.includes flag) := by
  obtain ⟨i, bit⟩ : ∃ i, ∀ flags : Flags, flags.includes flag = flags.getLsbD i := by
    simp only [all, List.mem_cons, List.not_mem_nil, or_false] at known
    rcases known with rfl | rfl | rfl | rfl | rfl
    · exact ⟨0, by decide⟩
    · exact ⟨1, by decide⟩
    · exact ⟨2, by decide⟩
    · exact ⟨3, by decide⟩
    · exact ⟨4, by decide⟩
  rw [bit, bit, bit, BitVec.getLsbD_or]

/-- Whether flags call a result out of range inexact. -/
def RangeInexact (flags : Flags) : Prop :=
  flags.includes overflow = true ∨ flags.includes underflow = true →
    flags.includes inexact = true

instance (flags : Flags) : Decidable flags.RangeInexact := inferInstanceAs (Decidable (_ → _))

namespace RangeInexact

theorem none : Flags.none.RangeInexact := by decide

theorem or {a b : Flags} (ha : a.RangeInexact) (hb : b.RangeInexact) :
    (a ||| b).RangeInexact := by
  unfold RangeInexact at *
  rw [includes_or (by decide), includes_or (by decide), includes_or (by decide)]
  simp only [Bool.or_eq_true]
  tauto

theorem when (condition : Bool) {flag : Flags} (h : flag.RangeInexact) :
    (Flags.when condition flag).RangeInexact := by
  cases condition with
  | false => exact .none
  | true => exact h

end RangeInexact

end Flags

namespace Raised

variable {α β : Type}

/-- Whether a result out of range is reported as inexact. -/
def RangeInexact (r : Raised α) : Prop := r.flags.RangeInexact

namespace RangeInexact

@[grind .]
theorem pure (a : α) : (pure a : Raised α).RangeInexact := Flags.RangeInexact.none

@[grind .]
theorem bind {r : Raised α} {next : α → Raised β} (first : r.RangeInexact)
    (rest : ∀ a, (next a).RangeInexact) : (r >>= next).RangeInexact := first.or (rest _)

/-- Flags for which the format's range does not matter. -/
@[grind .]
theorem raise (value : α) (condition : Bool) {flag : Flags} (h : flag.RangeInexact) :
    RangeInexact ⟨value, Flags.when condition flag⟩ := h.when condition

end RangeInexact

end Raised

namespace Fp

variable {f : Format} (env : Environment)

/-- What rounding assembles: the result of an overflow, or fields under an exponent of numbers. -/
theorem encode_shape (p : ℕ) (sign : Bool) (x : Magnitude) :
    encode f env p sign x = overflow f env.rounding p sign ∨
      ∃ (exponent significand : ℕ) (inexact tiny : Bool), exponent < f.exponentMax ∧
        encode f env p sign x = ⟨ofFields f sign exponent significand,
          Flags.when inexact Flags.inexact |||
            Flags.when (inexact && tiny) Flags.underflow⟩ := by
  unfold encode
  dsimp only
  generalize carried : (if env.rounding.round sign
      (x.split (max x.lead (leastLead f) - (p - 1 : ℕ))) = Nat.pow 2 p then _ else _) = kept
  have least : leastLead f ≤ kept.2 := by
    rw [← carried]
    split <;> dsimp only <;> omega
  generalize chosen :
    (if kept.1 < Nat.pow 2 (p - 1) then (0 : ℤ) else kept.2 + f.bias) = exponent
  have nonneg : 0 ≤ exponent := by
    rw [← chosen]
    simp only [leastLead] at least
    split <;> omega
  by_cases large : (f.exponentMax : ℤ) ≤ exponent
  · exact .inl (if_pos large)
  · rw [if_neg large]
    exact .inr ⟨_, _, _, _, by omega, rfl⟩

@[grind .]
theorem rangeInexact_encode (p : ℕ) (sign : Bool) (x : Magnitude) :
    (encode f env p sign x).RangeInexact := by
  obtain shape | ⟨exponent, significand, inexact, tiny, -, shape⟩ :=
    encode_shape (f := f) env p sign x
  · rw [shape]
    show (Flags.overflow ||| Flags.inexact).RangeInexact
    decide
  · rw [shape]
    show Flags.RangeInexact
      (Flags.when inexact Flags.inexact ||| Flags.when (inexact && tiny) Flags.underflow)
    cases inexact <;> cases tiny <;> decide

@[grind .]
theorem rangeInexact_encodeDyadic (p : ℕ) (zeroSign : Bool) (c e : ℤ) :
    (encodeDyadic f env p zeroSign c e).RangeInexact := by
  unfold encodeDyadic
  split
  · exact .pure _
  · exact rangeInexact_encode env _ _ _

@[grind .]
theorem rangeInexact_invalid : (invalid f).RangeInexact := .raise _ true (by decide)

section Operations

variable (a b : Fp f)

@[grind .]
theorem rangeInexact_propagateNaN : (propagateNaN a b).RangeInexact := .raise _ _ (by decide)

@[grind .]
theorem rangeInexact_add : (add env a b).RangeInexact := by
  unfold add addFinite
  grind

theorem rangeInexact_sub : (sub env a b).RangeInexact := by
  unfold sub
  grind

theorem rangeInexact_mul : (mul env a b).RangeInexact := by
  unfold mul
  grind

theorem rangeInexact_div : (div env a b).RangeInexact := by
  have pole (value : Fp f) : Raised.RangeInexact ⟨value, Flags.divideByZero⟩ :=
    .raise value true (by decide)
  unfold div
  grind

theorem rangeInexact_sqrt : (sqrt env a).RangeInexact := by
  unfold sqrt
  grind

theorem rangeInexact_remainder (nearest : Bool) : (remainder env nearest a b).RangeInexact := by
  unfold remainder
  grind

@[grind .]
theorem rangeInexact_roundToIntegral (mode : RoundingMode) :
    (roundToIntegral env mode a).RangeInexact := by
  have inexact (condition : Bool) :
      (Raised.raise (Flags.when condition Flags.inexact)).RangeInexact :=
    .raise _ _ (by decide)
  unfold roundToIntegral
  grind

theorem rangeInexact_toInt (width : ℕ) (mode : RoundingMode) :
    (toInt width mode a).RangeInexact := by
  have invalid (n : ℤ) : Raised.RangeInexact ⟨n, Flags.invalid⟩ := .raise n true (by decide)
  have inexact (n : ℤ) (condition : Bool) :
      Raised.RangeInexact ⟨n, Flags.when condition Flags.inexact⟩ := .raise n _ (by decide)
  unfold toInt
  grind

theorem rangeInexact_convert (g : Format) : (convert g env a).RangeInexact := by
  have nan : (convertNaN g a).RangeInexact := .raise _ _ (by decide)
  unfold convert
  grind

theorem rangeInexact_compareWith (signaling : Bool) :
    (compareWith signaling a b).RangeInexact := by
  unfold compareWith
  split
  · exact .raise _ _ (by decide)
  · exact .pure _

end Operations

end Fp

namespace Extended

open Fp

variable (env : Environment) (x : Extended)

@[grind .]
theorem rangeInexact_roundToPrecision : (roundToPrecision env x).RangeInexact := by
  unfold roundToPrecision
  grind

@[grind .]
theorem rangeInexact_scale (n : ℤ) : (scale env x n).RangeInexact := by
  unfold scale
  grind

theorem rangeInexact_getExponent : (getExponent env x).RangeInexact := by
  unfold getExponent ofInt
  grind

theorem rangeInexact_getMantissa : (getMantissa env x).RangeInexact := by
  unfold getMantissa
  grind

end Extended

end M68k
