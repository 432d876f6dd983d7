import M68k.Proofs.Fp.CheckedArithmetic
import M68k.Proofs.Fp.CheckedConversion
import M68k.Proofs.Fp.StickyFlags

/-!
# Operations stay within their words

Computed in machine words, an operation has no result if a sum leaves its word, a shift is by the
width of its word or more, or a step is not given what it relies on.  None of this happens to an
operation on any operands in any environment, and the result is that of exact arithmetic rounded
once.

* `Operation.checked` — the operations in machine words;
* `roundPack_relies`, `shiftRightJamWide_relies` — what steps rely on;
* `operations_in_words` — the operations have results, which are the right ones.
-/

namespace M68k

namespace Fp

variable {α : Type}

/-- What an operation gives and raises in an environment, computed in machine words. -/
def Operation.checked (env : Environment) : Operation α → Option (Raised α)
  | add a b => Checked.add env a b
  | sub a b => Checked.sub env a b
  | mul a b => Checked.mul env a b
  | div a b => Checked.div env a b
  | sqrt a => Checked.sqrt env a
  | rem a b => (Checked.remainder env true a b).map fun r => ⟨r.value.value, r.flags⟩
  | remainder nearest a b => Checked.remainder env nearest a b
  | roundToInt a => Checked.roundToIntegral env env.rounding a
  | truncToInt a => Checked.roundToIntegral env .toZero a
  | toInt width mode a => Checked.toInt width (mode.getD env.rounding) a
  | ofInt f n => Checked.ofInt f env n
  | convert g a => Checked.convert g env a
  | compare signaling a b => Checked.compareWith signaling a b
  | test relation signaling a b =>
    (Checked.compareWith signaling a b).map fun r => ⟨r.value.any relation.admits, r.flags⟩
  | ofScaled sign mantissa exponent =>
    Checked.ofScaled env sign (BitVec.ofNat 128 mantissa) exponent
  | roundToPrecision x => Checked.roundToPrecision env x
  | scale x n => Checked.scale env x n
  | getExponent x => Checked.getExponent env x
  | getMantissa x => Checked.getMantissa env x

/-- The formats there are. -/
def formats : List Format := [binary32, binary64, extended80, binary128]

/-- Whether an operation is one of those that are offered: on the four formats, and on integers of
machine words. -/
def Operation.Offered : Operation α → Prop
  | add (f := f) _ _ | sub (f := f) _ _ | mul (f := f) _ _ | div (f := f) _ _ | sqrt (f := f) _
  | rem (f := f) _ _ | remainder (f := f) _ _ _ | roundToInt (f := f) _ | truncToInt (f := f) _
  | compare (f := f) _ _ _ | test (f := f) _ _ _ _ => f ∈ formats
  | toInt (f := f) width _ _ => f ∈ formats ∧ width ∈ [8, 16, 32, 64]
  | ofInt f n => f ∈ formats ∧ -2 ^ 63 ≤ n ∧ n < 2 ^ 63
  | convert (f := f) g _ => f ∈ formats ∧ g ∈ formats
  | ofScaled _ mantissa _ => mantissa < 2 ^ 128
  | roundToPrecision _ | scale _ _ | getExponent _ | getMantissa _ => True

/-- An operation that is offered has a result in machine words, which is the one that it is to
have. -/
theorem checked_eq_perform (operation : Operation α) (env : Environment)
    (offered : operation.Offered) : operation.checked env = some (operation.perform env) := by
  cases operation with
  | add a b => exact Checked.add_eq (Format.narrow_of_mem offered) env
  | sub a b => exact Checked.sub_eq (Format.narrow_of_mem offered) env
  | mul a b => exact Checked.mul_eq (Format.narrow_of_mem offered) env a b
  | div a b => exact Checked.div_eq (Format.narrow_of_mem offered) env a b
  | sqrt a => exact Checked.sqrt_eq (Format.narrow_of_mem offered) env a
  | rem a b =>
    rw [Operation.checked, Checked.remainder_eq (Format.narrow_of_mem offered)]
    exact congrArg (fun flags => some (Raised.mk _ flags)) BitVec.or_zero.symm
  | remainder nearest a b =>
    exact Checked.remainder_eq (Format.narrow_of_mem offered) env a b nearest
  | roundToInt a => exact Checked.roundToIntegral_eq env a offered _
  | truncToInt a => exact Checked.roundToIntegral_eq env a offered _
  | toInt width mode a =>
    have bounds : 1 ≤ width ∧ width ≤ 64 := by
      have listed := offered.2
      simp only [List.mem_cons, List.not_mem_nil, or_false] at listed
      omega
    exact Checked.toInt_eq bounds.1 bounds.2 (Format.narrow_of_mem offered.1) _ a
  | ofInt f n => exact Checked.ofInt_eq (Format.narrow_of_mem offered.1) env offered.2.1 offered.2.2
  | convert g a =>
    exact Checked.convert_eq (Format.narrow_of_mem offered.1) (Format.narrow_of_mem offered.2) env a
  | compare signaling a b =>
    exact Checked.compareWith_eq (Format.narrow_of_mem offered) signaling a b
  | test relation signaling a b =>
    rw [Operation.checked, Checked.compareWith_eq (Format.narrow_of_mem offered), Operation.perform,
      Comparison.test_eq]
    rfl
  | ofScaled sign mantissa exponent =>
    have whole : (BitVec.ofNat 128 mantissa).toNat = mantissa := by
      rw [BitVec.toNat_ofNat, Nat.mod_eq_of_lt offered]
    have scaled := Checked.ofScaled_eq env sign (BitVec.ofNat 128 mantissa) exponent
    rwa [whole] at scaled
  | roundToPrecision x => exact Checked.roundToPrecision_eq env x
  | scale x n => exact Checked.scale_eq env x n
  | getExponent x => exact Checked.getExponent_eq env x
  | getMantissa x => exact Checked.getMantissa_eq env x

/-! ## What is relied on -/

/-- A significand is rounded only when it is zero or its leading one is in place. -/
theorem roundPack_relies {f : Format} {env : Environment} {x : Working} {precision : ℕ}
    (ends : (Checked.roundPack f env x precision).isSome) :
    x.significand = 0 ∨ x.significand >>> 126 = 1 := by
  unfold Checked.roundPack at ends
  split_ifs at ends with zero
  · exact .inl zero
  · exact .inr (of_guard_bind ends)

/-- Two words are shifted only to one that has room for the result. -/
theorem shiftRightJamWide_relies {high low : Wide} {n : ℕ}
    (ends : (Wide.shiftRightJamWide high low n).isSome) :
    (1 ≤ n ∧ n < 128) ∧ high >>> n = 0 := by
  have range : 1 ≤ n ∧ n < 128 := of_guard_bind ends
  unfold Wide.shiftRightJamWide at ends
  rw [guard_eq range, Wide.shr?, if_pos range.2] at ends
  exact ⟨range, of_guard_bind ends⟩

/-- **Operations stay within their words.**  An operation that is offered, in any environment, has a
result in machine words: no addition, subtraction or product leaves its word, no shift is by the
width of its word or more, and every step is given what it relies on, which for rounding is a
significand that is zero or has its leading one at bit 126.  The result is that of exact arithmetic
rounded once.  The same goes for what is read from and made as an encoding without an environment,
and the product of two words is exact. -/
theorem operations_in_words :
    (∀ {α : Type} (operation : Operation α) (env : Environment), operation.Offered →
      operation.checked env = some (operation.perform env)) ∧
    (∀ f ∈ formats, ∀ x : Fp f,
      Checked.kind x = some x.kind ∧ Checked.isSignaling x = some x.isSignaling ∧
      (∀ sign, Checked.infinity f sign = some (infinity f sign)) ∧
      Checked.defaultNaN f = some (defaultNaN f)) ∧
    (∀ x : Extended, Checked.scaledInteger x = some (x.sign, x.coefficient, x.unitExponent)) ∧
    (∀ (f : Format) (env : Environment) (x : Working) (precision : ℕ),
      (Checked.roundPack f env x precision).isSome →
        x.significand = 0 ∨ x.significand >>> 126 = 1) ∧
    (∀ a : Wide, a.normalize.isSome → a ≠ 0) ∧
    (∀ (high low : Wide) (n : ℕ), (Wide.shiftRightJamWide high low n).isSome →
      (1 ≤ n ∧ n < 128) ∧ high >>> n = 0) ∧
    (∀ (high low : Wide) (index : ℕ), (Wide.bitPairWide high low index).isSome →
      index % 2 = 0) ∧
    ∀ a b : Wide, ∃ high low : Wide, a.mulWide b = some (high, low) ∧
      high.toNat * 2 ^ 128 + low.toNat = a.toNat * b.toNat := by
  refine ⟨checked_eq_perform, fun f listed x => ?_, Checked.scaledInteger_eq,
    fun _ _ _ _ => roundPack_relies, fun _ => of_guard_bind, fun _ _ _ => shiftRightJamWide_relies,
    fun _ _ _ => of_guard_bind, fun a b => ?_⟩
  · have narrow := Format.narrow_of_mem listed
    exact ⟨Checked.kind_eq narrow x, Checked.isSignaling_eq narrow x, Checked.infinity_eq narrow,
      Checked.defaultNaN_eq narrow⟩
  · obtain ⟨⟨high, low⟩, ends, product⟩ := Wide.mulWide_yields a b
    exact ⟨high, low, ends, product⟩

/-- One third, rounded to nearest in words. -/
theorem third_in_words :
    let third := Operation.div (ofBits binary32 0x3F800000) (ofBits binary32 0x40400000)
    third.Offered ∧ third.checked {} = some ⟨ofBits binary32 0x3EAAAAAB, Flags.inexact⟩ := by
  intro third
  have offered : third.Offered := List.mem_cons_self
  have rounded : third.perform {} = ⟨ofBits binary32 0x3EAAAAAB, Flags.inexact⟩ := by
    decide +kernel
  exact ⟨offered, (operations_in_words.1 third {} offered).trans (congrArg some rounded)⟩

end Fp

end M68k
