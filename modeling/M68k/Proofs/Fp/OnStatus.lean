import M68k.Fp.OnStatus

/-!
# Operations on a status against operations that return their flags

An operation on a status could look at the flags there, take them away, or leave another rounding
direction behind.  None does: whatever flags are there, each gives what the operation that returns
its flags gives in the environment of the status, unites those flags with the ones there, and leaves
the environment.

* `Performs.bind`, `Performs.look` — actions one after another, and a look at the status;
* `Performs.onCopy` — what is done with a copy raises nothing;
* `encode_performs` — rounding, from which all others follow.
-/

namespace M68k

namespace Fp.OnStatus

variable {α β : Type}

/-- Whether an action on a status of this environment gives a result and unites its flags with those
that are there, whatever they are. -/
def Performs (env : Environment) (x : StatusM α) (r : Raised α) : Prop :=
  ∀ flags, x.run ⟨env, flags⟩ = (r.value, ⟨env, flags ||| r.flags⟩)

namespace Performs

variable {env : Environment}

theorem pure (a : α) : Performs env (pure a) (pure a) := by
  intro flags
  show (a, Status.mk env flags) = (a, ⟨env, flags ||| 0#8⟩)
  rw [BitVec.or_zero]

theorem raise (flags : Flags) : Performs env (OnStatus.raise flags) (Raised.raise flags) :=
  fun _ => rfl

theorem raiseWhen (condition : Bool) (flags : Flags) :
    Performs env (OnStatus.raiseWhen condition flags)
      (Raised.raise (Flags.when condition flags)) := by
  cases condition with
  | false => exact pure ()
  | true => exact raise flags

/-- Of one action after another, the second finds the flags of the first. -/
theorem bind {x : StatusM α} {next : α → StatusM β} {r : Raised α} {rest : α → Raised β}
    (first : Performs env x r) (others : ∀ a, Performs env (next a) (rest a)) :
    Performs env (x >>= next) (r >>= rest) := by
  intro flags
  have begins := first flags
  have ends := others r.value (flags ||| r.flags)
  show (next (x.run ⟨env, flags⟩).1).run (x.run ⟨env, flags⟩).2 = _
  rw [begins, ends, BitVec.or_assoc]
  rfl

/-- What follows a look at the status must not depend on the flags seen. -/
theorem look {next : Status → StatusM α} {r : Raised α}
    (others : ∀ flags, Performs env (next ⟨env, flags⟩) r) : Performs env (get >>= next) r :=
  fun flags => others flags flags

/-- The flags that are raised on a copy are dropped with it. -/
theorem onCopy {x : StatusM α} {r : Raised α} (performs : Performs env x r) :
    Performs env (OnStatus.onCopy x) (Pure.pure r.value) := by
  refine look fun flags => ?_
  rw [performs flags]
  exact pure r.value

/-- A result that is there when flags have been raised. -/
theorem raising (condition : Bool) (flags : Flags) (a : α) :
    Performs env (OnStatus.raiseWhen condition flags >>= fun _ => Pure.pure a)
      ⟨a, Flags.when condition flags⟩ := by
  have raised : Performs env (OnStatus.raiseWhen condition flags) _ := raiseWhen condition flags
  intro before
  refine (raised.bind (fun _ => pure a) before).trans ?_
  show (a, Status.mk env (before ||| (Flags.when condition flags ||| 0#8))) = _
  rw [BitVec.or_zero]

/-- What an action gives, put to use. -/
theorem map {x : StatusM α} {r : Raised α} (performs : Performs env x r) (use : α → β) :
    Performs env (x >>= fun a => Pure.pure (use a)) (r >>= fun a => Pure.pure (use a)) :=
  performs.bind fun a => pure (use a)

end Performs

variable {f : Format} (env : Environment)

/-! ## NaNs and rounding -/

theorem invalid_performs (f : Format) : Performs env (invalid f) (Fp.invalid f) :=
  fun _ => rfl

theorem propagateNaN_performs (a b : Fp f) :
    Performs env (propagateNaN a b) (Fp.propagateNaN a b) :=
  .raising _ _ _

theorem overflow_performs (p : Nat) (sign : Bool) :
    Performs env (overflow f p sign) (Fp.overflow f env.rounding p sign) :=
  fun _ => rfl

/-- Rounding.  Underflow is raised before `inexact`, and the status is looked at twice. -/
theorem encode_performs (p : Nat) (sign : Bool) (x : Magnitude) :
    Performs env (encode f p sign x) (Fp.encode f env p sign x) := by
  refine .look fun _ => ?_
  unfold Fp.encode
  dsimp only
  generalize (if env.rounding.round sign
    (x.split (max x.lead (leastLead f) - (p - 1 : Nat))) = Nat.pow 2 p then _ else _) = kept
  generalize (if kept.1 < Nat.pow 2 (p - 1) then (0 : Int) else kept.2 + f.bias) = exponent
  split
  · exact overflow_performs env p sign
  · refine .look fun _ => ?_
    have done (tiny inexact : Bool) (result : Fp f) :
        Performs env (raiseWhen tiny Flags.underflow >>= fun _ =>
            raiseWhen inexact Flags.inexact >>= fun _ => pure result)
          ⟨result, Flags.when inexact Flags.inexact ||| Flags.when tiny Flags.underflow⟩ := by
      rw [BitVec.or_comm]
      exact (Performs.raiseWhen _ _).bind fun _ => .raising _ _ _
    exact done _ _ _

theorem encodeDyadic_performs (p : Nat) (zeroSign : Bool) (coefficient exponent : Int) :
    Performs env (encodeDyadic f p zeroSign coefficient exponent)
      (Fp.encodeDyadic f env p zeroSign coefficient exponent) := by
  unfold encodeDyadic Fp.encodeDyadic
  split
  · exact .pure _
  · exact encode_performs env p _ _

/-- What is rounded to the significant bits of the format. -/
theorem rounded_performs (sign : Bool) (x : Magnitude) :
    Performs env (do encode f (← precision f) sign x)
      (Fp.encode f env (workingPrecision f env) sign x) :=
  .look fun _ => encode_performs env _ sign x

/-! ## Arithmetic -/

section Arithmetic

variable (a b : Fp f)

theorem addFinite_performs : Performs env (addFinite a b) (Fp.addFinite env a b) :=
  .look fun _ => .look fun _ => encodeDyadic_performs env _ _ _ _

theorem add_performs : Performs env (add a b) (Fp.add env a b) := by
  unfold add Fp.add
  cases a.kind <;> cases b.kind
  case infinity.infinity =>
    dsimp only
    split
    · exact .pure a
    · exact invalid_performs env f
  all_goals first
    | exact propagateNaN_performs env a b
    | exact addFinite_performs env a b
    | exact .pure _

theorem sub_performs : Performs env (sub a b) (Fp.sub env a b) := by
  unfold sub Fp.sub
  split
  · exact propagateNaN_performs env a b
  · exact add_performs env a b.negate

theorem mul_performs : Performs env (mul a b) (Fp.mul env a b) := by
  unfold mul Fp.mul
  cases a.kind <;> cases b.kind
  case finite.finite => exact rounded_performs env _ _
  all_goals first
    | exact propagateNaN_performs env a b
    | exact invalid_performs env f
    | exact .pure _

theorem div_performs : Performs env (div a b) (Fp.div env a b) := by
  unfold div Fp.div
  cases a.kind <;> cases b.kind
  case finite.finite => exact rounded_performs env _ _
  case finite.zero => exact fun _ => rfl
  all_goals first
    | exact propagateNaN_performs env a b
    | exact invalid_performs env f
    | exact .pure _

theorem sqrt_performs : Performs env (sqrt a) (Fp.sqrt env a) := by
  unfold sqrt Fp.sqrt
  cases a.kind with
  | nan => exact propagateNaN_performs env a a
  | zero => exact .pure a
  | infinity =>
    dsimp only
    split
    · exact invalid_performs env f
    · exact .pure a
  | finite =>
    dsimp only
    split
    · exact invalid_performs env f
    · exact rounded_performs env _ _

theorem remainder_performs (nearest : Bool) :
    Performs env (remainder nearest a b) (Fp.remainder env nearest a b) := by
  unfold remainder Fp.remainder
  cases a.kind <;> cases b.kind
  case finite.finite => exact (encodeDyadic_performs env _ _ _ _).map _
  all_goals first
    | exact (propagateNaN_performs env a b).map _
    | exact (invalid_performs env f).map _
    | exact .pure _

theorem rem_performs : Performs env (rem a b) (Fp.rem env a b) :=
  (remainder_performs env a b true).map _

end Arithmetic

/-! ## Integers, other formats, and order -/

section Conversion

variable (a b : Fp f)

theorem roundToIntegral_performs (mode : RoundingMode) :
    Performs env (roundToIntegral mode a) (Fp.roundToIntegral env mode a) := by
  unfold roundToIntegral Fp.roundToIntegral
  cases a.kind with
  | nan => exact propagateNaN_performs env a a
  | zero | infinity => exact .pure a
  | finite =>
    dsimp only
    split
    · exact .pure a
    · refine (Performs.raiseWhen _ _).bind fun _ => ?_
      split
      · exact .pure _
      · exact (encode_performs env _ _ _).onCopy

theorem roundToInt_performs : Performs env (roundToInt a) (Fp.roundToInt env a) :=
  .look fun _ => roundToIntegral_performs env a env.rounding

theorem truncToInt_performs : Performs env (truncToInt a) (Fp.truncToInt env a) :=
  roundToIntegral_performs env a .toZero

theorem toInt_performs (width : Nat) (mode : Option RoundingMode) :
    Performs env (toInt width mode a) (Fp.toInt width (mode.getD env.rounding) a) := by
  have saturate (negative : Bool) : Performs env (saturate width negative)
      ⟨integerLimit width negative, Flags.invalid⟩ := fun _ => rfl
  refine .look fun _ => ?_
  unfold toIntegerIn Fp.toInt
  cases a.kind with
  | nan => exact saturate false
  | infinity => exact saturate a.sign
  | zero => exact .pure 0
  | finite =>
    dsimp only
    split
    · exact saturate a.sign
    · split
      · exact saturate a.sign
      · exact .raising _ _ _

theorem ofInt_performs (n : Int) : Performs env (ofInt f n) (Fp.ofInt f env n) :=
  encodeDyadic_performs env _ _ _ _

theorem convertNaN_performs (g : Format) : Performs env (convertNaN g a) (Fp.convertNaN g a) :=
  .raising _ _ _

theorem convert_performs (g : Format) : Performs env (convert g a) (Fp.convert g env a) := by
  unfold convert Fp.convert
  cases a.kind with
  | nan => exact convertNaN_performs env a g
  | infinity | zero => exact .pure _
  | finite => exact encode_performs env _ _ _

theorem compareWith_performs (signaling : Bool) :
    Performs env (compareWith signaling a b) (Fp.compareWith signaling a b) := by
  unfold compareWith Fp.compareWith
  split
  · exact .raising _ _ _
  · exact .pure _

end Conversion

/-! ## The extended format -/

section Extended

variable (x : Extended)

/-- What is rounded to the bits that the status asks for. -/
theorem extended_performs (sign : Bool) (m : Magnitude) :
    Performs env (do encode extended80 (← extendedBits) sign m)
      (Fp.encode extended80 env env.precision.bits sign m) :=
  .look fun _ => encode_performs env _ sign m

theorem ofScaled_performs (sign : Bool) (mantissa : Nat) (exponent : Int) :
    Performs env (ofScaled sign mantissa exponent)
      (Extended.ofScaled env sign mantissa exponent) := by
  unfold ofScaled Extended.ofScaled
  split
  · exact .pure _
  · exact extended_performs env sign _

theorem roundToPrecision_performs :
    Performs env (roundToPrecision x) (Extended.roundToPrecision env x) := by
  unfold roundToPrecision Extended.roundToPrecision
  cases x.kind with
  | finite => exact extended_performs env _ _
  | nan =>
    dsimp only
    split
    · exact propagateNaN_performs env x x
    · exact .pure x
  | zero | infinity => exact .pure x

theorem scale_performs (n : Int) : Performs env (scale x n) (Extended.scale env x n) := by
  unfold scale Extended.scale
  cases x.kind with
  | nan => exact propagateNaN_performs env x x
  | zero | infinity => exact .pure x
  | finite => exact extended_performs env _ _

theorem getExponent_performs : Performs env (getExponent x) (Extended.getExponent env x) := by
  unfold getExponent Extended.getExponent
  cases x.kind with
  | nan => exact propagateNaN_performs env x x
  | zero => exact .pure x
  | infinity => exact invalid_performs env extended80
  | finite => exact ofInt_performs env x.lead

theorem getMantissa_performs : Performs env (getMantissa x) (Extended.getMantissa env x) := by
  unfold getMantissa Extended.getMantissa
  cases x.kind with
  | nan => exact propagateNaN_performs env x x
  | zero => exact .pure x
  | infinity => exact invalid_performs env extended80
  | finite => exact encode_performs env _ _ _

end Extended

end Fp.OnStatus

end M68k
