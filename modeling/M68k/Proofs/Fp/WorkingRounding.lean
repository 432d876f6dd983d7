import M68k.Proofs.Fp.SameNumber
import M68k.Proofs.Fp.WorkingEncoding

/-!
# Rounding in machine words

A normalized number is rounded and encoded in machine words as its magnitude is, and so is every
number in whose place it stands: the units that rounding looks at are above the one in which both
compare alike.

* `encode_eq_of_leastLead_le`, `encode_eq_of_lead_lt` — encodings in and below the normal range;
* `roundPack_eq` — rounding in machine words;
* `roundPack_of_standsFor`, `roundPack_of_holds` — the same for the number that is stood for.
-/

namespace M68k

variable {K : Type*} [Field K] [LinearOrder K] [IsStrictOrderedRing K] [FloorRing K] {f : Format}

namespace Fp

variable {p : ℕ} (env : Environment) (sign : Bool) {x : Magnitude} {v : K}

/-- In the normal range a carry moves the leading one up, and nothing is tiny. -/
theorem encode_eq_of_leastLead_le (hp : 1 ≤ p) (denotes : x.Denotes v)
    (normal : leastLead f ≤ x.lead) :
    let parts := x.split (x.lead - (p - 1 : ℕ))
    let rounded := env.rounding.round sign parts
    let lead := if rounded = 2 ^ p then x.lead + 1 else x.lead
    let coefficient := if rounded = 2 ^ p then 2 ^ (p - 1) else rounded
    encode f env p sign x =
      if f.exponentMax ≤ lead + f.bias then overflow f env.rounding p sign
      else ⟨ofFields f sign (lead + f.bias).toNat (coefficient <<< (f.precision - p)),
        Flags.when (parts.2 ≠ .zero) Flags.inexact⟩ := by
  intro parts rounded lead coefficient
  obtain ⟨low, -, -⟩ := env.rounding.round_at_lead hp sign denotes
  have large : isTiny f env p sign x = false := by
    unfold isTiny
    cases env.tininess with
    | beforeRounding => exact decide_eq_false (by omega)
    | afterRounding =>
      refine decide_eq_false ?_
      split_ifs <;> omega
  have whole : ¬ coefficient < 2 ^ (p - 1) := by
    show ¬ (if rounded = 2 ^ p then 2 ^ (p - 1) else rounded) < 2 ^ (p - 1)
    split_ifs
    · exact lt_irrefl _
    · exact not_lt.mpr low
  have both : (if rounded = 2 ^ p then (2 ^ (p - 1), x.lead + 1) else (rounded, x.lead)) =
      (coefficient, lead) := by
    show _ = ((if rounded = 2 ^ p then 2 ^ (p - 1) else rounded),
      if rounded = 2 ^ p then x.lead + 1 else x.lead)
    split_ifs <;> rfl
  unfold encode
  simp only [max_eq_left normal, Nat.pow_eq]
  rw [both]
  have none (flags : Flags) : flags ||| Flags.when false Flags.underflow = flags := BitVec.or_zero
  dsimp only
  rw [if_neg whole, large, Bool.and_false, none]

/-- Below the normal range a carry leads to the least normal number at most. -/
theorem encode_eq_of_lead_lt (regular : f.Regular) (hp : 1 ≤ p) (denotes : x.Denotes v)
    (small : x.lead < leastLead f) :
    let parts := x.split (leastLead f - (p - 1 : ℕ))
    let rounded := env.rounding.round sign parts
    let inexact : Bool := parts.2 ≠ .zero
    rounded ≤ 2 ^ (p - 1) ∧
    encode f env p sign x =
      ⟨ofFields f sign (if rounded < 2 ^ (p - 1) then 0 else 1) (rounded <<< (f.precision - p)),
        Flags.when inexact Flags.inexact |||
          Flags.when (inexact && isTiny f env p sign x) Flags.underflow⟩ := by
  intro parts rounded inexact
  have least : rounded ≤ 2 ^ (p - 1) :=
    (round_le_of_lead_lt sign hp env.rounding denotes small).2
  have power : 2 ^ (p - 1) < 2 ^ p := Nat.pow_lt_pow_right one_lt_two (by omega)
  have exponents := regular.exponentMax_ge
  have one : leastLead f + f.bias = 1 := by
    rw [leastLead]
    ring
  refine ⟨least, ?_⟩
  unfold encode
  simp only [max_eq_right small.le, Nat.pow_eq]
  rw [if_neg (least.trans_lt power).ne]
  dsimp only
  rw [one]
  split_ifs with short full full
  · exact absurd full (by omega)
  · rfl
  · exact absurd full (by omega)
  · rfl

end Fp

/-! ## The magnitude of a number in working form -/

namespace Working

variable {w : Working}

/-- The magnitude of a number other than zero. -/
def magnitude (w : Working) : Magnitude := .dyadic w.significand.toNat (w.exponent - 126)

omit [IsStrictOrderedRing K] [FloorRing K] in
theorem Normal.denotes (normal : w.Normal) : w.magnitude.Denotes (w.size K) :=
  Magnitude.denotes_dyadic ((Nat.two_pow_pos 126).trans_le normal.1) _

theorem Normal.lead_eq (normal : w.Normal) : w.magnitude.lead = w.exponent := by
  obtain ⟨low, high⟩ := normal.size_bounds (K := ℚ)
  rw [Magnitude.lead_eq_log (normal.denotes (K := ℚ)), log_two_eq low high]

/-- Its parts are the bits above a position and those below. -/
theorem split_magnitude (w : Working) (s : ℕ) :
    w.magnitude.split (w.exponent - 126 + s) = (w.significand.toNat / 2 ^ s,
      Remnant.ofRemainder (w.significand.toNat % 2 ^ s) (2 ^ s)) := by
  unfold magnitude Magnitude.dyadic Magnitude.split Magnitude.shiftedFraction
  by_cases none : s = 0
  · subst none
    simp
  · have shift : w.exponent - 126 - (w.exponent - 126 + s) = -(s : ℤ) := by ring
    dsimp only
    rw [shift, if_neg (by omega), neg_neg, Int.toNat_natCast, Nat.shiftLeft_eq, Nat.one_mul]

/-- A number is rounded like the one that stands in its place. -/
theorem StandsFor.encode_eq {v : K} (h : w.StandsFor v) {x : Magnitude} (denotes : x.Denotes v)
    {p : ℕ} (short : p ≤ 113) (env : Environment) (sign : Bool) :
    Fp.encode f env p sign w.magnitude = Fp.encode f env p sign x := by
  have lead : x.lead = w.exponent := by
    rw [Magnitude.lead_eq_log denotes]
    exact log_two_eq h.bounds.1 h.bounds.2
  refine Fp.encode_congr env sign (h.normal.lead_eq.trans lead.symm) fun q fine => ?_
  rw [h.normal.lead_eq] at fine
  have near := h.alike.splits (q := q) (by omega)
    (Magnitude.splits_split h.normal.denotes q)
  exact near.unique (Magnitude.splits_split denotes q)

end Working

/-! ## Packing -/

namespace Checked

open Wide

variable (narrow : f.Narrow) {p : ℕ} (hpf : p ≤ f.precision)

section

include narrow hpf

theorem packRounded_eq (sign : Bool) {biased : ℤ} {n : ℕ} (exponent : biased = n) {rounded : Wide}
    (short : rounded.toNat < 2 ^ p) :
    packRounded f sign biased rounded p =
      some (Fp.ofFields f sign n (rounded.toNat <<< (f.precision - p))) := by
  have precision := narrow.precision_le
  have room : rounded.toNat * 2 ^ (f.precision - p) < 2 ^ 128 := by
    calc rounded.toNat * 2 ^ (f.precision - p) < 2 ^ p * 2 ^ (f.precision - p) :=
          Nat.mul_lt_mul_of_pos_right short (Nat.two_pow_pos _)
      _ = 2 ^ f.precision := by rw [← pow_add, Nat.add_sub_of_le hpf]
      _ ≤ 2 ^ 128 := Nat.pow_le_pow_right two_pos (by omega)
  refine Yields.eq_some ?_
  unfold packRounded
  refine .step (uint32?_eq (k := f.precision - p) (by omega) (by omega)) ?_
  refine (shl_yields (by omega) room).bind fun stored hstored => ?_
  rw [Nat.shiftLeft_eq]
  split_ifs with explicit
  · refine .some ?_
    rw [assemble_eq sign exponent, hstored]
  · refine (fractionMask_yields narrow).bind fun mask hmask => .some ?_
    have cut : f.storedBits = f.fractionBits := if_neg explicit
    rw [assemble_eq sign exponent, toNat_and_fractionMask hmask, hstored, Fp.ofFields, Fp.ofFields]
    congr 1
    apply BitVec.eq_of_toNat_eq
    rw [BitVec.toNat_ofNat, BitVec.toNat_ofNat, cut, Nat.mod_mod]

theorem overflow_eq (mode : RoundingMode) (sign : Bool) :
    overflow f mode sign p = some (Fp.overflow f mode p sign) := by
  have precision := narrow.precision_le
  have exponents := narrow.exponentMax_ge
  have middle := narrow.exponentMax_eq
  have bias := narrow.bias_le
  have positive : 0 < 2 ^ p := Nat.two_pow_pos p
  refine Yields.eq_some ?_
  unfold overflow Fp.overflow
  split_ifs with infinite
  · rw [infinity_eq narrow]
    exact .some rfl
  · refine (shl_one_yields (n := p) (by omega)).bind fun power hpower => ?_
    refine (sub_yields (hpower ▸ positive)).bind fun largest hlargest => ?_
    rw [hpower, show (1 : Wide).toNat = 1 from rfl] at hlargest
    refine .step (int32?_eq (by omega) (by omega)) ?_
    refine .step (packRounded_eq narrow hpf sign (n := f.exponentMax - 1) (by omega)
      (by omega)) (.some ?_)
    rw [hlargest]
    rfl

end

/-- A carry leaves a power of two, which is halved. -/
theorem settleCarry_yields (hp : 1 ≤ p) (short : p < 128) {rounded : Wide} {biased : ℤ}
    (bound : rounded.toNat ≤ 2 ^ p) (range : -2 ^ 20 < biased ∧ biased < 2 ^ 20) :
    Yields (settleCarry rounded biased p) fun r =>
      r.1.toNat = (if rounded.toNat = 2 ^ p then 2 ^ (p - 1) else rounded.toNat) ∧
        r.2 = if rounded.toNat = 2 ^ p then biased + 1 else biased := by
  have double : 2 ^ p = 2 ^ (p - 1) * 2 := by rw [← pow_succ, Nat.sub_add_cancel hp]
  unfold settleCarry
  refine (shr_yields rounded short).bind fun carry hcarry => ?_
  by_cases full : rounded.toNat = 2 ^ p
  · have some : carry ≠ 0 := by
      rw [full, Nat.div_self (Nat.two_pow_pos p)] at hcarry
      rintro rfl
      exact absurd hcarry (by decide)
    rw [if_pos some, if_pos full, if_pos full]
    refine .step (int32?_eq (by omega) (by omega)) (.some ⟨?_, rfl⟩)
    rw [toNat_shr, full, double, pow_one, Nat.mul_div_cancel _ two_pos]
  · have none : carry = 0 := by
      rw [Nat.div_eq_of_lt (by omega)] at hcarry
      exact BitVec.eq_of_toNat_eq hcarry
    rw [if_neg (not_not.mpr none), if_neg full, if_neg full]
    exact .some ⟨rfl, rfl⟩

section RoundPack

variable {w : Working} (normal : w.Normal) (hp : 1 ≤ p) (env : Environment)
include narrow normal hp hpf

/-- Rounding in the normal range. -/
theorem packNormal_eq (least : Fp.leastLead f ≤ w.exponent) (range : w.exponent < 2 ^ 18) :
    packNormal f env w.sign (w.exponent + f.bias) w.significand p =
      some (Fp.encode f env p w.sign w.magnitude) := by
  have precision := narrow.precision_le
  have bias := narrow.bias_le
  have lead := normal.lead_eq
  have denotes := normal.denotes (K := ℚ)
  have encoded := Fp.encode_eq_of_leastLead_le env w.sign hp denotes (lead.symm ▸ least)
  obtain ⟨-, high, -⟩ := env.rounding.round_at_lead hp w.sign denotes
  have power : 2 ^ (p - 1) < 2 ^ p := Nat.pow_lt_pow_right one_lt_two (by omega)
  have unit : w.exponent - (p - 1 : ℕ) = w.exponent - 126 + (127 - p : ℕ) := by omega
  rw [lead, unit, w.split_magnitude] at encoded high
  have leastLead : Fp.leastLead f = 1 - f.bias := rfl
  refine Yields.eq_some ?_
  unfold packNormal
  refine .step (uint32?_eq (k := 127 - p) (by omega) (by omega)) ?_
  refine (roundBits_yields env.rounding w.sign w.significand (127 - p)).bind fun kept found => ?_
  obtain ⟨hkept, hinexact⟩ := found
  dsimp only at encoded
  rw [← hkept] at encoded high
  refine (settleCarry_yields hp (by omega) high (by omega)).bind fun settled values => ?_
  obtain ⟨hsettled, hbiased⟩ := values
  have biased : (if kept.1.toNat = 2 ^ p then w.exponent + 1 else w.exponent) + (f.bias : ℤ) =
      settled.2 := by
    rw [hbiased]
    split_ifs <;> ring
  dsimp only
  rw [biased, ← hsettled, ← hinexact] at encoded
  rw [encoded]
  split_ifs with large
  · rw [overflow_eq narrow hpf]
    exact .some rfl
  · have short : settled.1.toNat < 2 ^ p := by
      rw [hsettled]
      split_ifs <;> omega
    have exponent : settled.2 = (settled.2.toNat : ℤ) := by
      rw [hbiased]
      split_ifs <;> omega
    refine .step (packRounded_eq narrow hpf w.sign exponent short) (.some ?_)
    rfl

/-- Whether a number below the normal range is tiny. -/
theorem tiny_eq (small : w.exponent < Fp.leastLead f) :
    tiny env w.sign (w.exponent + f.bias) w.significand p =
      some (Fp.isTiny f env p w.sign w.magnitude) := by
  have precision := narrow.precision_le
  have lead := normal.lead_eq
  obtain ⟨-, high, -⟩ := env.rounding.round_at_lead hp w.sign (normal.denotes (K := ℚ))
  have unit : w.exponent - (p - 1 : ℕ) = w.exponent - 126 + (127 - p : ℕ) := by omega
  rw [lead, unit, w.split_magnitude] at high
  have leastLead : Fp.leastLead f = 1 - f.bias := rfl
  unfold tiny Fp.isTiny
  rw [lead, unit, w.split_magnitude]
  cases env.tininess with
  | beforeRounding => exact congrArg some (decide_eq_true small).symm
  | afterRounding =>
    dsimp only
    by_cases below : w.exponent + f.bias < 0
    · rw [if_pos below]
      refine congrArg some (decide_eq_true ?_).symm
      split_ifs <;> omega
    · -- just below the normal range a carry decides
      rw [if_neg below]
      refine Yields.eq_some (.step (uint32?_eq (k := 127 - p) (by omega) (by omega)) ?_)
      refine (roundBits_yields env.rounding w.sign w.significand (127 - p)).bind
        fun kept found => ?_
      rw [← found.1] at high ⊢
      refine (shr_yields kept.1 (by omega)).bind fun carry hcarry => .some ?_
      rw [decide_eq_decide, ← BitVec.toNat_inj, hcarry, show (0 : Wide).toNat = 0 from rfl,
        Nat.div_eq_zero_iff, or_iff_right (Nat.two_pow_pos p).ne', Nat.pow_eq]
      split_ifs <;> omega

/-- Rounding below the normal range. -/
theorem packSubnormal_eq (small : w.exponent < Fp.leastLead f) (range : -2 ^ 18 < w.exponent) :
    packSubnormal f env w.sign (w.exponent + f.bias) w.significand p =
      some (Fp.encode f env p w.sign w.magnitude) := by
  have precision := narrow.precision_le
  have bias := narrow.bias_le
  have power : 2 ^ (p - 1) < 2 ^ p := Nat.pow_lt_pow_right one_lt_two (by omega)
  obtain ⟨bound, encoded⟩ := Fp.encode_eq_of_lead_lt env w.sign narrow.toRegular hp
    (normal.denotes (K := ℚ)) (normal.lead_eq.symm ▸ small)
  have leastLead : Fp.leastLead f = 1 - f.bias := rfl
  obtain ⟨lowered, hlowered⟩ : ∃ n : ℕ, 1 - (w.exponent + f.bias) = n :=
    ⟨(1 - (w.exponent + f.bias)).toNat, by omega⟩
  have unit : Fp.leastLead f - (p - 1 : ℕ) = w.exponent - 126 + (127 - p + lowered : ℕ) := by omega
  rw [unit, w.split_magnitude] at encoded bound
  refine Yields.eq_some (.step (tiny_eq narrow hpf normal hp env small) ?_)
  refine .step (uint32?_eq (k := 127 - p) (by omega) (by omega)) ?_
  refine .step (int32?_eq (n := 1 - (w.exponent + f.bias)) (by omega) (by omega)) ?_
  refine .step (uint32?_eq hlowered (by omega)) ?_
  rw [min_eq_left (by omega)]
  refine (roundBits_yields env.rounding w.sign w.significand (127 - p + lowered)).bind
    fun kept found => ?_
  obtain ⟨hkept, hinexact⟩ := found
  dsimp only at encoded bound
  rw [← hkept] at encoded bound
  rw [← hinexact] at encoded
  refine .step (uint32?_eq (k := p - 1) (by omega) (by omega)) ?_
  refine (shr_yields kept.1 (by omega)).bind fun top htop => ?_
  have least : top = 0 ↔ kept.1.toNat < 2 ^ (p - 1) := by
    rw [← BitVec.toNat_inj, htop, show (0 : Wide).toNat = 0 from rfl, Nat.div_eq_zero_iff,
      or_iff_right (Nat.two_pow_pos _).ne']
  have exponent : (if top ≠ 0 then 1 else 0 : ℤ) =
      (if kept.1.toNat < 2 ^ (p - 1) then 0 else 1 : ℕ) := by
    simp only [ne_eq, least, ite_not]
    split_ifs <;> rfl
  dsimp only
  rw [encoded]
  refine .step (packRounded_eq narrow hpf w.sign exponent (by omega)) (.some ?_)
  rfl

/-- **Rounding in machine words** is rounding. -/
theorem roundPack_eq (range : -2 ^ 18 < w.exponent ∧ w.exponent < 2 ^ 18) :
    roundPack f env w p = some (Fp.encode f env p w.sign w.magnitude) := by
  have bias := narrow.bias_le
  have leastLead : Fp.leastLead f = 1 - f.bias := rfl
  have leading : w.significand >>> 126 = 1 := by
    apply BitVec.eq_of_toNat_eq
    rw [toNat_shr]
    have low := normal.1
    have high := normal.2
    show w.significand.toNat / 2 ^ 126 = 1
    omega
  refine Yields.eq_some ?_
  unfold roundPack
  rw [if_neg normal.ne_zero]
  refine .step (guard_eq leading) ?_
  refine .step (int32?_eq (n := w.exponent + f.bias) (by omega) (by omega)) ?_
  split_ifs with least
  · rw [packNormal_eq narrow hpf normal hp env (by omega) range.2]
    exact .some rfl
  · rw [packSubnormal_eq narrow hpf normal hp env (by omega) range.1]
    exact .some rfl

end RoundPack

section StandsFor

variable {w : Working} (hp : 1 ≤ p) (env : Environment)
include narrow hp hpf

/-- A number is rounded like the one that it stands for. -/
theorem roundPack_of_standsFor {v : K} (h : w.StandsFor v) {x : Magnitude} (denotes : x.Denotes v) :
    roundPack f env w p = some (Fp.encode f env p w.sign x) := by
  rw [roundPack_eq narrow hpf h.normal hp env h.range,
    h.encode_eq denotes (hpf.trans narrow.precision_le)]

/-- An encoding is rounded to a format like its number. -/
theorem roundPack_of_unpacks {g : Format} {a : Fp g} (kind : a.kind = .finite)
    (h : Unpacks a w) : roundPack f env w p = some (Fp.encode f env p a.sign a.magnitude) := by
  rw [← h.sign]
  exact roundPack_of_standsFor narrow hpf hp env h.standsFor (Fp.denotes_magnitude (K := ℚ) kind)

theorem roundPack_of_holds {zeroSign : Bool} {x : ℚ} (h : w.Holds zeroSign x) {c e : ℤ}
    (value : (c : ℚ) * 2 ^ e = x) :
    roundPack f env w p = some (Fp.encodeDyadic f env p zeroSign c e) := by
  have unit : (0 : ℚ) < 2 ^ e := zpow_pos two_pos e
  unfold Fp.encodeDyadic
  by_cases none : c = 0
  · have zero : x = 0 := by rw [← value, none, Int.cast_zero, zero_mul]
    rw [if_pos none, h.zero zero]
    exact congrArg (fun z => some (pure z)) (zero_eq zeroSign)
  · have nonzero : x ≠ 0 := by
      rw [← value]
      exact mul_ne_zero (Int.cast_ne_zero.mpr none) unit.ne'
    obtain ⟨sign, standsFor⟩ := h.nonzero nonzero
    have negative : decide (x < 0) = decide (c < 0) := by
      rw [decide_eq_decide, ← value, ← Int.cast_lt_zero (R := ℚ)]
      exact ⟨fun less => neg_of_mul_neg_left less unit.le,
        fun less => mul_neg_of_neg_of_pos less unit⟩
    have size : |x| = (c.natAbs : ℚ) * 2 ^ e := by
      rw [← value, abs_mul, abs_of_pos unit, Nat.cast_natAbs, Int.cast_abs]
    rw [size] at standsFor
    rw [if_neg none, ← negative, ← sign]
    exact roundPack_of_standsFor narrow hpf hp env standsFor
      (Magnitude.denotes_dyadic (Int.natAbs_pos.mpr none) e)

end StandsFor

end Checked

end M68k
