import M68k.Proofs.Fp.RoundedEncoding

/-!
# Rounding from leading bits

A number need not be there as a whole to be rounded.  As many bits as are kept and two more are
enough, if the last one is set whenever something is left out: what these bits make lies on the same
side of every half unit as the number.

* `Jammed.compare` — no even number lies between a number and what its leading bits make;
* `Jammed.splits` — so both have the same parts, in units of four at least;
* `encode_jammed` — and both are encoded in the same way.
-/

namespace M68k

variable {K : Type*} [Field K] [LinearOrder K] [IsStrictOrderedRing K]

/-- Whether a whole number is another one without what follows its last bit, which is set if that is
not zero. -/
def Jammed (n : ℕ) (v : K) : Prop := v = n ∨ n % 2 = 1 ∧ |v - n| < 1

namespace Jammed

variable {n : ℕ} {v : K} (jammed : Jammed n v)
include jammed

/-- Both compare alike with even numbers. -/
theorem compare (m : ℤ) :
    (v < 2 * m ↔ (n : K) < 2 * m) ∧ (v = 2 * m ↔ (n : K) = 2 * m) := by
  obtain rfl | ⟨odd, close⟩ := jammed
  · exact ⟨Iff.rfl, Iff.rfl⟩
  · obtain ⟨k, rfl⟩ : ∃ k, n = 2 * k + 1 := ⟨n / 2, by omega⟩
    obtain ⟨low, high⟩ := abs_lt.mp close
    push_cast at low high ⊢
    rcases le_or_gt m k with below | above
    · have below : (m : K) ≤ k := by exact_mod_cast below
      exact ⟨iff_of_false (by linarith) (by linarith), iff_of_false (by linarith) (by linarith)⟩
    · have above : (k : K) + 1 ≤ m := by exact_mod_cast above
      exact ⟨iff_of_true (by linarith) (by linarith), iff_of_false (by linarith) (by linarith)⟩

/-- Both have the same leading exponent. -/
theorem log_eq [FloorRing K] (long : 2 ≤ n) : Int.log 2 v = n.log2 := by
  have nonzero : n ≠ 0 := by omega
  obtain ⟨k, lead⟩ : ∃ k, n.log2 = k + 1 :=
    ⟨n.log2 - 1, (Nat.sub_add_cancel ((Nat.le_log2 nonzero).mpr long)).symm⟩
  have low : ((2 ^ (k + 1) : ℕ) : K) ≤ n := by
    rw [← lead]
    exact_mod_cast Nat.log2_self_le nonzero
  have high : (n : K) < (2 ^ (k + 2) : ℕ) := by
    have bound : n < 2 ^ (n.log2 + 1) := Nat.lt_log2_self
    rw [lead] at bound
    exact_mod_cast bound
  have lower := (jammed.compare (2 ^ k)).1
  have upper := (jammed.compare (2 ^ (k + 1))).1
  push_cast at low high lower upper
  rw [← pow_succ'] at lower upper
  rw [lead]
  refine log_two_eq ?_ ?_
  · rw [zpow_natCast, ← not_lt, lower, not_lt]
    exact low
  · rw [show ((k + 1 : ℕ) : ℤ) + 1 = ((k + 2 : ℕ) : ℤ) by push_cast; ring, zpow_natCast, upper]
    exact high

end Jammed

namespace Splits

/-- Numbers that compare alike with whole and half numbers have the same parts. -/
theorem congr {parts : ℕ × Remnant} {y z : K}
    (alike : ∀ m : ℤ, (z < m / 2 ↔ y < m / 2) ∧ (z = m / 2 ↔ y = m / 2)) (h : Splits parts y) :
    Splits parts z := by
  obtain ⟨t, rfl, describes⟩ := h
  obtain ⟨units, remnant⟩ := parts
  have above (m : ℤ) : (m / 2 < z ↔ (m : K) / 2 < units + t) := by
    rw [← not_le, ← not_le, le_iff_lt_or_eq, le_iff_lt_or_eq, (alike m).1, (alike m).2]
  refine ⟨z - units, (add_sub_cancel _ _).symm, ?_⟩
  dsimp only at describes ⊢
  cases remnant with
  | zero =>
    have whole : t = 0 := describes
    have same := (alike (2 * units)).2.mpr (by push_cast; linarith)
    push_cast at same
    show z - units = 0
    linarith
  | low =>
    obtain ⟨positive, below⟩ := describes
    have low := (above (2 * units)).mpr (by push_cast; linarith)
    have high := (alike (2 * units + 1)).1.mpr (by push_cast; linarith)
    push_cast at low high
    exact ⟨by linarith, by linarith⟩
  | half =>
    have middle : t = 1 / 2 := describes
    have same := (alike (2 * units + 1)).2.mpr (by push_cast; linarith)
    push_cast at same
    show z - units = 1 / 2
    linarith
  | high =>
    obtain ⟨beyond, below⟩ := describes
    have low := (above (2 * units + 1)).mpr (by push_cast; linarith)
    have high := (alike (2 * units + 2)).1.mpr (by push_cast; linarith)
    push_cast at low high
    exact ⟨by linarith, by linarith⟩

/-- The parts of a number are determined. -/
theorem unique [FloorRing K] {first second : ℕ × Remnant} {y : K} (h : Splits first y)
    (h' : Splits second y) : first = second := by
  have units : first.1 = second.1 := by exact_mod_cast h.floor_eq.symm.trans h'.floor_eq
  have rest := h.describes_fract
  have rest' := h'.describes_fract
  refine Prod.ext units ?_
  generalize Int.fract y = t at rest rest'
  cases hr : first.2 <;> cases hr' : second.2 <;>
    simp only [hr, hr', Remnant.Describes] at rest rest'
  all_goals first | rfl | (exfalso; linarith)

end Splits

/-- In units of four at least a number has the parts of its leading bits. -/
theorem Jammed.splits {n : ℕ} {v : K} (jammed : Jammed n v) {e q : ℤ} (coarse : e + 2 ≤ q)
    {parts : ℕ × Remnant} (h : Splits parts ((n : K) * 2 ^ e / 2 ^ q)) :
    Splits parts (v * 2 ^ e / 2 ^ q) := by
  obtain ⟨d, hd⟩ := Int.eq_ofNat_of_zero_le (show 0 ≤ q - e - 2 by omega)
  have unit : (0 : K) < 2 ^ (d + 2) := pow_pos two_pos _
  have scaled (y : K) : y * 2 ^ e / 2 ^ q = y / 2 ^ (d + 2) := by
    rw [show q = e + ((d + 2 : ℕ) : ℤ) by push_cast; omega, zpow_add₀ two_ne_zero, zpow_natCast]
    field_simp
  -- half a unit is an even number
  have even (m : ℤ) : (m : K) / 2 * 2 ^ (d + 2) = 2 * ((m * 2 ^ d : ℤ) : K) := by
    push_cast
    ring
  rw [scaled] at h ⊢
  refine h.congr fun m => ?_
  rw [div_lt_iff₀ unit, div_lt_iff₀ unit, div_eq_iff unit.ne', div_eq_iff unit.ne', even]
  exact jammed.compare _

namespace Fp

variable {f : Format} {p : ℕ}

/-- The encoding depends on the leading exponent and on the parts in units from that of the last bit
kept on. -/
theorem encode_congr (env : Environment) (sign : Bool) {x y : Magnitude} (lead : x.lead = y.lead)
    (parts : ∀ q, x.lead - (p - 1 : ℕ) ≤ q → x.split q = y.split q) :
    encode f env p sign x = encode f env p sign y := by
  have tiny : isTiny f env p sign x = isTiny f env p sign y := by
    have split := parts _ le_rfl
    rw [lead] at split
    simp only [isTiny, lead, split]
  have split := parts (max x.lead (leastLead f) - (p - 1 : ℕ)) (by omega)
  rw [lead] at split
  simp only [encode, lead, split, tiny]

/-- **Leading bits are enough.**  A number is encoded in the same way as its leading bits, if they
are two more than are kept and the last one is set when something is left out. -/
theorem encode_jammed [FloorRing K] (hp : 1 ≤ p) (env : Environment) (sign : Bool) {x : Magnitude}
    {n : ℕ} {v : K} {e : ℤ} (denotes : x.Denotes (v * 2 ^ e)) (jammed : Jammed n v)
    (long : 2 ^ (p + 1) ≤ n) :
    encode f env p sign (.dyadic n e) = encode f env p sign x := by
  have two : 2 ≤ n := (Nat.le_self_pow (by omega) 2).trans long
  have whole : (0 : K) < n := by
    have : 0 < n := by omega
    exact_mod_cast this
  have positive : 0 < v := pos_of_mul_pos_left denotes.pos (zpow_pos two_pos e).le
  have bits : (Magnitude.dyadic n e).Denotes ((n : K) * 2 ^ e) :=
    Magnitude.denotes_dyadic (by omega) e
  have least : p + 1 ≤ n.log2 := (Nat.le_log2 (by omega)).mpr long
  have log : Int.log 2 (n : K) = n.log2 := Jammed.log_eq (.inl rfl) two
  have lead : (Magnitude.dyadic n e).lead = e + n.log2 := by
    rw [Magnitude.lead_eq_log bits, Magnitude.log_two_mul_zpow whole, log]
  have same : (Magnitude.dyadic n e).lead = x.lead := by
    rw [lead, Magnitude.lead_eq_log denotes, Magnitude.log_two_mul_zpow positive, jammed.log_eq two]
  refine encode_congr env sign same fun q fine => ?_
  rw [lead] at fine
  exact (jammed.splits (by omega) (Magnitude.splits_split bits q)).unique
    (Magnitude.splits_split denotes q)

end Fp

end M68k
