import M68k.Proofs.Cpu.IntegerSum

/-!
# Chains of sums and differences

A number of any length is a list of limbs of one size, the least significant first.  Adding or
subtracting it limb by limb, with the extend flag carried from one to the next, is adding or
subtracting the whole number: what one limb leaves over is the quotient of its sum by the size, so
that the codes after the last limb are those of the quotient by all limbs but the last.

* `joined` — the limbs as one word;
* `chainCodes_chainCodes` — the codes of a limb and of what follows it, together;
* `chained_extended` — chains of sums or differences, with any extend and zero flag before;
* `chains_exact` — long sums, differences and negations.
-/

namespace M68k

namespace StatusRegister

/-- The status register is known from the condition codes and the other bits. -/
theorem eq_of_has {sr sr' : StatusRegister}
    (codes : ∀ flag : Flag, flag.position < 5 → sr.has flag = sr'.has flag)
    (system : sr &&& ~~~codeMask = sr' &&& ~~~codeMask) : sr = sr' := by
  apply BitVec.eq_of_getLsbD_eq
  intro i hi
  by_cases code : i < 5
  · obtain ⟨flag, rfl⟩ : ∃ flag : Flag, flag.position = i := by
      have known : i = 0 ∨ i = 1 ∨ i = 2 ∨ i = 3 ∨ i = 4 := by omega
      rcases known with rfl | rfl | rfl | rfl | rfl
      exacts [⟨.c, rfl⟩, ⟨.v, rfl⟩, ⟨.z, rfl⟩, ⟨.n, rfl⟩, ⟨.x, rfl⟩]
    exact codes flag code
  · have outside : (~~~codeMask).getLsbD i = true := by
      revert code
      revert i
      decide
    have bit := congrArg (fun word : BitVec 16 => word.getLsbD i) system
    simpa only [BitVec.getLsbD_and, outside, Bool.and_true] using bit

end StatusRegister

namespace Alu

variable {w m : ℕ}

/-! ## Dividing an integer by a power of two -/

section Quotient

variable (u : ℤ)

theorem emod_ediv : u % 2 ^ (w + m) / 2 ^ w = u / 2 ^ w % 2 ^ m := by
  have unit : (2 : ℤ) ^ w ≠ 0 := by positivity
  rw [Int.emod_def, Int.emod_def, Int.ediv_ediv_of_nonneg (by positivity), pow_add, mul_assoc,
    sub_eq_add_neg, ← mul_neg, Int.add_mul_ediv_left _ _ unit, ← sub_eq_add_neg]

theorem emod_emod : u % 2 ^ (w + m) % 2 ^ w = u % 2 ^ w :=
  Int.emod_emod_of_dvd u (pow_dvd_pow 2 (Nat.le_add_right w m))

theorem eq_zero_iff : u = 0 ↔ u % 2 ^ w = 0 ∧ u / 2 ^ w = 0 := by
  constructor
  · rintro rfl
    simp
  · rintro ⟨rest, quotient⟩
    rw [← Int.emod_add_mul_ediv u (2 ^ w), rest, quotient, mul_zero, zero_add]

theorem ediv_lt (k : ℤ) : u / 2 ^ w < k ↔ u < 2 ^ w * k := by
  rw [Int.ediv_lt_iff_lt_mul (by positivity), mul_comm]

theorem le_ediv (k : ℤ) : k ≤ u / 2 ^ w ↔ 2 ^ w * k ≤ u := by
  rw [Int.le_ediv_iff_mul_le (by positivity), mul_comm]

end Quotient

/-! ## Codes along a chain -/

theorem chainCodes_system (sum : Sum w) (sr : StatusRegister) :
    chainCodes sum sr &&& ~~~StatusRegister.codeMask = sr &&& ~~~StatusRegister.codeMask := by
  unfold chainCodes
  repeat rw [set_system _ (by decide)]

section Has

variable (sum : Sum w) (sr : StatusRegister)

@[simp] theorem has_carry_chainCodes : (chainCodes sum sr).has .c = sum.carry := by
  simp [chainCodes, StatusRegister.has_set_of_ne]

@[simp] theorem has_extend_chainCodes : (chainCodes sum sr).has .x = sum.carry := by
  simp [chainCodes, StatusRegister.has_set_of_ne]

@[simp] theorem has_overflow_chainCodes : (chainCodes sum sr).has .v = sum.overflow := by
  simp [chainCodes]

@[simp] theorem has_negative_chainCodes : (chainCodes sum sr).has .n = sum.value.msb := by
  simp [chainCodes, StatusRegister.has_set_of_ne]

@[simp] theorem has_zero_chainCodes :
    (chainCodes sum sr).has .z = (sr.has .z && sum.value == 0) := by
  simp [chainCodes, StatusRegister.has_set_of_ne]

end Has

/-- **Codes add up.**  The codes of anything with an integer's low bits, followed by those of its
quotient, are the codes of the integer. -/
theorem chainCodes_chainCodes (hm : 1 ≤ m) {low u : ℤ} (rest : low % 2 ^ w = u % 2 ^ w) (low' v : ℤ)
    (sr : StatusRegister) :
    chainCodes (.ofInt m (u / 2 ^ w) (v / 2 ^ w)) (chainCodes (.ofInt w low low') sr) =
      chainCodes (.ofInt (w + m) u v) sr := by
  have top : (2 : ℤ) ^ (w + m - 1) = 2 ^ w * 2 ^ (m - 1) := by
    rw [← pow_add]
    congr 1
    omega
  have carry : (Sum.ofInt m (u / 2 ^ w) (v / 2 ^ w)).carry = (Sum.ofInt (w + m) u v).carry := by
    simp only [Sum.ofInt, ediv_lt, le_ediv, mul_zero, pow_add]
  refine StatusRegister.eq_of_has (fun flag code => ?_) ?_
  · cases flag with
    | c => simpa using carry
    | x => simpa using carry
    | v =>
      rw [has_overflow_chainCodes, has_overflow_chainCodes]
      simp only [Sum.ofInt, ediv_lt, le_ediv, top, mul_neg]
    | n =>
      rw [has_negative_chainCodes, has_negative_chainCodes, Bool.eq_iff_iff]
      simp only [Sum.ofInt, msb_ofInt_iff]
      rw [← emod_ediv, le_ediv, top]
    | z =>
      rw [has_zero_chainCodes, has_zero_chainCodes, has_zero_chainCodes, Bool.and_assoc,
        Bool.eq_iff_iff]
      simp only [Bool.and_eq_true, beq_iff_eq, Sum.ofInt, ofInt_eq_zero_iff]
      rw [eq_zero_iff (w := w) (u % 2 ^ (w + m)), emod_ediv, emod_emod, rest]
    | _ => simp [Flag.position] at code
  · simp only [chainCodes_system]

/-! ## Long numbers -/

/-- Carries the status register through a list of steps, from the first on. -/
def chain {α β : Type} (step : α → StatusRegister → β × StatusRegister) :
    List α → StatusRegister → List β × StatusRegister
  | [], sr => ([], sr)
  | a :: rest, sr =>
    let first := step a sr
    let others := chain step rest first.2
    (first.1 :: others.1, others.2)

variable (size : Size)

/-- Limbs of a size as one word, the least significant first. -/
def joined (limbs : List (BitVec 32)) : BitVec (limbs.length * size.bits) :=
  BitVec.ofNat _ (Nat.ofDigits (2 ^ size.bits) (limbs.map fun limb => (size.part limb).toNat))

theorem toNat_joined (limbs : List (BitVec 32)) :
    (joined size limbs).toNat =
      Nat.ofDigits (2 ^ size.bits) (limbs.map fun limb => (size.part limb).toNat) := by
  have base : 1 < 2 ^ size.bits := Nat.one_lt_two_pow (Nat.one_le_iff_ne_zero.mp (one_le_bits size))
  have bound : ∀ digit ∈ limbs.map fun limb => (size.part limb).toNat, digit < 2 ^ size.bits := by
    intro digit mem
    obtain ⟨limb, -, rfl⟩ := List.mem_map.mp mem
    exact (size.part limb).isLt
  have fits := Nat.ofDigits_lt_base_pow_length base bound
  rw [List.length_map, ← pow_mul, mul_comm] at fits
  rw [joined, BitVec.toNat_ofNat, Nat.mod_eq_of_lt fits]

theorem toNat_joined_cons (limb : BitVec 32) (rest : List (BitVec 32)) :
    (joined size (limb :: rest)).toNat =
      (size.part limb).toNat + 2 ^ size.bits * (joined size rest).toNat := by
  rw [toNat_joined, toNat_joined, List.map_cons, Nat.ofDigits_cons]

theorem toNat_joined_singleton (limb : BitVec 32) :
    (joined size [limb]).toNat = (size.part limb).toNat := by
  rw [toNat_joined, List.map_singleton, Nat.ofDigits_singleton]

/-- The sign of a number is that of its last limb. -/
theorem toInt_joined_cons (limb : BitVec 32) {rest : List (BitVec 32)} (more : rest ≠ []) :
    (joined size (limb :: rest)).toInt =
      (size.part limb).toNat + 2 ^ size.bits * (joined size rest).toInt := by
  have bits : 1 ≤ rest.length * size.bits :=
    Nat.mul_pos (List.length_pos_iff.mpr more) (one_le_bits size)
  obtain ⟨h, -, upper, -, -⟩ := exists_half bits
  have whole : 2 ^ ((limb :: rest).length * size.bits) = 2 * (2 ^ size.bits * h) := by
    rw [List.length_cons, Nat.add_one_mul, pow_add, upper]
    ring
  have low := (size.part limb).isLt
  have number := toNat_joined_cons size limb rest
  rcases toInt_cases upper (joined size rest) with ⟨int, below⟩ | ⟨int, above, -⟩ <;>
    rcases toInt_cases whole (joined size (limb :: rest)) with ⟨int', below'⟩ | ⟨int', above', -⟩
  · rw [int, int', number]
    push_cast
    rfl
  · nlinarith
  · nlinarith
  · rw [int, int', number]
    push_cast
    ring

theorem toInt_joined_singleton (limb : BitVec 32) :
    (joined size [limb]).toInt = (size.part limb).toInt := by
  have bits : [limb].length * size.bits = size.bits := by simp
  rw [BitVec.toInt_eq_toNat_cond, BitVec.toInt_eq_toNat_cond, toNat_joined_singleton, bits]

/-- Whether a chain has found an integer: limb by limb, cut to so many limbs, and described by the
codes. -/
structure Chained (n : ℕ) (unsigned signed : ℤ) (sr : StatusRegister)
    (found : List (BitVec 32) × StatusRegister) : Prop where
  length : found.1.length = n
  short : ∀ limb ∈ found.1, limb.toNat < 2 ^ size.bits
  number : ((joined size found.1).toNat : ℤ) = unsigned % 2 ^ (n * size.bits)
  codes : found.2 = chainCodes (.ofInt (n * size.bits) unsigned signed) sr

namespace Chained

variable {size} {u v : ℤ} {sr : StatusRegister}

theorem part_result (u v : ℤ) :
    size.part ((Sum.ofInt size.bits u v).value.setWidth 32) = BitVec.ofInt size.bits u := by
  rw [Size.part, BitVec.setWidth_setWidth_of_le _ size.bits_le, BitVec.setWidth_eq]
  rfl

theorem result_lt (u v : ℤ) :
    ((Sum.ofInt size.bits u v).value.setWidth 32).toNat < 2 ^ size.bits := by
  rw [BitVec.toNat_setWidth_of_le size.bits_le]
  exact BitVec.isLt _

/-- The last limb. -/
theorem singleton (u v : ℤ) (sr : StatusRegister) :
    Chained size 1 u v sr ([(Sum.ofInt size.bits u v).value.setWidth 32],
      chainCodes (.ofInt size.bits u v) sr) := by
  refine ⟨rfl, ?_, ?_, by rw [one_mul]⟩
  · simpa using result_lt u v
  · rw [toNat_joined_singleton, part_result, toNat_ofInt, one_mul]

/-- One more limb below others that have found the quotient. -/
theorem cons {n : ℕ} (hn : 1 ≤ n) {found : List (BitVec 32) × StatusRegister} {low low' : ℤ}
    (rest : low % 2 ^ size.bits = u % 2 ^ size.bits)
    (others : Chained size n (u / 2 ^ size.bits) (v / 2 ^ size.bits)
      (chainCodes (.ofInt size.bits low low') sr) found) :
    Chained size (n + 1) u v sr
      ((Sum.ofInt size.bits low low').value.setWidth 32 :: found.1, found.2) := by
  have bits : (n + 1) * size.bits = size.bits + n * size.bits := by ring
  refine ⟨by simp [others.length], ?_, ?_, ?_⟩
  · intro limb mem
    rcases List.mem_cons.mp mem with rfl | mem
    · exact result_lt low low'
    · exact others.short limb mem
  · rw [toNat_joined_cons, part_result, bits]
    push_cast
    rw [toNat_ofInt, others.number, rest, ← emod_ediv, ← emod_emod (m := n * size.bits),
      Int.emod_add_mul_ediv]
  · rw [others.codes, bits]
    exact chainCodes_chainCodes (Nat.mul_pos hn (one_le_bits size)) rest low' v sr

end Chained

/-! ## Sums and differences -/

/-- A sum or difference with the extend flag, of a source and a destination. -/
def extended (add : Bool) (pair : BitVec 32 × BitVec 32) (sr : StatusRegister) :
    BitVec 32 × StatusRegister :=
  if add then addx size pair.1 pair.2 sr else subx size pair.1 pair.2 sr

/-- The sum or difference of integers, with one more or one less for the extend flag. -/
def combined (add : Bool) (s d x : ℤ) : ℤ := if add then d + s + x else d - s - x

theorem extended_eq (add : Bool) (pair : BitVec 32 × BitVec 32) (sr : StatusRegister) :
    let s := size.part pair.1
    let d := size.part pair.2
    let sum := Sum.ofInt size.bits (combined add s.toNat d.toNat (sr.has .x).toNat)
      (combined add s.toInt d.toInt (sr.has .x).toNat)
    extended size add pair sr = (sum.value.setWidth 32, chainCodes sum sr) := by
  cases add with
  | true => simp [extended, addx, addCarry_eq (one_le_bits size), combined]
  | false => simp [extended, subx, subBorrow_eq (one_le_bits size), combined]

theorem combined_add_mul (add : Bool) (p s d x s' d' : ℤ) :
    combined add (s + p * s') (d + p * d') x = combined add s d x + p * combined add s' d' 0 := by
  cases add <;> simp only [combined] <;> simp <;> ring

/-- What a limb leaves over goes into the next one as its extend flag. -/
theorem combined_carry (add : Bool) (s d : BitVec w) (x : Bool) (v s' d' : ℤ) :
    let u := combined add s.toNat d.toNat x.toNat
    combined add s' d' (Sum.ofInt w u v).carry.toNat = u / 2 ^ w + combined add s' d' 0 := by
  intro u
  have hs : (s.toNat : ℤ) < 2 ^ w := by exact_mod_cast s.isLt
  have hd : (d.toNat : ℤ) < 2 ^ w := by exact_mod_cast d.isLt
  have hx := x.toNat_lt
  have positive : (0 : ℤ) < 2 ^ w := by positivity
  have quotient (q : ℤ) (low : 2 ^ w * q ≤ u) (high : u < 2 ^ w * q + 2 ^ w) : u / 2 ^ w = q := by
    have := (le_ediv u q).mpr low
    have := (ediv_lt u (q + 1)).mpr (by linarith)
    omega
  cases add with
  | true =>
    have value : u = d.toNat + s.toNat + x.toNat := rfl
    by_cases above : 2 ^ w ≤ u
    · rw [quotient 1 (by omega) (by omega)]
      simp [Sum.ofInt, combined, above]
      ring
    · rw [quotient 0 (by omega) (by omega)]
      have : ¬ u < 0 := by omega
      simp [Sum.ofInt, combined, above, this]
  | false =>
    have value : u = d.toNat - s.toNat - x.toNat := rfl
    by_cases below : u < 0
    · rw [quotient (-1) (by omega) (by omega)]
      simp [Sum.ofInt, combined, below]
      ring
    · rw [quotient 0 (by omega) (by omega)]
      have : ¬ 2 ^ w ≤ u := by omega
      simp [Sum.ofInt, combined, below, this]

/-- **Chains find long sums and differences**, whatever the extend and zero flags are before. -/
theorem chained_extended (add : Bool) (pair : BitVec 32 × BitVec 32)
    (pairs : List (BitVec 32 × BitVec 32)) (sr : StatusRegister) :
    let s := joined size ((pair :: pairs).map Prod.fst)
    let d := joined size ((pair :: pairs).map Prod.snd)
    Chained size (pair :: pairs).length (combined add s.toNat d.toNat (sr.has .x).toNat)
      (combined add s.toInt d.toInt (sr.has .x).toNat) sr
      (chain (extended size add) (pair :: pairs) sr) := by
  intro s d
  induction pairs generalizing pair sr with
  | nil =>
    have number : s.toNat = (size.part pair.1).toNat ∧ d.toNat = (size.part pair.2).toNat :=
      ⟨toNat_joined_singleton size _, toNat_joined_singleton size _⟩
    have int : s.toInt = (size.part pair.1).toInt ∧ d.toInt = (size.part pair.2).toInt :=
      ⟨toInt_joined_singleton size _, toInt_joined_singleton size _⟩
    rw [number.1, number.2, int.1, int.2, chain, extended_eq]
    exact .singleton _ _ sr
  | cons next rest ih =>
    have positive : (2 : ℤ) ^ size.bits ≠ 0 := by positivity
    have number (f : BitVec 32 × BitVec 32 → BitVec 32) :
        ((joined size ((pair :: next :: rest).map f)).toNat : ℤ) =
          (size.part (f pair)).toNat +
            2 ^ size.bits * (joined size ((next :: rest).map f)).toNat := by
      exact_mod_cast toNat_joined_cons size (f pair) _
    have int (f : BitVec 32 × BitVec 32 → BitVec 32) :
        (joined size ((pair :: next :: rest).map f)).toInt =
          (size.part (f pair)).toNat +
            2 ^ size.bits * (joined size ((next :: rest).map f)).toInt :=
      toInt_joined_cons size (f pair) (by simp)
    rw [number, number, int, int, chain, extended_eq, combined_add_mul, combined_add_mul]
    -- what the first limb leaves over is the extend flag with which the others start
    have others := ih next (extended size add pair sr).2
    simp only [extended_eq, has_extend_chainCodes, combined_carry] at others
    rw [← Int.add_mul_ediv_left _ _ positive, ← Int.add_mul_ediv_left _ _ positive] at others
    exact others.cons (by simp) (Int.add_mul_emod_self_left _ _ _).symm

/-! ## Long sums, differences and negations -/

/-- Whether a chain has given an integer as so many limbs, with codes that describe the whole
number: in particular the zero flag says whether all limbs are zero, and the extend flag is the
carry or borrow out of the last one. -/
structure LongResult (n : ℕ) (unsigned signed : ℤ) (sr : StatusRegister)
    (found : List (BitVec 32) × StatusRegister) : Prop where
  length : found.1.length = n
  short : ∀ limb ∈ found.1, limb.toNat < 2 ^ size.bits
  number : ((joined size found.1).toNat : ℤ) = unsigned % 2 ^ (n * size.bits)
  reports : found.2.Reports (n * size.bits) unsigned signed
  extend : found.2.has .x = found.2.has .c
  system : found.2 &&& ~~~StatusRegister.codeMask = sr &&& ~~~StatusRegister.codeMask

/-- A chain that starts with the zero flag set says in the end whether the number is zero. -/
theorem Chained.longResult {size : Size} {n : ℕ} {u v : ℤ} {sr : StatusRegister}
    {found : List (BitVec 32) × StatusRegister} (chained : Chained size n u v sr found)
    (zero : sr.has .z = true) : LongResult size n u v sr found := by
  refine ⟨chained.length, chained.short, chained.number, ?_, ?_, ?_⟩ <;> rw [chained.codes]
  · apply reports_ofInt <;> simp [zero]
  · simp
  · exact chainCodes_system _ sr

/-- Chains over pairs of limbs that start with the extend flag clear and the zero flag set. -/
theorem longResult_extended (add : Bool) {pairs : List (BitVec 32 × BitVec 32)}
    (nonempty : pairs ≠ []) {sr : StatusRegister} (extend : sr.has .x = false)
    (zero : sr.has .z = true) :
    let s := joined size (pairs.map Prod.fst)
    let d := joined size (pairs.map Prod.snd)
    LongResult size pairs.length (combined add s.toNat d.toNat 0) (combined add s.toInt d.toInt 0)
      sr (chain (extended size add) pairs sr) := by
  obtain ⟨pair, rest, rfl⟩ := List.exists_cons_of_ne_nil nonempty
  have chained := chained_extended size add pair rest sr
  rw [extend] at chained
  exact chained.longResult zero

theorem chain_map {α β γ : Type} (step : β → StatusRegister → γ × StatusRegister) (f : α → β)
    (list : List α) (sr : StatusRegister) :
    chain step (list.map f) sr = chain (fun a => step (f a)) list sr := by
  induction list generalizing sr with
  | nil => rfl
  | cons a rest ih => simp only [List.map_cons, chain, ih]

theorem joined_zero (limbs : List (BitVec 32)) : joined size (limbs.map fun _ => 0) = 0 := by
  refine BitVec.eq_of_toNat_eq (Eq.trans ?_ (Nat.zero_mod _).symm)
  induction limbs with
  | nil => rfl
  | cons limb rest ih =>
    rw [List.map_cons, toNat_joined_cons, ih]
    simp [Size.part]

/-- A negation is a difference from zero. -/
theorem chain_negx {dst : List (BitVec 32)} (nonempty : dst ≠ []) {sr : StatusRegister}
    (extend : sr.has .x = false) (zero : sr.has .z = true) :
    LongResult size dst.length (-(joined size dst).toNat) (-(joined size dst).toInt) sr
      (chain (negx size) dst sr) := by
  have nonempty' : (dst.map fun limb => (limb, (0 : BitVec 32))) ≠ [] := by simpa using nonempty
  have result := longResult_extended size false nonempty' extend zero
  have fst : (dst.map fun limb => (limb, (0 : BitVec 32))).map Prod.fst = dst := by
    simp [Function.comp_def]
  have snd : (dst.map fun limb => (limb, (0 : BitVec 32))).map Prod.snd = dst.map fun _ => 0 := by
    simp [Function.comp_def]
  rw [chain_map, fst, snd, joined_zero, List.length_map] at result
  have step : (fun limb => extended size false (limb, 0)) = negx size := rfl
  rw [step] at result
  simpa [combined] using result

/-- **Chains are exact.**  Limb by limb, starting with the extend flag clear and the zero flag set,
long numbers are added, subtracted and negated as they would be in one piece: the limbs are those of
the integer, and the codes after the last limb describe the whole number. -/
theorem chains_exact {n : ℕ} (hn : 1 ≤ n) (src dst : List (BitVec 32)) (hs : src.length = n)
    (hd : dst.length = n) {sr : StatusRegister} (extend : sr.has .x = false)
    (zero : sr.has .z = true) :
    let s := joined size src
    let d := joined size dst
    LongResult size n (d.toNat + s.toNat) (d.toInt + s.toInt) sr
        (chain (fun limbs => addx size limbs.1 limbs.2) (src.zip dst) sr) ∧
      LongResult size n (d.toNat - s.toNat) (d.toInt - s.toInt) sr
        (chain (fun limbs => subx size limbs.1 limbs.2) (src.zip dst) sr) ∧
      LongResult size n (-d.toNat) (-d.toInt) sr (chain (negx size) dst sr) := by
  intro s d
  have zipped (add : Bool) :
      LongResult size n (combined add s.toNat d.toNat 0) (combined add s.toInt d.toInt 0) sr
        (chain (extended size add) (src.zip dst) sr) := by
    have length : (src.zip dst).length = n := by simp [hs, hd]
    have nonempty : src.zip dst ≠ [] := List.length_pos_iff.mp (by omega)
    have result := longResult_extended size add nonempty extend zero
    rwa [length, List.map_fst_zip (by omega), List.map_snd_zip (by omega)] at result
  have nonempty : dst ≠ [] := List.length_pos_iff.mp (by omega)
  have sums : extended size true = fun limbs => addx size limbs.1 limbs.2 := rfl
  have differences : extended size false = fun limbs => subx size limbs.1 limbs.2 := rfl
  refine ⟨?_, ?_, hd ▸ chain_negx size nonempty extend zero⟩
  · simpa [combined, sums] using zipped true
  · simpa [combined, differences] using zipped false

/-- 7FFF and 1 in bytes: the low limb of the sum is zero, the sum is not, and it overflows. -/
theorem chains_exact_overflow :
    let src : List (BitVec 32) := [0xAB01, 0xCD00]
    let dst : List (BitVec 32) := [0xFF, 0x7F]
    let sr : StatusRegister := 0x2704
    (1 ≤ 2 ∧ src.length = 2 ∧ dst.length = 2 ∧ sr.has .x = false ∧ sr.has .z = true) ∧
      chain (fun limbs => addx .byte limbs.1 limbs.2) (src.zip dst) sr = ([0x00, 0x80], 0x270A) ∧
      LongResult .byte 2 0x8000 0x8000 sr
        (chain (fun limbs => addx .byte limbs.1 limbs.2) (src.zip dst) sr) ∧
      LongResult .byte 2 0x7FFE 0x7FFE sr
        (chain (fun limbs => subx .byte limbs.1 limbs.2) (src.zip dst) sr) ∧
      LongResult .byte 2 (-0x7FFF) (-0x7FFF) sr (chain (negx .byte) dst sr) :=
  ⟨by decide, by decide,
    chains_exact .byte (by decide) [0xAB01, 0xCD00] [0xFF, 0x7F] rfl rfl (by decide) (by decide)⟩

end Alu

end M68k
