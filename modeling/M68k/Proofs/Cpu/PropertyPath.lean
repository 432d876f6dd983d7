import M68k.Cpu.Property
import Mathlib.Data.List.TakeWhile
import Mathlib.Tactic

/-!
# Which paths are answered

The paths of the properties form a fixed list.  A query reads most of them letter by letter, but the
number of a data register of the floating-point unit as a numeral, which may also have a plus sign
and leading zeros.  These are the only other spellings that are answered, and each is answered as
the usual one.

* `smallNumber?_eq_some_iff` — the numerals of a register number;
* `ofPath?_eq_some_iff` — the paths that lead to a property;
* `queries_answered` — which queries are answered, and what a snapshot lists.
-/

namespace M68k

namespace Property

/-- The paths of the properties. -/
def paths : List String := all.map Prod.fst

/-- Whether a property is one of the floating-point unit. -/
def isOfUnit : Property → Bool
  | unitData _ | unitControl | unitStatus | unitAddress => true
  | _ => false

/-- A path to a data register of the floating-point unit, with so many zeros before its number and
perhaps a plus sign before them. -/
def spelled (plus : Bool) (zeros : ℕ) (n : RegisterNumber) : String :=
  "fpu.fp" ++ (if plus then "+" else "") ++ String.ofList (List.replicate zeros '0')
    ++ toString n.val

/-! ## Numerals -/

/-- The digit of a register number. -/
def digit (n : RegisterNumber) : Char := Nat.digitChar n.val

theorem toList_toString : ∀ n : RegisterNumber, (toString n.val).toList = [digit n] := by
  decide +kernel

theorem digit_zero_iff : ∀ n : RegisterNumber, digit n = '0' ↔ n = .ofNat 0 := by
  decide

theorem digit_bounds : ∀ n : RegisterNumber, n ≠ .ofNat 0 →
    ('1' ≤ digit n ∧ digit n ≤ '7') ∧ .ofNat ((digit n).toNat - '0'.toNat) = n := by
  decide

/-- A digit from one to seven is that of its number. -/
theorem digit_ofNat {c : Char} (h : '1' ≤ c ∧ c ≤ '7') :
    digit (.ofNat (c.toNat - '0'.toNat)) = c := by
  have bounds : 49 ≤ c.toNat ∧ c.toNat ≤ 55 := h
  have code : c = Char.ofNat c.toNat := (Char.ofNat_toNat c).symm
  obtain ⟨low, high⟩ := bounds
  rw [code]
  generalize c.toNat = n at low high
  interval_cases n <;> rfl

/-- Numerals of register numbers are a digit after any number of zeros. -/
theorem smallNumber?_eq_some_iff {digits : List Char} {n : RegisterNumber} :
    smallNumber? digits = some n ↔ ∃ zeros, digits = List.replicate zeros '0' ++ [digit n] := by
  constructor
  · intro found
    have parts := List.takeWhile_append_dropWhile (p := (· == '0')) (l := digits)
    have front : digits.takeWhile (· == '0') =
        List.replicate (digits.takeWhile (· == '0')).length '0' := by
      rw [List.eq_replicate_iff]
      exact ⟨rfl, fun c among => by simpa using List.mem_takeWhile_imp among⟩
    generalize (digits.takeWhile (· == '0')).length = zeros at front
    rw [front] at parts
    unfold smallNumber? at found
    split at found
    next none =>
      -- all digits are zeros, the last of which is the number
      rw [none, List.append_nil] at parts
      cases zeros with
      | zero =>
        subst parts
        cases found
      | succ zeros =>
        subst parts
        obtain rfl : RegisterNumber.ofNat 0 = n := Option.some.inj found
        exact ⟨zeros, List.replicate_succ'⟩
    next c one =>
      split at found
      next range =>
        obtain rfl := Option.some.inj found
        refine ⟨zeros, ?_⟩
        rw [← parts, one, digit_ofNat range]
      · cases found
    · cases found
  · rintro ⟨zeros, rfl⟩
    have dropped : (List.replicate zeros '0' ++ [digit n]).dropWhile (· == '0') =
        [digit n].dropWhile (· == '0') := by
      rw [List.dropWhile_append_of_pos]
      intro c among
      rw [List.eq_of_mem_replicate among]
      rfl
    unfold smallNumber?
    rw [dropped]
    by_cases zero : n = .ofNat 0
    · subst zero
      cases zeros <;> rfl
    · obtain ⟨range, number⟩ := digit_bounds n zero
      have other : (digit n == '0') = false := by
        rw [beq_eq_false_iff_ne]
        exact mt (digit_zero_iff n).mp zero
      rw [List.dropWhile_cons_of_neg (by simp [other])]
      dsimp only
      rw [if_pos range, number]

/-! ## Paths -/

theorem toList_spelled (plus : Bool) (zeros : ℕ) (n : RegisterNumber) :
    (spelled plus zeros n).toList = 'f' :: 'p' :: 'u' :: '.' :: 'f' :: 'p' ::
      ((if plus then ['+'] else []) ++ (List.replicate zeros '0' ++ [digit n])) := by
  rw [spelled, String.toList_append, String.toList_append, String.toList_append, toList_toString,
    String.toList_ofList]
  cases plus <;> simp

/-- A numeral does not begin with a plus sign. -/
theorem plus_ne_numeral (digits : List Char) (zeros : ℕ) (n : RegisterNumber) :
    List.replicate zeros '0' ++ [digit n] ≠ '+' :: digits := by
  intro same
  cases zeros with
  | zero =>
    have sign : ∀ n : RegisterNumber, digit n ≠ '+' := by decide
    exact sign n (List.cons.inj same).1
  | succ zeros => exact absurd (List.cons.inj same).1 (by decide)

/-- The loose spellings are those of data registers of the unit. -/
theorem looseUnitData?_eq_some_iff {path : String} {property : Property} :
    looseUnitData? path = some property ↔
      ∃ plus zeros n, path = spelled plus zeros n ∧ property = unitData n := by
  have spells (plus : Bool) (zeros : ℕ) (n : RegisterNumber) : path = spelled plus zeros n ↔
      path.toList = 'f' :: 'p' :: 'u' :: '.' :: 'f' :: 'p' ::
        ((if plus then ['+'] else []) ++ (List.replicate zeros '0' ++ [digit n])) := by
    rw [← toList_spelled, String.toList_inj]
  unfold looseUnitData?
  simp only [spells]
  split
  next digits letters =>
    rw [letters, Option.map_eq_some_iff]
    constructor
    · rintro ⟨n, found, rfl⟩
      obtain ⟨zeros, rfl⟩ := smallNumber?_eq_some_iff.mp found
      exact ⟨true, zeros, n, rfl, rfl⟩
    · rintro ⟨plus, zeros, n, same, rfl⟩
      simp only [List.cons.injEq, true_and] at same
      cases plus with
      | false => exact absurd same.symm (plus_ne_numeral digits zeros n)
      | true => exact ⟨n, smallNumber?_eq_some_iff.mpr ⟨zeros, (List.cons.inj same).2⟩, rfl⟩
  next digits unsigned letters =>
    rw [letters, Option.map_eq_some_iff]
    constructor
    · rintro ⟨n, found, rfl⟩
      obtain ⟨zeros, rfl⟩ := smallNumber?_eq_some_iff.mp found
      exact ⟨false, zeros, n, rfl, rfl⟩
    · rintro ⟨plus, zeros, n, same, rfl⟩
      simp only [List.cons.injEq, true_and] at same
      cases plus with
      | false => exact ⟨n, smallNumber?_eq_some_iff.mpr ⟨zeros, same⟩, rfl⟩
      | true => exact (unsigned _ same).elim
  next _ other =>
    refine ⟨nofun, ?_⟩
    rintro ⟨plus, zeros, n, same, -⟩
    exact (other _ same).elim

/-- Where a path of the list is also a loose spelling, it is one of the property itself. -/
theorem looseUnitData?_of_mem : ∀ entry ∈ all, ∀ property, looseUnitData? entry.1 = some property →
    property = entry.2 := by
  have known : ∀ entry ∈ all,
      looseUnitData? entry.1 = none ∨ looseUnitData? entry.1 = some entry.2 := by
    decide +kernel
  intro entry among property loose
  rcases known entry among with none | same
  · exact nomatch none.symm.trans loose
  · exact Option.some.inj (loose.symm.trans same)

theorem mem_of_lookup {entries : List (String × Property)} {path : String} {property : Property}
    (found : entries.lookup path = some property) : (path, property) ∈ entries := by
  induction entries with
  | nil => cases found
  | cons entry rest ih =>
    rw [List.lookup_cons] at found
    split at found
    next here =>
      obtain rfl := Option.some.inj found
      rw [eq_of_beq here]
      exact List.mem_cons_self
    · exact List.mem_cons_of_mem _ (ih found)

/-- The paths that lead to a property. -/
theorem ofPath?_eq_some_iff {path : String} {property : Property} :
    ofPath? path = some property ↔
      (path, property) ∈ all ∨
        ∃ plus zeros n, path = spelled plus zeros n ∧ property = unitData n := by
  rw [← looseUnitData?_eq_some_iff]
  constructor
  · intro leads
    rw [ofPath?] at leads
    cases listed : all.lookup path with
    | none =>
      rw [listed] at leads
      exact .inr leads
    | some other =>
      rw [listed] at leads
      obtain rfl : other = property := Option.some.inj leads
      exact .inl (mem_of_lookup listed)
  · rintro (among | loose)
    · exact ofPath?_of_mem _ among
    · rw [ofPath?]
      cases listed : all.lookup path with
      | none => exact loose
      | some other =>
        rw [looseUnitData?_of_mem _ (mem_of_lookup listed) _ loose]
        rfl

/-! ## Queries -/

theorem isOfUnit_of_mem : ∀ entry ∈ all,
    entry.2.isOfUnit = "fpu.".toList.isPrefixOf entry.1.toList := by
  decide +kernel

/-- The paths to properties of the unit begin alike. -/
theorem isOfUnit_iff {path : String} {property : Property} (leads : ofPath? path = some property) :
    property.isOfUnit = true ↔ "fpu.".toList <+: path.toList := by
  rw [← List.isPrefixOf_iff_prefix]
  rcases ofPath?_eq_some_iff.mp leads with among | ⟨plus, zeros, n, rfl, rfl⟩
  · rw [isOfUnit_of_mem _ among]
  · rw [toList_spelled]
    exact iff_of_true rfl rfl

/-- All properties have a value but those of a unit that is not there. -/
theorem isSome_value? (c : Cpu) (property : Property) :
    (property.value? c).isSome = true ↔ (property.isOfUnit = true → c.fpu.isSome = true) := by
  cases property <;> simp [value?, isOfUnit]

theorem spelled_mem (n : RegisterNumber) : (spelled false 0 n, unitData n) ∈ all := by
  revert n
  decide +kernel

end Property

namespace Cpu

open Property

theorem isSome_query_iff (c : Cpu) (path : String) :
    (c.query path).isSome = true ↔
      (path ∈ paths ∨ ∃ plus zeros n, path = spelled plus zeros n) ∧
        ("fpu.".toList <+: path.toList → c.fpu.isSome = true) := by
  have named : (path ∈ paths ∨ ∃ plus zeros n, path = spelled plus zeros n) ↔
      ∃ property, ofPath? path = some property := by
    simp only [ofPath?_eq_some_iff, paths, List.mem_map, Prod.exists, exists_and_right,
      exists_eq_right, exists_or]
    simp
  rw [named, query]
  cases leads : ofPath? path with
  | none => simp
  | some property => simp [isSome_value?, isOfUnit_iff leads]

/-- Spellings of one number are answered alike. -/
theorem query_spelled (c : Cpu) (plus : Bool) (zeros : ℕ) (n : RegisterNumber) :
    c.query (spelled plus zeros n) = (unitData n).value? c := by
  rw [query, ofPath?_eq_some_iff.mpr (.inr ⟨plus, zeros, n, rfl, rfl⟩)]
  rfl

theorem nodup_paths : paths.Nodup := by
  decide +kernel

/-- A snapshot has the listed paths that are answered, in the order of the list. -/
theorem map_fst_snapshot (c : Cpu) :
    c.snapshot.map Prod.fst = paths.filter fun path => (c.query path).isSome := by
  have listed {entries : List (String × Property)} (known : ∀ entry ∈ entries, entry ∈ all) :
      (entries.filterMap fun entry =>
          (entry.2.value? c).map fun value => (entry.1, value)).map Prod.fst =
        (entries.map Prod.fst).filter fun path => (c.query path).isSome := by
    induction entries with
    | nil => rfl
    | cons entry rest ih =>
      obtain ⟨path, property⟩ := entry
      have answered := query_of_mem c (known _ List.mem_cons_self)
      have later := ih fun other among => known other (List.mem_cons_of_mem _ among)
      cases value : property.value? c <;> simp_all
  exact listed fun _ among => among

/-- **Queries answer the listed paths, and other spellings of the numbers of the unit's data
registers.**  Such a spelling has a plus sign or leading zeros and is answered as the usual one; no
other path is answered.  The paths of the unit are answered just if there is one.  A snapshot lists
each listed path that is answered once, with its answer. -/
theorem queries_answered (c : Cpu) :
    (∀ path, (c.query path).isSome = true ↔
      (path ∈ paths ∨ ∃ plus zeros n, path = spelled plus zeros n) ∧
        ("fpu.".toList <+: path.toList → c.fpu.isSome = true)) ∧
    (∀ plus zeros n, spelled false 0 n ∈ paths ∧
      c.query (spelled plus zeros n) = c.query (spelled false 0 n)) ∧
    paths.Nodup ∧
    c.snapshot.map Prod.fst = (paths.filter fun path => (c.query path).isSome) ∧
    ∀ path value, (path, value) ∈ c.snapshot → c.query path = some value := by
  refine ⟨isSome_query_iff c, fun plus zeros n => ⟨?_, ?_⟩, nodup_paths, map_fst_snapshot c,
    fun _ _ => snapshot_subset c⟩
  · exact List.mem_map.mpr ⟨_, spelled_mem n, rfl⟩
  · rw [query_spelled, query_spelled]

/-- A plus sign before the number of a register of the unit is not in the list, and is answered. -/
theorem plus_sign_answered :
    "fpu.fp+3" ∉ paths ∧ ((new .m68020).query "fpu.fp+3").isSome = true ∧
      "fpu.fp+3" ∉ (new .m68020).snapshot.map Prod.fst := by
  decide +kernel

end Cpu

end M68k
