import M68k.Cpu.Registers
import Mathlib.Tactic

/-!
# The general registers

The sixteen registers that instructions name can be written independently of each other, and what
they hold together with `Registers.aside` is all there is in a register file.

* `general_setGeneral` — what is in a register when one was written;
* `ext_general` — registers are the same if the general ones are, and what is aside.
-/

namespace M68k

/-- What is written for the members of a list, one after the other. -/
theorem ite_mem_cons {α β : Type} [DecidableEq α] (f : α → β) (k n : α) (rest : List α) (b : β) :
    (if k ∈ n :: rest then f k else b) =
      if k ∈ rest then f k else if k = n then f n else b := by
  by_cases later : k ∈ rest
  · rw [if_pos later, if_pos (List.mem_cons_of_mem n later)]
  · rw [if_neg later]
    by_cases here : k = n
    · rw [if_pos here, if_pos (List.mem_cons.mpr (.inl here)), here]
    · rw [if_neg here, if_neg (by simp [here, later])]

namespace GeneralRegister

theorem isData_address (n : RegisterNumber) : (address n).isData = false := by
  revert n
  decide

theorem number_address (n : RegisterNumber) : (address n).number = n := by
  revert n
  decide

theorem number_data (n : RegisterNumber) : (data n).isData = true ∧ (data n).number = n := by
  revert n
  decide

/-- Registers of the same kind and number are the same. -/
theorem eq_of_number {n k : GeneralRegister} (kind : n.isData = k.isData)
    (number : n.number = k.number) : n = k := by
  have low : n.val % 8 = k.val % 8 := congrArg Fin.val number
  have half : n.val < 8 ↔ k.val < 8 := by
    simpa [isData] using kind
  have := n.isLt
  have := k.isLt
  exact Fin.ext (by omega)

end GeneralRegister

namespace Registers

variable (r : Registers)

theorem general_address (n : RegisterNumber) : r.general (.address n) = r.address n := by
  rw [general, GeneralRegister.isData_address, GeneralRegister.number_address]
  rfl

theorem setGeneral_address (n : RegisterNumber) (value : BitVec 32) :
    r.setGeneral (.address n) value = r.setAddress n value := by
  rw [setGeneral, GeneralRegister.isData_address, GeneralRegister.number_address]
  rfl

theorem general_data (n : RegisterNumber) : r.general (.data n) = r.data n := by
  obtain ⟨kind, number⟩ := GeneralRegister.number_data n
  rw [general, kind, number]
  rfl

theorem data_setData (n k : RegisterNumber) (value : BitVec 32) :
    (r.setData n value).data k = if k = n then value else r.data k := by
  simp only [data, setData, Vector.getElem_set, Fin.ext_iff, eq_comm]

theorem data_setAddress (n k : RegisterNumber) (value : BitVec 32) :
    (r.setAddress n value).data k = r.data k := by
  unfold setAddress
  split
  · rfl
  · unfold setSp setStack
    split <;> rfl

/-- Writing a general register changes what is read from it and from no other. -/
theorem general_setGeneral (n k : GeneralRegister) (value : BitVec 32) :
    (r.setGeneral n value).general k = if k = n then value else r.general k := by
  cases kind : n.isData <;> cases kind' : k.isData
  case false.false =>
    simp only [general, setGeneral, kind, kind', Bool.false_eq_true, if_false]
    split
    next same =>
      rw [same]
      exact r.address_setAddress_self _ value
    next other =>
      refine r.address_setAddress_of_ne (fun same => other ?_) value
      exact GeneralRegister.eq_of_number (kind'.trans kind.symm) same
  case true.true =>
    simp only [general, setGeneral, kind, kind', if_true, data_setData]
    by_cases same : k = n
    · rw [if_pos same, if_pos (congrArg GeneralRegister.number same)]
    · have apart : k.number ≠ n.number :=
        fun number => same (GeneralRegister.eq_of_number (kind'.trans kind.symm) number)
      rw [if_neg same, if_neg apart]
  case false.true =>
    rw [if_neg (by rintro rfl; exact nomatch kind.symm.trans kind')]
    simp only [general, setGeneral, kind, kind', Bool.false_eq_true, if_false, if_true]
    exact r.data_setAddress _ _ value
  case true.false =>
    rw [if_neg (by rintro rfl; exact nomatch kind.symm.trans kind')]
    simp only [general, setGeneral, kind, kind', Bool.false_eq_true, if_false, if_true]
    rfl

/-- The registers behind an instruction of two words. -/
def advanced : Registers := { r with pc := r.pc + 4, ppc := r.pc }

theorem general_advanced (n : GeneralRegister) : r.advanced.general n = r.general n := rfl

theorem address_advanced (n : RegisterNumber) : r.advanced.address n = r.address n := rfl

theorem setAddress_advanced (n : RegisterNumber) (value : BitVec 32) :
    r.advanced.setAddress n value = (r.setAddress n value).advanced := by
  unfold setAddress
  split
  · rfl
  · unfold setSp advanced
    cases stackOf r.sr <;> rfl

/-- What a register file holds besides the general registers, of which the stack pointer in use is
one. -/
def aside : Registers :=
  { r with
    d := Vector.replicate 8 0
    a := Vector.replicate 7 0
    usp := if stackOf r.sr = .user then 0 else r.usp
    isp := if stackOf r.sr = .interrupt then 0 else r.isp
    msp := if stackOf r.sr = .master then 0 else r.msp }

theorem aside_advanced : r.advanced.aside = r.aside.advanced := rfl

theorem aside_setSp (value : BitVec 32) : (r.setSp value).aside = r.aside := by
  unfold setSp
  cases used : stackOf r.sr <;> simp [setStack, aside, used]

@[simp] theorem aside_setAddress (n : RegisterNumber) (value : BitVec 32) :
    (r.setAddress n value).aside = r.aside := by
  unfold setAddress
  split
  · rfl
  · exact r.aside_setSp value

@[simp] theorem aside_setGeneral (n : GeneralRegister) (value : BitVec 32) :
    (r.setGeneral n value).aside = r.aside := by
  unfold setGeneral
  split
  · rfl
  · exact r.aside_setAddress n.number value

/-- A register file is what is aside, with the general registers in place. -/
theorem eq_aside : { r.aside.setSp r.sp with d := r.d, a := r.a } = r := by
  have same : r.aside.sr = r.sr := rfl
  unfold setSp sp
  rw [same]
  cases used : stackOf r.sr <;> simp [setStack, stack, aside, used]

variable {r}

/-- Registers are the same if the general ones are, and what is aside. -/
theorem ext_general {r' : Registers} (aside : r'.aside = r.aside)
    (general : ∀ n, r'.general n = r.general n) : r' = r := by
  have data : r'.d = r.d := by
    refine Vector.ext fun i hi => ?_
    have same := general (.data ⟨i, hi⟩)
    rwa [general_data, general_data] at same
  have address (n : RegisterNumber) : r'.address n = r.address n := by
    rw [← general_address, ← general_address]
    exact general _
  have low : r'.a = r.a := by
    refine Vector.ext fun i hi => ?_
    have same := address ⟨i, Nat.lt_succ_of_lt hi⟩
    unfold Registers.address at same
    rwa [dif_pos hi, dif_pos hi] at same
  have stack : r'.sp = r.sp := address 7
  rw [← r'.eq_aside, ← r.eq_aside, aside, data, low, stack]

/-- The program counter and the status register are aside. -/
theorem of_aside {r' : Registers} (aside : r'.aside = r.aside) : r'.pc = r.pc ∧ r'.sr = r.sr := by
  have pc := congrArg Registers.pc aside
  have sr := congrArg Registers.sr aside
  exact ⟨pc, sr⟩

/-- The next instruction is behind the present one, whatever that makes of general registers. -/
theorem pc_advanced {r' : Registers} (aside : r'.aside = r.aside) : r'.advanced.pc = r.pc + 4 :=
  congrArg (· + 4) (of_aside aside).1

/-- Registers that agree but for some of the general ones. -/
structure SameBut (listed : GeneralRegister → Prop) (r r' : Registers) : Prop where
  aside : r'.aside = r.aside
  general : ∀ n, ¬listed n → r'.general n = r.general n

variable (r)

/-- The registers when those of a list were loaded one after the other. -/
def loaded (values : GeneralRegister → BitVec 32) (list : List GeneralRegister) : Registers :=
  list.foldl (fun r n => r.setGeneral n (values n)) r

variable (values : GeneralRegister → BitVec 32) (list : List GeneralRegister)

@[simp] theorem aside_loaded : (r.loaded values list).aside = r.aside := by
  induction list generalizing r with
  | nil => rfl
  | cons n rest ih => exact (ih (r.setGeneral n (values n))).trans (r.aside_setGeneral n _)

/-- Those that were loaded hold what they were given, the others what they held. -/
theorem general_loaded (k : GeneralRegister) :
    (r.loaded values list).general k = if k ∈ list then values k else r.general k := by
  induction list generalizing r with
  | nil => rfl
  | cons n rest ih =>
    refine (ih (r.setGeneral n (values n))).trans ?_
    rw [general_setGeneral, ite_mem_cons]

end Registers

end M68k
