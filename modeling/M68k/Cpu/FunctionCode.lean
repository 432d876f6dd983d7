/-!
# Function codes

With every access the processor puts out a function code, which tells program from data and user
from supervisor.  Of the eight codes three have no meaning of their own; moves between address
spaces can use them all.

* `ofCode_code` — a code's number determines it.
-/

namespace M68k

/-- The function code of an access. -/
inductive FunctionCode where
  | reserved0
  | userData
  | userProgram
  | reserved3
  | reserved4
  | supervisorData
  | supervisorProgram
  /-- Interrupt acknowledge, breakpoints and coprocessors. -/
  | cpuSpace
  deriving DecidableEq, Repr, Inhabited

namespace FunctionCode

/-- The number on the three function code lines. -/
def code : FunctionCode → BitVec 3
  | reserved0 => 0
  | userData => 1
  | userProgram => 2
  | reserved3 => 3
  | reserved4 => 4
  | supervisorData => 5
  | supervisorProgram => 6
  | cpuSpace => 7

/-- The function code with a number. -/
def ofCode (code : BitVec 3) : FunctionCode :=
  match code.toNat with
  | 0 => reserved0
  | 1 => userData
  | 2 => userProgram
  | 3 => reserved3
  | 4 => reserved4
  | 5 => supervisorData
  | 6 => supervisorProgram
  | _ => cpuSpace

/-- The function code of an ordinary access to program or data. -/
def ofMode (supervisor program : Bool) : FunctionCode :=
  match supervisor, program with
  | false, false => userData
  | false, true => userProgram
  | true, false => supervisorData
  | true, true => supervisorProgram

/-- Whether the access is to a program. -/
def isProgram : FunctionCode → Bool
  | userProgram | supervisorProgram => true
  | _ => false

/-- The name under which a function code is reported. -/
def name : FunctionCode → String
  | reserved0 => "Reserved0"
  | userData => "UserData"
  | userProgram => "UserProgram"
  | reserved3 => "Reserved3"
  | reserved4 => "Reserved4"
  | supervisorData => "SupervisorData"
  | supervisorProgram => "SupervisorProgram"
  | cpuSpace => "CpuSpace"

/-- The number of a function code determines it. -/
@[simp] theorem ofCode_code (fc : FunctionCode) : ofCode fc.code = fc := by
  cases fc <;> rfl

/-- Ordinary accesses say whether they are to a program. -/
@[simp] theorem isProgram_ofMode (supervisor program : Bool) :
    (ofMode supervisor program).isProgram = program := by
  cases supervisor <;> cases program <;> rfl

end FunctionCode

end M68k
