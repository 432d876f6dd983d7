import M68k.Cpu.Exception
import M68k.Cpu.Execution.Arithmetic
import M68k.Cpu.Execution.Bits
import M68k.Cpu.Execution.Control
import M68k.Cpu.Execution.Coprocessor
import M68k.Cpu.Execution.Moves
import M68k.Cpu.Execution.Multiplication

/-!
# What each instruction does

One equation for each instruction.

* `perform_nop` — an instruction that does nothing.
-/

namespace M68k

namespace Execution

open MachineM

variable {β : Type} [Bus β]

/-- Performs an instruction whose opcode has been fetched.  A return from an exception looks at no
more than `limit` frames. -/
def perform (host : Fpu.HostMath) (limit : Nat) : Instruction → MachineM β Unit
  | .move size src dst => move size src dst
  | .movea size src r => movea size src r
  | .moveq r constant => moveq r constant
  | .movem size toMemory mode => movem size toMemory mode
  | .movep size toMemory dataRegister addressRegister =>
    movep size toMemory dataRegister addressRegister
  | .lea src r => lea src r
  | .pea src => pea src
  | .exg rx ry => exg rx ry
  | .swap r => swap r
  | .ext r source size => ext r source size
  | .link r long => link r long
  | .unlk r => unlk r
  | .moveFromSr dst => moveFromSr dst
  | .moveFromCcr dst => moveFromCcr dst
  | .moveToCcr src => moveToCcr src
  | .moveToSr src => moveToSr src
  | .moveUsp r toUsp => moveUsp r toUsp
  | .movec toControl => movec toControl
  | .moves size mode => moves size mode
  | .move16 opcode => move16 opcode
  | .alu op size mode r toOperand => alu op size mode r toOperand
  | .aluAddress op size src r => aluAddress op size src r
  | .aluImmediate op size mode => aluImmediate op size mode
  | .aluQuick add size constant mode => aluQuick add size constant mode
  | .aluExtend add size rx ry memory => aluExtend add size rx ry memory
  | .cmpm size rx ry => cmpm size rx ry
  | .toCcr op => toCcr op
  | .toSr op => toSr op
  | .unary op size mode => unary op size mode
  | .tst size mode => tst size mode
  | .tas mode => tas mode
  | .mul signed src r => mul signed src r
  | .div signed src r => div signed src r
  | .mulLong src => mulLong src
  | .divLong src => divLong src
  | .bcd add rx ry memory => bcd add rx ry memory
  | .nbcd mode => nbcd mode
  | .pack unpack rx ry memory => packOrUnpack unpack rx ry memory
  | .chk size src r => chk size src r
  | .chk2 size mode => chk2 size mode
  | .cas size mode => cas size mode
  | .cas2 size => cas2 size
  | .shiftRegister kind left size count r => shiftRegister kind left size count r
  | .shiftMemory kind left mode => shiftMemory kind left mode
  | .bit op src mode => bit op src mode
  | .bitField op mode => bitField op mode
  | .bcc condition displacement => bcc condition displacement
  | .dbcc condition r => dbcc condition r
  | .scc condition mode => scc condition mode
  | .trapcc condition extra => trapcc condition extra
  | .jmp mode => jmp mode
  | .jsr mode => jsr mode
  | .rts => rts
  | .rtr => rtr
  | .rte => do
    requireSupervisor
    returnFromException limit
  | .rtd => rtd
  | .trap number => throw (.trap (.trap number))
  | .trapv => trapv
  | .nop => pure ()
  | .reset => resetDevices
  | .stop => stop
  | .illegal | .bkpt => illegal
  | .lineA => throw (.exception .lineA)
  | .lineF => lineF host
  | .cacheOp | .mmuOp => requireSupervisor

/-- No operation changes nothing at all. -/
theorem perform_nop (host : Fpu.HostMath) (limit : Nat) :
    perform host limit .nop = (pure () : MachineM β Unit) := rfl

end Execution

end M68k
