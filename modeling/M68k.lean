import M68k.Fpu.Frame
import M68k.Value
import M68k.Ticks
import M68k.Cpu.Shift
import M68k.Cpu.BitField
import M68k.Cpu.AddressMode
import M68k.Cpu.Model
import M68k.Cpu.Bus
import M68k.Cpu.Registers
import M68k.Cpu.Instruction.Text
import M68k.Cpu.Instruction.Decoder
import M68k.Cpu.Timing
import M68k.Cpu.Frame
import M68k.Cpu.Operand
import M68k.Cpu.Execution.Moves
import M68k.Cpu.Execution.Arithmetic
import M68k.Cpu.Execution.Multiplication
import M68k.Cpu.Execution.Bits
import M68k.Cpu.Execution.Flow
import M68k.Cpu.Execution.Control
import M68k.Cpu.Exception
import M68k.Cpu.Execution.Coprocessor
import M68k.Cpu.Run
import M68k.Cpu.Property
import M68k.Cpu.Memory
import M68k.Proofs.Fp.CorrectRounding
import M68k.Proofs.Cpu.UserMode
import M68k.Proofs.Cpu.CallTermination
import M68k.Proofs.Cpu.ExceptionReturn
import M68k.Proofs.Cpu.FormatError
import M68k.Proofs.Cpu.DoubleFault
import M68k.Proofs.Cpu.ImplementedBits
import M68k.Proofs.Cpu.UnitFrame
import M68k.Proofs.Cpu.Prefetch
import M68k.Proofs.Cpu.LegalAccess
import M68k.Proofs.Cpu.PreciseRefusal
import M68k.Proofs.Cpu.UndefinedEncoding
import M68k.Proofs.Cpu.OperandSpace
import M68k.Proofs.Cpu.RegisterSave
import M68k.Proofs.Cpu.UnitRegisterSave
import M68k.Proofs.Decimal.RoundTrip
import M68k.Proofs.Fp.Canonical
import M68k.Proofs.Fp.Widening
import M68k.Proofs.Fp.Order
import M68k.Proofs.Fpu.Comparison
import M68k.Proofs.Fpu.Accrual
import M68k.Proofs.Fpu.NaNResult
import M68k.Proofs.Fpu.OperandRoundTrip
import M68k.Proofs.Fp.SameNumber
import M68k.Proofs.Fp.SquareRoot
import M68k.Proofs.Fp.Remainder
import M68k.Proofs.Fp.IntegralRounding
import M68k.Proofs.Fp.Comparison
import M68k.Proofs.Fp.StickyFlags
import M68k.Proofs.Fpu.Scaling
import M68k.Proofs.Cpu.LimbChain
import M68k.Proofs.Cpu.DecimalChain
import M68k.Proofs.Cpu.ShiftClosedForm
import M68k.Proofs.Cpu.ProductQuotient
import M68k.Proofs.Cpu.FieldOperation
import M68k.Proofs.Cpu.BoundsComparison
import M68k.Proofs.Cpu.PropertyPath
import M68k.Proofs.Cpu.FaultAddress
import M68k.Fp.OnStatus
import M68k.Proofs.Fp.OnStatus
import M68k.Fp.WorkingForm
import M68k.Fp.WorkingOperation
import M68k.Proofs.Fp.WorkingWord
import M68k.Proofs.Fp.WorkingNumber
import M68k.Proofs.Fp.WorkingArithmetic
import M68k.Proofs.Fp.WorkingEncoding
import M68k.Proofs.Fp.WorkingRounding
import M68k.Proofs.Fp.CheckedArithmetic
import M68k.Proofs.Fp.CheckedConversion
import M68k.Proofs.Fp.CheckedOperation
import M68k.Decimal.Limbs
import M68k.Decimal.LimbConversion
import M68k.Proofs.Decimal.LimbNumber
import M68k.Proofs.Decimal.LimbArithmetic
import M68k.Proofs.Decimal.LimbConversion
import M68k.Proofs.Cpu.DecodedPlaces
import M68k.Proofs.Cpu.OperandRole
import M68k.Proofs.Cpu.PlaceInProgram
import M68k.Proofs.Cpu.InstructionRole
import M68k.Proofs.Cpu.DecoderAgreement
