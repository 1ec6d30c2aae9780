/-!
# The instruction set

Fourteen opcodes of one byte. A constant operand takes one more byte, an address two, the low byte
first.
-/
namespace Timeshare

/-- The registers that can be loaded. -/
inductive Register where
  | accumulator
  | x
  | y
deriving DecidableEq, Repr, Inhabited

inductive Opcode where
  | loadConstant (target : Register)
  | load (target : Register)
  | store
  | add
  | noOperation
  | breakpoint
  | compare
  | branch
  | increment
  | systemCall
deriving DecidableEq, Repr, Inhabited

namespace Opcode

def byte : Opcode → UInt8
  | loadConstant .accumulator => 0xA9
  | load .accumulator => 0xAD
  | store => 0x8D
  | add => 0x6D
  | loadConstant .x => 0xA2
  | load .x => 0xAE
  | loadConstant .y => 0xA0
  | load .y => 0xAC
  | noOperation => 0xEA
  | breakpoint => 0x00
  | compare => 0xEC
  | branch => 0xD0
  | increment => 0xEE
  | systemCall => 0xFF

def decode? : UInt8 → Option Opcode
  | 0xA9 => some (loadConstant .accumulator)
  | 0xAD => some (load .accumulator)
  | 0x8D => some store
  | 0x6D => some add
  | 0xA2 => some (loadConstant .x)
  | 0xAE => some (load .x)
  | 0xA0 => some (loadConstant .y)
  | 0xAC => some (load .y)
  | 0xEA => some noOperation
  | 0x00 => some breakpoint
  | 0xEC => some compare
  | 0xD0 => some branch
  | 0xEE => some increment
  | 0xFF => some systemCall
  | _ => none

def mnemonic : Opcode → String
  | loadConstant .accumulator | load .accumulator => "LDA"
  | loadConstant .x | load .x => "LDX"
  | loadConstant .y | load .y => "LDY"
  | store => "STA"
  | add => "ADC"
  | noOperation => "NOP"
  | breakpoint => "BRK"
  | compare => "CPX"
  | branch => "BNE"
  | increment => "INC"
  | systemCall => "SYS"

@[simp]
theorem decode?_byte (op : Opcode) : decode? op.byte = some op := by
  cases op with
  | loadConstant r => cases r <;> rfl
  | load r => cases r <;> rfl
  | _ => rfl

end Opcode

end Timeshare
