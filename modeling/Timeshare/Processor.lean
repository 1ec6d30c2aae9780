import Timeshare.Memory
import Timeshare.Traced

/-!
# The processor

One cycle runs one instruction of a process inside its partition. The counter wraps at the
partition's end, operands included. A fault is raised as an interrupt and the cycle still
completes, with the counter behind the bytes that were fetched.
-/
namespace Timeshare

namespace Registers

/-- Moves the counter to the next byte of a partition of `size` bytes. -/
def advance (r : Registers) (size : Nat) : Registers := { r with counter := (r.counter + 1) % size }

/-- Moves the counter by a signed offset inside a partition of `size` bytes. -/
def jump (r : Registers) (size : Nat) (offset : Int) : Registers :=
  { r with counter := (((r.counter : Int) + offset) % (size : Int)).toNat }

def set (r : Registers) (target : Register) (byte : UInt8) : Registers :=
  match target with
  | .accumulator => { r with accumulator := byte }
  | .x => { r with x := byte }
  | .y => { r with y := byte }

end Registers

/-- What an instruction leaves behind, with the counter on the last byte that it fetched. -/
structure Effect where
  registers : Registers
  memory : Memory
  raised : Option Interrupt := none

namespace Effect

variable (p : Process) (m : Memory)

def fault (r : Registers) (address : Nat) : Effect := ⟨r, m, some (.memoryFault p.pid address)⟩

/-- Fetches the next byte of the program. -/
def withOperand (r : Registers) (next : Registers → UInt8 → Effect) : Effect :=
  let r := r.advance m.partitionSize
  match m.load? p.partition r.counter with
  | some byte => next r byte
  | none => fault p m r r.counter

/-- Fetches an address, the low byte first. -/
def withAddress (r : Registers) (next : Registers → Nat → Effect) : Effect :=
  withOperand p m r fun r low =>
    withOperand p m r fun r high => next r (low.toNat + 256 * high.toNat)

/-- Fetches an address and the byte there. -/
def withCell (r : Registers) (next : Registers → Nat → UInt8 → Effect) : Effect :=
  withAddress p m r fun r address =>
    match m.load? p.partition address with
    | some byte => next r address byte
    | none => fault p m r address

/-- Stores a byte of the partition. -/
def storing (r : Registers) (address : Nat) (byte : UInt8) : Effect :=
  match m.store? p.partition address byte with
  | some m => { registers := r, memory := m }
  | none => fault p m r address

/-- The effect of one instruction whose opcode stands at the counter. -/
def ofOpcode (r : Registers) : Opcode → Effect
  | .loadConstant target => withOperand p m r fun r byte => ⟨r.set target byte, m, none⟩
  | .load target => withCell p m r fun r _ byte => ⟨r.set target byte, m, none⟩
  | .store => withAddress p m r fun r address => storing p m r address r.accumulator
  | .add => withCell p m r fun r _ byte =>
      ⟨{ r with accumulator := r.accumulator + byte }, m, none⟩
  | .noOperation => ⟨r, m, none⟩
  | .breakpoint => ⟨r, m, some (.cpuBreak p.pid)⟩
  | .compare => withCell p m r fun r _ byte => ⟨{ r with zero := r.x == byte }, m, none⟩
  | .branch => withOperand p m r fun r byte =>
      ⟨if r.zero then r else r.jump m.partitionSize byte.toInt8.toInt, m, none⟩
  | .increment => withCell p m r fun r address byte => storing p m r address (byte + 1)
  | .systemCall => ⟨r, m, some (.sysCall p.pid r.accumulator r.x r.y)⟩

end Effect

/-- The live registers, and whether every tick executes a cycle. -/
structure Processor where
  registers : Registers := {}
  executing : Bool := false
deriving DecidableEq, Repr, Inhabited

/-- The outcome of one cycle. At most one interrupt is raised. -/
structure Cycle where
  processor : Processor
  process : Process
  memory : Memory
  raised : Option Interrupt

namespace Processor

/-- Binds a process to the register file. -/
def bind (p : Process) (executing : Bool) : Processor := ⟨p.registers, executing⟩

/-- Ends a cycle: the counter moves past the last byte that was fetched. -/
def finish (c : Processor) (p : Process) (e : Effect) : Cycle :=
  { processor := { c with registers := e.registers.advance e.memory.partitionSize }
    process := p
    memory := e.memory
    raised := e.raised }

/-- Runs one instruction of `p`. A break snapshots the registers into the process. -/
def cycle (c : Processor) (p : Process) (m : Memory) : Traced Cycle :=
  let r := c.registers
  match m.load? p.partition r.counter with
  | none => pure (c.finish p (Effect.fault p m r r.counter))
  | some byte =>
    match Opcode.decode? byte with
    | none => pure (c.finish p ⟨r, m, some (.unknownOpcode p.pid byte r.counter)⟩)
    | some opcode => do
      Traced.report (.executing p.pid r.counter opcode)
      let p' := if opcode = .breakpoint then p.save r else p
      pure (c.finish p' (Effect.ofOpcode p m r opcode))

end Processor

end Timeshare
