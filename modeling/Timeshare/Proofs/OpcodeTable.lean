import Timeshare.Proofs.Runs

/-!
# The opcode table

The instruction set as a manual gives it: a table of fourteen rows, each with the byte that stands
for the instruction, the form of its operand, and what becomes of the registers, of the byte that is
addressed and of the process. How far the counter moves and which addresses are out of reach depends
on the form alone.

The processor fetches and stores byte by byte and may have to stop halfway. That it does what the
table says comes from its agreement with the reference machine, whose instructions are compared
with the rows here.
-/
namespace Timeshare

open Opcode (decode?)

/-- What a cycle leaves of the registers, the bytes of the partition and the process, and the
interrupt that it raises. -/
structure Outcome where
  registers : Registers
  bytes : List UInt8
  process : Process
  raised : Option Interrupt := none
deriving DecidableEq

/-- An instruction by the form of its operand. -/
inductive Row where
  /-- One byte. The process may change, and an interrupt may be raised. -/
  | alone (next : Process → Registers → Process × Option Interrupt)
  /-- Two bytes, the second of them a constant. -/
  | constant (next : Registers → UInt8 → Registers)
  /-- Two bytes, the second of them a signed distance to go if the branch is taken. -/
  | branch (taken : Registers → Bool)
  /-- Three bytes, the last two of them the address of a byte, which may change. -/
  | cell (next : Registers → UInt8 → Registers × UInt8)

/-- The opcode table. -/
def opcodeTable : List (UInt8 × Row) := [
  (0xA9, .constant fun r byte => { r with accumulator := byte }),
  (0xAD, .cell fun r byte => ({ r with accumulator := byte }, byte)),
  (0x8D, .cell fun r _ => (r, r.accumulator)),
  (0x6D, .cell fun r byte => ({ r with accumulator := r.accumulator + byte }, byte)),
  (0xA2, .constant fun r byte => { r with x := byte }),
  (0xAE, .cell fun r byte => ({ r with x := byte }, byte)),
  (0xA0, .constant fun r byte => { r with y := byte }),
  (0xAC, .cell fun r byte => ({ r with y := byte }, byte)),
  (0xEA, .alone fun p _ => (p, none)),
  (0x00, .alone fun p r => (p.save r, some (.cpuBreak p.pid))),
  (0xEC, .cell fun r byte => ({ r with zero := r.x == byte }, byte)),
  (0xD0, .branch fun r => !r.zero),
  (0xEE, .cell fun r byte => (r, byte + 1)),
  (0xFF, .alone fun p r => (p, some (.sysCall p.pid r.accumulator r.x r.y)))]

namespace Solo

/-- Registers with the counter `k` bytes further, around the end of the partition. -/
def past (s : Solo) (k : Nat) (r : Registers) : Registers :=
  { r with counter := (s.registers.counter + k) % s.bytes.length }

end Solo

/-- What an instruction does that stands at the counter. -/
def Row.outcome (p : Process) (s : Solo) : Row → Outcome
  | alone next =>
    { registers := s.past 1 s.registers, bytes := s.bytes
      process := (next p s.registers).1, raised := (next p s.registers).2 }
  | constant next =>
    { registers := s.past 2 (next s.registers (s.ahead 1)), bytes := s.bytes, process := p }
  | branch taken =>
    let target : Int := s.registers.counter + 2 + (s.ahead 1).toInt8.toInt
    let registers :=
      if taken s.registers then { s.registers with counter := (target % s.bytes.length).toNat }
      else s.past 2 s.registers
    { registers, bytes := s.bytes, process := p }
  | cell next =>
    if h : s.address < s.bytes.length then
      let (registers, byte) := next s.registers s.bytes[s.address]
      { registers := s.past 3 registers, bytes := s.bytes.set s.address byte, process := p }
    else
      { registers := s.past 3 s.registers, bytes := s.bytes, process := p
        raised := some (.memoryFault p.pid s.address) }

/-- What a cycle does: the row of the byte at the counter, and where there is none, the counter
moves on and the byte is reported. -/
def outcome (p : Process) (s : Solo) : Outcome :=
  let opcode := s.bytes.getD s.registers.counter 0
  match opcodeTable.lookup opcode with
  | some row => row.outcome p s
  | none =>
    { registers := s.past 1 s.registers, bytes := s.bytes, process := p
      raised := some (.unknownOpcode p.pid opcode s.registers.counter) }

/-! ## The rows and the reference machine -/

/-- A step of the reference machine with the process `q` behind it. -/
def Outcome.ofSolo (pid : Pid) (q : Process) (next : Solo × Option Trap) : Outcome where
  registers := next.1.registers
  bytes := next.1.bytes
  process := q
  raised := next.2.map (Trap.interrupt pid)

section

variable {p : Process} {s : Solo}

/-- An instruction on a byte, by what it does where there is one. -/
theorem Row.outcome_cell {next : Registers → UInt8 → Registers × UInt8} {onByte : UInt8 → Solo}
    (hcounter : ∀ byte, (next s.registers byte).1.counter = s.registers.counter)
    (h : ∀ byte, s.bytes[s.address]? = some byte →
      onByte byte = ⟨(next s.registers byte).1, s.bytes.set s.address (next s.registers byte).2⟩) :
    (Row.cell next).outcome p s = .ofSolo p.pid p (s.onCell onByte) := by
  rw [outcome, Solo.onCell]
  split
  · rename_i hlt
    have hbyte := List.getElem?_eq_getElem hlt
    rw [hbyte, Outcome.ofSolo]
    simp only [Option.map_none]
    rw [h _ hbyte]
    simp only [Solo.moved, Solo.past, Registers.forward, List.length_set, hcounter]
  · rename_i hge
    rw [List.getElem?_eq_none (Nat.le_of_not_lt hge)]
    rfl

/-- Putting the byte back that is there changes nothing. -/
theorem set_of_getElem?_eq_some {bytes : List UInt8} {i : Nat} {byte : UInt8}
    (h : bytes[i]? = some byte) : bytes.set i byte = bytes := by
  obtain ⟨hlt, rfl⟩ := List.getElem?_eq_some_iff.1 h
  exact List.set_getElem_self hlt

/-- An instruction that reads a byte and keeps it. -/
theorem Row.outcome_read (change : Registers → UInt8 → Registers)
    (hcounter : ∀ byte, (change s.registers byte).counter = s.registers.counter) :
    (Row.cell fun r byte => (change r byte, byte)).outcome p s =
      .ofSolo p.pid p (s.onCell fun byte => { s with registers := change s.registers byte }) := by
  refine outcome_cell hcounter fun byte hbyte => ?_
  rw [set_of_getElem?_eq_some hbyte]

theorem eq_byte_of_decode? {byte : UInt8} {opcode : Opcode} (h : decode? byte = some opcode) :
    byte = opcode.byte := by
  unfold decode? at h
  split at h
  all_goals first
    | cases h
      rfl
    | cases h

/-- The table has a row for every byte that can be decoded, and for no other one. -/
theorem lookup_of_decode?_eq_none {byte : UInt8} (h : decode? byte = none) :
    opcodeTable.lookup byte = none := by
  have hrows : ∀ row ∈ opcodeTable, (decode? row.1).isSome = true := by decide
  rw [List.lookup_eq_none_iff]
  intro row hrow
  have hsome := hrows row hrow
  rw [bne_iff_ne]
  rintro rfl
  rw [h] at hsome
  cases hsome

/-- The row of an opcode does what the reference machine does, with a snapshot in the process for a
break. -/
theorem outcome_of_opcode {opcode : Opcode}
    (h : s.bytes.getD s.registers.counter 0 = opcode.byte) :
    outcome p s = .ofSolo p.pid (if opcode = .breakpoint then p.save s.registers else p)
      (s.run opcode) := by
  simp only [outcome, h]
  cases opcode with
  | loadConstant target => cases target <;> rfl
  | load target =>
    cases target with
    | accumulator =>
      exact Row.outcome_read (fun r byte => { r with accumulator := byte }) fun _ => rfl
    | x => exact Row.outcome_read (fun r byte => { r with x := byte }) fun _ => rfl
    | y => exact Row.outcome_read (fun r byte => { r with y := byte }) fun _ => rfl
  | store => exact Row.outcome_cell (fun _ => rfl) fun _ _ => rfl
  | add =>
    exact Row.outcome_read (fun r byte => { r with accumulator := r.accumulator + byte })
      fun _ => rfl
  | noOperation => rfl
  | breakpoint => rfl
  | compare =>
    exact Row.outcome_read (fun r byte => { r with zero := r.x == byte }) fun _ => rfl
  | branch =>
    have hdistance := Int.add_assoc s.registers.counter 2 (s.ahead 1).toInt8.toInt
    show (Row.branch fun r => !r.zero).outcome p s = _
    simp only [Row.outcome, Solo.run, hdistance]
    by_cases hz : s.registers.zero = true
    · rw [if_pos hz, if_neg (by simp [hz])]
      rfl
    · rw [if_neg hz, if_pos (by simpa using hz)]
      rfl
  | increment => exact Row.outcome_cell (fun _ => rfl) fun _ _ => rfl
  | systemCall => rfl

/-- A cycle by the table is a cycle of the reference machine. -/
theorem outcome_eq (h : s.registers.counter < s.bytes.length) :
    outcome p s =
      .ofSolo p.pid (if s.trap? = some .breakpoint then p.save s.registers else p) s.cycle := by
  have hopcode : s.ahead 0 = s.bytes.getD s.registers.counter 0 := by
    rw [Solo.ahead, Nat.add_zero, Nat.mod_eq_of_lt h]
  cases hdecode : decode? (s.ahead 0) with
  | none =>
    have hcycle := Solo.cycle_of_decode_none hdecode
    rw [Solo.trap?, hcycle, if_neg (by simp)]
    rw [hopcode] at hdecode ⊢
    simp only [outcome, lookup_of_decode?_eq_none hdecode]
    rfl
  | some opcode =>
    have hcycle := Solo.cycle_of_decode_some hdecode
    rw [outcome_of_opcode (hopcode.symm.trans (eq_byte_of_decode? hdecode)), Solo.trap?, hcycle]
    simp only [Solo.run_breaks_iff]

end

/-! ## Cycles of the kernel -/

theorem foldl_enqueue (q : InterruptQueue) (batch : List Interrupt) :
    batch.foldl .enqueue q = ⟨q.pending ++ batch⟩ := by
  induction batch generalizing q with
  | nil => rfl
  | cons i batch ih => exact ih (q.enqueue i)

/-- **The processor implements its instruction set inside one partition.** A cycle of the current
process has the outcome that the opcode table gives for its registers and the bytes of its
partition, with the interrupt behind those that wait. All else is as it was, the bytes of other
partitions included. Counters and distances are plain numbers, so partitions may have any size. -/
theorem Kernel.cycle_implements_table {k : Kernel} {p : Process} (hcurrent : k.current = some p)
    (hp : p.partition < k.memory.partitionCount)
    (hc : k.processor.registers.counter < k.memory.partitionSize) :
    let s : Solo := ⟨k.processor.registers, k.memory.contents p.partition⟩
    let o := outcome p s
    s.bytes.length = k.memory.partitionSize ∧
      ∃ memory, k.cycle.value = { k with
          memory
          processor := { k.processor with registers := o.registers }
          current := some o.process
          interrupts := ⟨k.interrupts.pending ++ o.raised.toList⟩ } ∧
        memory.contents p.partition = o.bytes ∧
        (∀ q ≠ p.partition, memory.contents q = k.memory.contents q) ∧
        memory.partitionSize = k.memory.partitionSize ∧ memory.inUse = k.memory.inUse := by
  intro s o
  have hlength : s.bytes.length = k.memory.partitionSize := k.memory.length_contents hp
  have hagrees := k.processor.cycle_agrees hp hc
  have ho : o = _ := outcome_eq (p := p) (s := s) (hlength ▸ hc)
  refine ⟨hlength, (k.processor.cycle p k.memory).value.memory, ?_, ?_, hagrees.others_eq,
    hagrees.layout.partitionSize_eq, hagrees.layout.inUse_eq⟩
  · rw [cycle, hcurrent]
    simp only [Traced.value_bind, Traced.value_pure, hagrees.processor_eq, hagrees.process_eq,
      hagrees.raised_eq, foldl_enqueue]
    rw [ho]
    rfl
  · rw [hagrees.contents_eq, ho]
    rfl

/-- An increment around the end of a partition that changes its own opcode. -/
theorem Kernel.cycle_implements_table_small :
    let loaded := Machine.small.value.afterAll [.ask (.load [0x00, 0x00, 0xEE, 0x02]), .ask .runAll]
    let k : Kernel := { loaded.value.toKernel with processor.registers.counter := 2 }
    let p : Process := { pid := 0, partition := 0, status := .running }
    k.current = some p ∧ p.partition < k.memory.partitionCount ∧
      k.processor.registers.counter < k.memory.partitionSize ∧
      ∃ memory, k.cycle.value = { k with
          memory
          processor := { k.processor with registers := { counter := 1 } }
          current := some p } ∧
        memory.contents p.partition = [0x00, 0x00, 0xEF, 0x02] ∧
        (∀ q ≠ p.partition, memory.contents q = k.memory.contents q) ∧
        memory.partitionSize = k.memory.partitionSize ∧ memory.inUse = k.memory.inUse := by
  intro loaded k p
  have hcurrent : k.current = some p := by decide +kernel
  have hp : p.partition < k.memory.partitionCount := by decide +kernel
  have hc : k.processor.registers.counter < k.memory.partitionSize := by decide +kernel
  have hrow : outcome p ⟨k.processor.registers, k.memory.contents p.partition⟩ =
      { registers := { counter := 1 }, bytes := [0x00, 0x00, 0xEF, 0x02], process := p } := by
    decide +kernel
  have hcycle := (Kernel.cycle_implements_table hcurrent hp hc).2
  rw [hrow] at hcycle
  exact ⟨hcurrent, hp, hc, hcycle⟩

/-- A fault in the operand of an instruction that fills its partition: only the counter moves, back
to where it was. -/
example : outcome {} ⟨{ accumulator := 5 }, [0xAD, 0xFF, 0x7F]⟩ =
    { registers := { accumulator := 5 }, bytes := [0xAD, 0xFF, 0x7F], process := {}
      raised := some (.memoryFault 0 0x7FFF) } := by decide +kernel

/-- A branch four bytes back in a partition of three. -/
example : (outcome {} ⟨{ counter := 1 }, [0x00, 0xD0, 0xFC]⟩).registers.counter = 2 := by
  decide +kernel

end Timeshare
