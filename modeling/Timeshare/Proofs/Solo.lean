import Mathlib.Tactic
import Timeshare.Processor
import Timeshare.Proofs.Partition

/-!
# A program alone

The reference machine: one program with its registers and the bytes of its partition. It knows no
other process, no memory outside the partition and no kernel; where a cycle needs the kernel it
names a trap and the program goes on behind the instruction. The instructions are stated here once
more, on a plain list of bytes, and `Processor.cycle_agrees` says that a cycle of the processor on
a partition of memory is a step of this machine.
-/
namespace Timeshare

/-- Moves the counter by `k` bytes inside a partition of `size` bytes. -/
def Registers.forward (r : Registers) (size k : Nat) : Registers :=
  { r with counter := (r.counter + k) % size }

/-- A jump wraps around both ends of the partition. -/
theorem Registers.counter_jump_lt (r : Registers) {size : Nat} (h : 0 < size) (offset : Int) :
    (r.jump size offset).counter < size := by
  have hpos : (0 : Int) < size := by exact_mod_cast h
  have hlt := Int.emod_lt_of_pos (r.counter + offset) hpos
  have hnn := Int.emod_nonneg (r.counter + offset) hpos.ne'
  show ((r.counter + offset) % (size : Int)).toNat < size
  omega

/-- A program that has the machine to itself. -/
structure Solo where
  registers : Registers := {}
  bytes : List UInt8
deriving DecidableEq, Repr

/-- What a program wants from the kernel. -/
inductive Trap where
  | call (accumulator x y : UInt8)
  | breakpoint
  | badOpcode (opcode : UInt8) (counter : Nat)
  | badAddress (address : Nat)
deriving DecidableEq, Repr

namespace Trap

/-- The interrupt by which the kernel learns of a trap. -/
def interrupt (pid : Pid) : Trap → Interrupt
  | call accumulator x y => .sysCall pid accumulator x y
  | breakpoint => .cpuBreak pid
  | badOpcode opcode counter => .unknownOpcode pid opcode counter
  | badAddress address => .memoryFault pid address

/-- A system call lets its program go on. Every other trap is the end of it. -/
def ends : Trap → Bool
  | call .. => false
  | _ => true

end Trap

namespace Solo

/-- A program before its first cycle: zero registers, and zeros behind the program. -/
def load (size : Nat) (program : List UInt8) : Solo :=
  { bytes := program ++ List.replicate (size - program.length) 0 }

/-- The byte `k` places behind the counter, around the end of the partition. -/
def ahead (s : Solo) (k : Nat) : UInt8 :=
  s.bytes.getD ((s.registers.counter + k) % s.bytes.length) 0

/-- The address operand of the instruction at the counter. -/
def address (s : Solo) : Nat := (s.ahead 1).toNat + 256 * (s.ahead 2).toNat

def moved (s : Solo) (k : Nat) : Solo :=
  { s with registers := s.registers.forward s.bytes.length k }

/-- Moves the counter by a signed distance, around both ends of the partition. -/
def jumped (s : Solo) (distance : Int) : Solo :=
  { s with registers.counter := ((s.registers.counter + distance) % s.bytes.length).toNat }

def set (s : Solo) (target : Register) (byte : UInt8) : Solo :=
  { s with registers := s.registers.set target byte }

/-- Stores a byte at the address operand. -/
def put (s : Solo) (byte : UInt8) : Solo := { s with bytes := s.bytes.set s.address byte }

/-- An instruction on the byte at the address operand. Without such a byte nothing happens but the
fetch of the operand. -/
def onCell (s : Solo) (next : UInt8 → Solo) : Solo × Option Trap :=
  match s.bytes[s.address]? with
  | some byte => ((next byte).moved 3, none)
  | none => (s.moved 3, some (.badAddress s.address))

/-- The effect of an instruction that stands at the counter. -/
def run (s : Solo) : Opcode → Solo × Option Trap
  | .loadConstant target => ((s.set target (s.ahead 1)).moved 2, none)
  | .load target => s.onCell fun byte => s.set target byte
  | .store => s.onCell fun _ => s.put s.registers.accumulator
  | .add => s.onCell fun byte =>
      { s with registers.accumulator := s.registers.accumulator + byte }
  | .noOperation => (s.moved 1, none)
  | .breakpoint => (s.moved 1, some .breakpoint)
  | .compare => s.onCell fun byte => { s with registers.zero := s.registers.x == byte }
  | .branch =>
    (if s.registers.zero then s.moved 2 else s.jumped (2 + (s.ahead 1).toInt8.toInt), none)
  | .increment => s.onCell fun byte => s.put (byte + 1)
  | .systemCall =>
    (s.moved 1, some (.call s.registers.accumulator s.registers.x s.registers.y))

/-- One cycle, and the trap in it. -/
def cycle (s : Solo) : Solo × Option Trap :=
  match Opcode.decode? (s.ahead 0) with
  | none => (s.moved 1, some (.badOpcode (s.ahead 0) s.registers.counter))
  | some opcode => s.run opcode

def step (s : Solo) : Solo := s.cycle.1

def trap? (s : Solo) : Option Trap := s.cycle.2

/-- The next cycle is the last one of the program. -/
def ending (s : Solo) : Bool := s.trap?.any Trap.ends

/-- The first cycle that is the last one of the program is its `n`-th. -/
def EndsAt (s : Solo) : Nat → Prop
  | 0 => False
  | k + 1 => (∀ j < k, (step^[j] s).ending = false) ∧ (step^[k] s).ending = true

instance (s : Solo) : DecidablePred s.EndsAt
  | 0 => inferInstanceAs (Decidable False)
  | _ + 1 => inferInstanceAs (Decidable (_ ∧ _))

/-! ## What a step keeps -/

theorem counter_moved_lt {s : Solo} (h : 0 < s.bytes.length) (k : Nat) :
    (s.moved k).registers.counter < s.bytes.length := Nat.mod_lt _ h

theorem counter_jumped_lt {s : Solo} (h : 0 < s.bytes.length) (distance : Int) :
    (s.jumped distance).registers.counter < s.bytes.length :=
  s.registers.counter_jump_lt h distance

/-- Bytes are overwritten but never added or taken away, and the counter stays inside. -/
def Inside (s t : Solo) : Prop :=
  t.bytes.length = s.bytes.length ∧ t.registers.counter < s.bytes.length

theorem inside_moved {s t : Solo} (h : 0 < s.bytes.length) (ht : t.bytes.length = s.bytes.length)
    (k : Nat) : Inside s (t.moved k) :=
  ⟨ht, ht ▸ counter_moved_lt (ht ▸ h) k⟩

theorem inside_onCell {s : Solo} (h : 0 < s.bytes.length) {next : UInt8 → Solo}
    (hn : ∀ byte, (next byte).bytes.length = s.bytes.length) : Inside s (s.onCell next).1 := by
  unfold onCell
  cases s.bytes[s.address]? with
  | none => exact inside_moved h rfl 3
  | some byte => exact inside_moved h (hn byte) 3

theorem inside_run {s : Solo} (h : 0 < s.bytes.length) (opcode : Opcode) :
    Inside s (s.run opcode).1 := by
  cases opcode with
  | loadConstant target => exact inside_moved (t := s.set target (s.ahead 1)) h rfl 2
  | noOperation => exact inside_moved h rfl 1
  | breakpoint => exact inside_moved h rfl 1
  | systemCall => exact inside_moved h rfl 1
  | branch =>
    simp only [run]
    split
    · exact inside_moved h rfl 2
    · exact ⟨rfl, counter_jumped_lt h _⟩
  | store => exact inside_onCell h fun _ => List.length_set
  | increment => exact inside_onCell h fun _ => List.length_set
  | load target => exact inside_onCell h fun _ => rfl
  | add => exact inside_onCell h fun _ => rfl
  | compare => exact inside_onCell h fun _ => rfl

theorem inside_step {s : Solo} (h : 0 < s.bytes.length) : Inside s s.step := by
  unfold step cycle
  cases Opcode.decode? (s.ahead 0) with
  | none => exact inside_moved h rfl 1
  | some opcode => exact inside_run h opcode

end Solo

/-! ## The processor takes the steps of a program alone -/

namespace Registers

@[simp]
theorem forward_forward (r : Registers) (size j k : Nat) :
    (r.forward size j).forward size k = r.forward size (j + k) := by
  simp only [forward, Nat.mod_add_mod, Nat.add_assoc]

@[simp]
theorem zero_forward (r : Registers) (size k : Nat) : (r.forward size k).zero = r.zero := rfl

theorem advance_eq (r : Registers) (size : Nat) : r.advance size = r.forward size 1 := rfl

theorem set_forward (r : Registers) (size k : Nat) (target : Register) (byte : UInt8) :
    (r.forward size k).set target byte = (r.set target byte).forward size k := by
  cases target <;> rfl

/-- Where a branch ends up: the operand, the distance and the final move taken together. -/
theorem counter_jump {size : Nat} (h : 0 < size) (counter : Nat) (offset : Int) :
    ((((((counter + 1) % size : Nat) : Int) + offset) % size).toNat + 1) % size =
      ((counter + (2 + offset)) % (size : Int)).toNat := by
  have hpos : (0 : Int) < size := by exact_mod_cast h
  have hnn : 0 ≤ ((counter + 1 : Int) % size + offset) % size := Int.emod_nonneg _ hpos.ne'
  zify
  rw [Int.toNat_of_nonneg hnn, Int.toNat_of_nonneg (Int.emod_nonneg _ hpos.ne'),
    Int.emod_add_emod, add_assoc, Int.emod_add_emod]
  congr 1
  ring

end Registers

/-- An effect in partition `p` is what the reference machine says, once the counter has moved past
the last byte that was fetched. -/
structure Effect.Agrees (p : Process) (m : Memory) (e : Effect) (out : Solo × Option Trap) :
    Prop where
  registers_eq : e.registers.advance m.partitionSize = out.1.registers
  contents_eq : e.memory.contents p.partition = out.1.bytes
  raised_eq : e.raised = out.2.map (Trap.interrupt p.pid)
  layout : Memory.SameLayout m e.memory
  others_eq : ∀ q ≠ p.partition, e.memory.contents q = m.contents q

namespace Effect

variable {p : Process} {m : Memory} (hp : p.partition < m.partitionCount)

include hp

theorem withOperand_eq (r : Registers) (next : Registers → UInt8 → Effect) :
    withOperand p m r next =
      next (r.forward m.partitionSize 1) ((Solo.mk r (m.contents p.partition)).ahead 1) := by
  have hlt : (r.counter + 1) % m.partitionSize < (m.contents p.partition).length := by
    rw [m.length_contents hp]
    exact Nat.mod_lt _ m.partitionSize_pos
  unfold withOperand
  simp only [Memory.load?_eq, Solo.ahead, m.length_contents hp]
  rw [show (r.advance m.partitionSize).counter = (r.counter + 1) % m.partitionSize from rfl,
    List.getD_eq_getElem?_getD, List.getElem?_eq_getElem hlt]
  rfl

theorem withAddress_eq (r : Registers) (next : Registers → Nat → Effect) :
    withAddress p m r next =
      next (r.forward m.partitionSize 2) (Solo.mk r (m.contents p.partition)).address := by
  unfold withAddress
  rw [withOperand_eq hp, withOperand_eq hp, Registers.forward_forward]
  simp only [Registers.forward, Solo.address, Solo.ahead, Nat.mod_add_mod, Nat.add_assoc,
    m.length_contents hp]

omit hp in
/-- An effect on the registers alone. -/
theorem agrees_registers {r : Registers} {t : Solo} (trap : Option Trap)
    (hr : r.advance m.partitionSize = t.registers) (hb : t.bytes = m.contents p.partition) :
    Agrees p m ⟨r, m, trap.map (Trap.interrupt p.pid)⟩ (t, trap) :=
  ⟨hr, hb.symm, rfl, .refl m, fun _ _ => rfl⟩

theorem advance_forward (r : Registers) (t : Solo) (ht : t.bytes = m.contents p.partition)
    (k : Nat) (hr : t.registers = r) :
    (r.forward m.partitionSize k).advance m.partitionSize = (t.moved (k + 1)).registers := by
  rw [Registers.advance_eq, Registers.forward_forward, ← hr]
  simp only [Solo.moved, ht, m.length_contents hp]

theorem agrees_storing {r : Registers} {byte cell : UInt8}
    (hcell : m.load? p.partition (Solo.mk r (m.contents p.partition)).address = some cell) :
    Agrees p m
      (storing p m (r.forward m.partitionSize 2) (Solo.mk r (m.contents p.partition)).address byte)
      (((Solo.mk r (m.contents p.partition)).put byte).moved 3, none) := by
  have hlt : (Solo.mk r (m.contents p.partition)).address < m.partitionSize := by
    rw [Memory.load?_eq] at hcell
    rw [← m.length_contents hp]
    exact (List.getElem?_eq_some_iff.1 hcell).1
  unfold storing
  cases hs : m.store? p.partition (Solo.mk r (m.contents p.partition)).address byte with
  | none =>
    rw [m.store?_eq_none_iff hp] at hs
    omega
  | some m' =>
    obtain ⟨hlayout, hself, hother⟩ := Memory.contents_store? hs
    refine ⟨?_, hself, rfl, hlayout, hother⟩
    rw [Registers.advance_eq, Registers.forward_forward]
    simp only [Solo.moved, Solo.put, List.length_set, m.length_contents hp]

/-- Two treatments of the addressed byte agree if they agree wherever there is such a byte. -/
theorem agrees_onCell (r : Registers) {next : Registers → Nat → Effect} {alone : UInt8 → Solo}
    (hmiss : ∀ r' address, m.load? p.partition address = none →
      next r' address = fault p m r' address)
    (hhit : ∀ byte, m.load? p.partition (Solo.mk r (m.contents p.partition)).address = some byte →
      Agrees p m
        (next (r.forward m.partitionSize 2) (Solo.mk r (m.contents p.partition)).address)
        ((alone byte).moved 3, none)) :
    Agrees p m (withAddress p m r next)
      ((Solo.mk r (m.contents p.partition)).onCell alone) := by
  rw [withAddress_eq hp]
  unfold Solo.onCell
  cases hcell : (m.contents p.partition)[(Solo.mk r (m.contents p.partition)).address]? with
  | none =>
    rw [hmiss _ _ (by rw [Memory.load?_eq, hcell])]
    exact agrees_registers (some (.badAddress _)) (advance_forward hp r _ rfl 2 rfl) rfl
  | some byte => exact hhit byte (by rw [Memory.load?_eq, hcell])

/-- As `agrees_onCell`, for instructions that only look at the byte. -/
theorem agrees_withCell (r : Registers) (change : Registers → UInt8 → Registers)
    (hc : ∀ byte, change (r.forward m.partitionSize 2) byte =
      (change r byte).forward m.partitionSize 2) :
    Agrees p m (withCell p m r fun r _ byte => ⟨change r byte, m, none⟩)
      ((Solo.mk r (m.contents p.partition)).onCell fun byte =>
        ⟨change r byte, m.contents p.partition⟩) := by
  refine agrees_onCell hp r (fun r' address h => by simp only [h]) fun byte h => ?_
  simp only [h, hc]
  exact agrees_registers none (advance_forward hp _ _ rfl 2 rfl) rfl

/-- Every instruction has the effect that the reference machine gives it. -/
theorem ofOpcode_agrees (r : Registers) (opcode : Opcode) :
    Agrees p m (ofOpcode p m r opcode) ((Solo.mk r (m.contents p.partition)).run opcode) := by
  have hstay : r.advance m.partitionSize =
      ((Solo.mk r (m.contents p.partition)).moved 1).registers := by
    simp only [Solo.moved, m.length_contents hp, Registers.advance_eq]
  cases opcode with
  | loadConstant target =>
    rw [ofOpcode, withOperand_eq hp, Registers.set_forward]
    exact agrees_registers none (advance_forward hp _ _ rfl 1 rfl) rfl
  | noOperation => exact agrees_registers none hstay rfl
  | breakpoint => exact agrees_registers (some .breakpoint) hstay rfl
  | systemCall => exact agrees_registers (some (.call r.accumulator r.x r.y)) hstay rfl
  | branch =>
    rw [ofOpcode, withOperand_eq hp, Solo.run]
    by_cases hz : r.zero
    · rw [Registers.zero_forward, if_pos hz, if_pos hz]
      exact agrees_registers none (advance_forward hp r _ rfl 1 rfl) rfl
    · rw [Registers.zero_forward, if_neg hz, if_neg hz]
      refine agrees_registers none ?_ rfl
      have hjump := Registers.counter_jump m.partitionSize_pos r.counter
        ((Solo.mk r (m.contents p.partition)).ahead 1).toInt8.toInt
      simp only [Registers.advance, Registers.jump, Registers.forward, Solo.jumped,
        m.length_contents hp, hjump]
  | load target =>
    exact agrees_withCell hp r (fun r byte => r.set target byte) fun byte =>
      r.set_forward _ 2 target byte
  | add =>
    exact agrees_withCell hp r (fun r byte => { r with accumulator := r.accumulator + byte })
      fun byte => rfl
  | compare =>
    exact agrees_withCell hp r (fun r byte => { r with zero := r.x == byte }) fun byte => rfl
  | store =>
    rw [ofOpcode, Solo.run]
    refine agrees_onCell hp r (fun r' address h => ?_) fun byte h => agrees_storing hp h
    rw [Memory.load?_eq, List.getElem?_eq_none_iff, m.length_contents hp] at h
    simp only [storing, (m.store?_eq_none_iff hp address _).2 h]
  | increment =>
    rw [ofOpcode, withCell, Solo.run]
    refine agrees_onCell hp r (fun r' address h => by simp only [h]) fun byte h => ?_
    simp only [h]
    exact agrees_storing hp h

end Effect

theorem Solo.cycle_of_decode_none {s : Solo} (h : Opcode.decode? (s.ahead 0) = none) :
    s.cycle = (s.moved 1, some (.badOpcode (s.ahead 0) s.registers.counter)) := by
  rw [cycle, h]

theorem Solo.cycle_of_decode_some {s : Solo} {opcode : Opcode}
    (h : Opcode.decode? (s.ahead 0) = some opcode) : s.cycle = s.run opcode := by
  rw [cycle, h]

/-- Only the break instruction breaks. -/
theorem Solo.run_breaks_iff (s : Solo) (opcode : Opcode) :
    (s.run opcode).2 = some .breakpoint ↔ opcode = .breakpoint := by
  have hcell : ∀ next : UInt8 → Solo, (s.onCell next).2 ≠ some .breakpoint := by
    intro next
    unfold onCell
    cases s.bytes[s.address]? <;> simp
  cases opcode <;> simp [run, hcell]

/-- A cycle in partition `p` is a step of the program alone, with a snapshot of the registers in
the process if it breaks. -/
structure Cycle.Agrees (c : Processor) (p : Process) (m : Memory) (out : Cycle) (s : Solo) :
    Prop where
  processor_eq : out.processor = { c with registers := s.step.registers }
  process_eq : out.process = if s.trap? = some .breakpoint then p.save c.registers else p
  raised_eq : out.raised = s.trap?.map (Trap.interrupt p.pid)
  contents_eq : out.memory.contents p.partition = s.step.bytes
  layout : Memory.SameLayout m out.memory
  others_eq : ∀ q ≠ p.partition, out.memory.contents q = m.contents q

theorem Processor.finish_agrees {p q : Process} {m : Memory} (c : Processor) {e : Effect}
    {s : Solo} (h : e.Agrees p m s.cycle)
    (hq : q = if s.trap? = some .breakpoint then p.save c.registers else p) :
    (c.finish q e).Agrees c p m s where
  processor_eq := by
    rw [finish, h.layout.partitionSize_eq, h.registers_eq]
    rfl
  process_eq := hq
  raised_eq := h.raised_eq
  contents_eq := h.contents_eq
  layout := h.layout
  others_eq := h.others_eq

/-- **A cycle of the processor is a step of the program alone.** -/
theorem Processor.cycle_agrees (c : Processor) {p : Process} {m : Memory}
    (hp : p.partition < m.partitionCount) (hc : c.registers.counter < m.partitionSize) :
    (c.cycle p m).value.Agrees c p m ⟨c.registers, m.contents p.partition⟩ := by
  have hfetch : m.load? p.partition c.registers.counter =
      some ((Solo.mk c.registers (m.contents p.partition)).ahead 0) := by
    have hlt : c.registers.counter < (m.contents p.partition).length := by
      rwa [m.length_contents hp]
    simp only [Memory.load?_eq, Solo.ahead, Nat.add_zero, Nat.mod_eq_of_lt hlt,
      List.getD_eq_getElem?_getD, List.getElem?_eq_getElem hlt, Option.getD_some]
  unfold Processor.cycle
  simp only [hfetch]
  cases hd : Opcode.decode? ((Solo.mk c.registers (m.contents p.partition)).ahead 0) with
  | none =>
    have hs := Solo.cycle_of_decode_none hd
    refine c.finish_agrees ?_ (by rw [Solo.trap?, hs, if_neg (by simp)])
    rw [hs]
    refine Effect.agrees_registers (some (.badOpcode _ _)) ?_ rfl
    simp only [Solo.moved, m.length_contents hp, Registers.advance_eq]
  | some opcode =>
    have hs := Solo.cycle_of_decode_some hd
    refine c.finish_agrees (hs ▸ Effect.ofOpcode_agrees hp _ opcode) ?_
    rw [Solo.trap?, hs]
    simp only [Solo.run_breaks_iff]

end Timeshare
