import Timeshare.Proofs.Solo

/-!
# Guarded cycles

The processor counts in 64-bit words and takes signed ones for branches. Here its cycle is written
once more with a guard at every place where a word can overflow or a modulus can be zero, and at
every branch that is there for the sake of caution only. A guard that finds something stops the
machine with a `Mishap`.

`Processor.guardedCycle_eq` says that the guards find nothing: inside a partition that is not too
large the guarded cycle is the cycle.
-/
namespace Timeshare

/-- What must not happen to a machine. -/
inductive Mishap where
  /-- A sum or a product is not a word. -/
  | overflow
  /-- A sum or a remainder is not a signed word. -/
  | signedOverflow
  | zeroModulus
  /-- An opcode or an operand cannot be fetched. -/
  | missedFetch (counter : Nat)
  /-- An instruction fails for a reason other than its opcode or an address. -/
  | strangeFault (reason : Error)
  /-- A program does not get into the partition that was claimed for it. -/
  | rollback (reason : Error)
  /-- No process id is left. -/
  | idsSpent
  /-- A process that was found in the queue is not there when it is to start. -/
  | lostProcess (pid : Pid)
  /-- A switch in the middle of a cycle leaves nobody on the processor. -/
  | idleSwitch
deriving DecidableEq, Repr, Inhabited

/-- A traced computation that a mishap may stop. -/
abbrev Guarded := ExceptT Mishap Traced

/-- The largest partitions for which no branch overflows. -/
def maxPartitionSize : Nat := 2 ^ 63 - 128

/-! ## Words -/

namespace Word

/-- The sum of two words. -/
def sum (a b : Nat) : Except Mishap Nat :=
  if a + b < UInt64.size then .ok (a + b) else .error .overflow

/-- The product of two words. -/
def product (a b : Nat) : Except Mishap Nat :=
  if a * b < UInt64.size then .ok (a * b) else .error .overflow

/-- The remainder of a word. -/
def remainder (a modulus : Nat) : Except Mishap Nat :=
  if modulus = 0 then .error .zeroModulus else .ok (a % modulus)

def minSigned : Int := -2 ^ 63

def maxSigned : Int := 2 ^ 63 - 1

/-- A word read as a signed one: those of the upper half are negative. -/
def signed (a : Nat) : Int := (a : Int).bmod UInt64.size

/-- The sum of two signed words. -/
def signedSum (a b : Int) : Except Mishap Int :=
  if minSigned ≤ a + b ∧ a + b ≤ maxSigned then .ok (a + b) else .error .signedOverflow

/-- The remainder of a signed word that is not negative. -/
def signedRemainder (a modulus : Int) : Except Mishap Nat :=
  if modulus = 0 then .error .zeroModulus
  else if a = minSigned ∧ modulus = -1 then .error .signedOverflow
  else .ok (a % modulus).toNat

theorem sum_eq {a b : Nat} (h : a + b < UInt64.size) : sum a b = .ok (a + b) := if_pos h

theorem product_eq {a b : Nat} (h : a * b < UInt64.size) : product a b = .ok (a * b) := if_pos h

theorem remainder_eq {a modulus : Nat} (h : 0 < modulus) :
    remainder a modulus = .ok (a % modulus) := if_neg (Nat.ne_of_gt h)

theorem signedSum_eq {a b : Int} (hmin : minSigned ≤ a + b) (hmax : a + b ≤ maxSigned) :
    signedSum a b = .ok (a + b) := if_pos ⟨hmin, hmax⟩

theorem signedRemainder_eq {a modulus : Int} (h : 0 < modulus) :
    signedRemainder a modulus = .ok (a % modulus).toNat := by
  rw [signedRemainder, if_neg (by omega), if_neg (by omega)]

/-- Words of the lower half are what they are. -/
theorem signed_eq {a : Nat} (h : a < 2 ^ 63) : signed a = a := by
  have hsize : UInt64.size = 2 ^ 64 := rfl
  apply Int.bmod_eq_of_le
  · rw [hsize]
    omega
  · rw [hsize]
    omega

end Word

namespace Registers

/-- Moves the counter to the next byte of a partition of `size` bytes. -/
def guardedAdvance (r : Registers) (size : Nat) : Except Mishap Registers := do
  let next ← Word.sum r.counter 1
  let counter ← Word.remainder next size
  return { r with counter }

/-- Moves the counter by a signed offset inside a partition of `size` bytes. -/
def guardedJump (r : Registers) (size : Nat) (offset : Int) : Except Mishap Registers := do
  let target ← Word.signedSum (Word.signed r.counter) offset
  let counter ← Word.signedRemainder target (Word.signed size)
  return { r with counter }

section

variable {r : Registers} {size : Nat}

theorem counter_advance_lt (h : 0 < size) : (r.advance size).counter < size := Nat.mod_lt _ h

theorem guardedAdvance_eq (hr : r.counter < size) (hsize : size ≤ maxPartitionSize) :
    r.guardedAdvance size = .ok (r.advance size) := by
  have hword : r.counter + 1 < UInt64.size := by
    have hmax : maxPartitionSize < UInt64.size := by decide
    omega
  have hpos : 0 < size := Nat.lt_of_le_of_lt (Nat.zero_le _) hr
  rw [guardedAdvance, Word.sum_eq hword]
  show (Word.remainder _ _ >>= _) = _
  rw [Word.remainder_eq hpos]
  rfl

/-- A byte is not far enough to leave the signed words. -/
theorem guardedJump_eq (hr : r.counter < size) (hsize : size ≤ maxPartitionSize) (offset : Int8) :
    r.guardedJump size offset.toInt = .ok (r.jump size offset.toInt) := by
  have hmax : maxPartitionSize = 2 ^ 63 - 128 := rfl
  have hlow := offset.le_toInt
  have hhigh := offset.toInt_lt
  have hcounter : Word.signed r.counter = r.counter := Word.signed_eq (by omega)
  have hsigned : Word.signed size = size := Word.signed_eq (by omega)
  have hmin : Word.minSigned ≤ (r.counter : Int) + offset.toInt := by
    rw [Word.minSigned]
    omega
  have hmax : (r.counter : Int) + offset.toInt ≤ Word.maxSigned := by
    rw [Word.maxSigned]
    omega
  rw [guardedJump, hcounter, hsigned, Word.signedSum_eq hmin hmax]
  show (Word.signedRemainder _ _ >>= _) = _
  rw [Word.signedRemainder_eq (by omega)]
  rfl

/-- Near the end of a larger partition a branch can leave the signed words. -/
example : ({ counter := 2 ^ 63 - 127 } : Registers).guardedJump (2 ^ 63 - 126) 127 =
    .error .signedOverflow := rfl

end

end Registers

/-! ## Memory -/

namespace Memory

/-- The address of a partition's byte. -/
def guardedTranslate (m : Memory) (partition offset : Nat) : Except Mishap (Except Error Nat) :=
  if offset < m.partitionSize ∧ partition < m.partitionCount then do
    let base ← Word.product partition m.partitionSize
    let address ← Word.sum base offset
    return .ok address
  else return .error (.outOfBounds offset m.partitionSize)

def guardedLoad (m : Memory) (partition offset : Nat) : Except Mishap (Except Error UInt8) := do
  match ← m.guardedTranslate partition offset with
  | .ok address => return m.read address
  | .error reason => return .error reason

def guardedStore (m : Memory) (partition offset : Nat) (byte : UInt8) :
    Except Mishap (Except Error Memory) := do
  match ← m.guardedTranslate partition offset with
  | .ok address => return m.write address byte
  | .error reason => return .error reason

section

variable {m : Memory} (hm : m.size < addressSpace)

include hm

/-- Every address below the end of an addressable memory is a word. -/
theorem guardedTranslate_eq (partition offset : Nat) :
    m.guardedTranslate partition offset = .ok (m.translate partition offset) := by
  unfold guardedTranslate translate
  by_cases hin : offset < m.partitionSize ∧ partition < m.partitionCount
  · have hfit := m.base_add_size_le hin.2
    have hcells : m.cells.size < UInt64.size := hm
    have hproduct : partition * m.partitionSize < UInt64.size := by
      show m.base partition < UInt64.size
      omega
    have hsum : partition * m.partitionSize + offset < UInt64.size := by
      show m.base partition + offset < UInt64.size
      omega
    rw [if_pos hin, if_pos hin, Word.product_eq hproduct]
    show (Word.sum _ _ >>= _) = _
    rw [Word.sum_eq hsum]
    rfl
  · rw [if_neg hin, if_neg hin]
    rfl

/-- A byte is loaded, or it is out of reach. -/
theorem guardedLoad_eq (partition offset : Nat) :
    m.guardedLoad partition offset = .ok (match m.load? partition offset with
      | some byte => .ok byte
      | none => .error (.outOfBounds offset m.partitionSize)) := by
  rw [guardedLoad, guardedTranslate_eq hm, load?]
  by_cases hin : offset < m.partitionSize ∧ partition < m.partitionCount
  · have hfit : m.base partition + offset < m.cells.size := by
      have := m.base_add_size_le hin.2
      omega
    rw [translate, if_pos hin]
    show Except.ok (m.read _) = Except.ok (match m.cells[m.base partition + offset]? with
      | some byte => .ok byte
      | none => .error _)
    rw [read, Array.getElem?_eq_getElem hfit]
  · rw [translate, if_neg hin]
    rfl

theorem guardedStore_eq (partition offset : Nat) (byte : UInt8) :
    m.guardedStore partition offset byte = .ok (match m.store? partition offset byte with
      | some stored => .ok stored
      | none => .error (.outOfBounds offset m.partitionSize)) := by
  rw [guardedStore, guardedTranslate_eq hm, store?]
  by_cases hin : offset < m.partitionSize ∧ partition < m.partitionCount
  · have hfit : m.base partition + offset < m.cells.size := by
      have := m.base_add_size_le hin.2
      omega
    rw [translate, if_pos hin]
    show Except.ok (m.write _ byte) = _
    simp only [write, dif_pos hfit, Except.toOption]
  · rw [translate, if_neg hin]
    rfl

end

end Memory

/-! ## Instructions -/

/-- The interrupt for an instruction that fails. -/
def Interrupt.ofFailure (pid : Pid) (counter : Nat) : Error → Except Mishap Interrupt
  | .unknownOpcode opcode => return .unknownOpcode pid opcode counter
  | .outOfBounds address _ => return .memoryFault pid address
  | reason => throw (.strangeFault reason)

namespace Effect

section

variable (p : Process) (m : Memory)

/-- An instruction that stood at `counter` fails. -/
def guardedFault (counter : Nat) (r : Registers) (reason : Error) : Except Mishap Effect := do
  let raised ← Interrupt.ofFailure p.pid counter reason
  return ⟨r, m, some raised⟩

/-- Fetches the next byte of the program. -/
def guardedWithOperand (r : Registers) (next : Registers → UInt8 → Except Mishap Effect) :
    Except Mishap Effect := do
  let r ← r.guardedAdvance m.partitionSize
  match ← m.guardedLoad p.partition r.counter with
  | .ok byte => next r byte
  | .error _ => throw (.missedFetch r.counter)

/-- Fetches an address, the low byte first. -/
def guardedWithAddress (r : Registers) (next : Registers → Nat → Except Mishap Effect) :
    Except Mishap Effect :=
  guardedWithOperand p m r fun r low =>
    guardedWithOperand p m r fun r high => next r (low.toNat + 256 * high.toNat)

/-- Fetches an address and the byte there. -/
def guardedWithCell (counter : Nat) (r : Registers)
    (next : Registers → Nat → UInt8 → Except Mishap Effect) : Except Mishap Effect :=
  guardedWithAddress p m r fun r address => do
    match ← m.guardedLoad p.partition address with
    | .ok byte => next r address byte
    | .error reason => guardedFault p m counter r reason

/-- Stores a byte of the partition. -/
def guardedStoring (counter : Nat) (r : Registers) (address : Nat) (byte : UInt8) :
    Except Mishap Effect := do
  match ← m.guardedStore p.partition address byte with
  | .ok m => return { registers := r, memory := m }
  | .error reason => guardedFault p m counter r reason

/-- The effect of one instruction whose opcode stands at the counter. -/
def guardedOfOpcode (r : Registers) : Opcode → Except Mishap Effect
  | .loadConstant target => guardedWithOperand p m r fun r byte => return ⟨r.set target byte, m, none⟩
  | .load target => guardedWithCell p m r.counter r fun r _ byte =>
      return ⟨r.set target byte, m, none⟩
  | .store => guardedWithAddress p m r fun r' address =>
      guardedStoring p m r.counter r' address r'.accumulator
  | .add => guardedWithCell p m r.counter r fun r _ byte =>
      return ⟨{ r with accumulator := r.accumulator + byte }, m, none⟩
  | .noOperation => return ⟨r, m, none⟩
  | .breakpoint => return ⟨r, m, some (.cpuBreak p.pid)⟩
  | .compare => guardedWithCell p m r.counter r fun r _ byte =>
      return ⟨{ r with zero := r.x == byte }, m, none⟩
  | .branch => guardedWithOperand p m r fun r byte => do
      let r ← if r.zero then pure r else r.guardedJump m.partitionSize byte.toInt8.toInt
      return ⟨r, m, none⟩
  | .increment => guardedWithCell p m r.counter r fun r' address byte =>
      guardedStoring p m r.counter r' address (byte + 1)
  | .systemCall => return ⟨r, m, some (.sysCall p.pid r.accumulator r.x r.y)⟩

end

/-- The guards find nothing on the way to an effect, and the counter stays in the partition. -/
structure Clean (m : Memory) (g : Except Mishap Effect) (e : Effect) : Prop where
  eq_ok : g = .ok e
  counter_lt : e.registers.counter < m.partitionSize
  partitionSize_eq : e.memory.partitionSize = m.partitionSize

section

variable {p : Process} {m : Memory} (hp : p.partition < m.partitionCount)
  (hsize : m.partitionSize ≤ maxPartitionSize) (hm : m.size < addressSpace)

theorem clean_registers {r : Registers} {raised : Option Interrupt}
    (hr : r.counter < m.partitionSize) : Clean m (.ok ⟨r, m, raised⟩) ⟨r, m, raised⟩ :=
  ⟨rfl, hr, rfl⟩

include hp hsize hm

/-- An operand is always fetched: the counter wraps before it leaves the partition. -/
theorem clean_withOperand {r : Registers} (hr : r.counter < m.partitionSize)
    {next : Registers → UInt8 → Except Mishap Effect} {next' : Registers → UInt8 → Effect}
    (h : ∀ r' byte, r'.counter < m.partitionSize → Clean m (next r' byte) (next' r' byte)) :
    Clean m (guardedWithOperand p m r next) (withOperand p m r next') := by
  have hnext : (r.advance m.partitionSize).counter < m.partitionSize :=
    Registers.counter_advance_lt m.partitionSize_pos
  have hlt : (r.advance m.partitionSize).counter < (m.contents p.partition).length := by
    rwa [m.length_contents hp]
  have hfetch : m.load? p.partition (r.advance m.partitionSize).counter =
      some (m.contents p.partition)[(r.advance m.partitionSize).counter] := by
    rw [m.load?_eq, List.getElem?_eq_getElem hlt]
  have hguarded : guardedWithOperand p m r next =
      next (r.advance m.partitionSize)
        (m.contents p.partition)[(r.advance m.partitionSize).counter] := by
    rw [guardedWithOperand, Registers.guardedAdvance_eq hr hsize]
    show (m.guardedLoad _ _ >>= _) = _
    rw [Memory.guardedLoad_eq hm, hfetch]
    rfl
  have hplain : withOperand p m r next' =
      next' (r.advance m.partitionSize)
        (m.contents p.partition)[(r.advance m.partitionSize).counter] := by
    simp only [withOperand, hfetch]
  rw [hguarded, hplain]
  exact h _ _ hnext

theorem clean_withAddress {r : Registers} (hr : r.counter < m.partitionSize)
    {next : Registers → Nat → Except Mishap Effect} {next' : Registers → Nat → Effect}
    (h : ∀ r' address, r'.counter < m.partitionSize → Clean m (next r' address) (next' r' address)) :
    Clean m (guardedWithAddress p m r next) (withAddress p m r next') :=
  clean_withOperand hp hsize hm hr fun _ _ hlow =>
    clean_withOperand hp hsize hm hlow fun _ _ hhigh => h _ _ hhigh

/-- A byte out of reach is a fault at its address. -/
theorem clean_withCell {counter : Nat} {r : Registers} (hr : r.counter < m.partitionSize)
    {next : Registers → Nat → UInt8 → Except Mishap Effect}
    {next' : Registers → Nat → UInt8 → Effect}
    (h : ∀ r' address byte, r'.counter < m.partitionSize →
      Clean m (next r' address byte) (next' r' address byte)) :
    Clean m (guardedWithCell p m counter r next) (withCell p m r next') := by
  refine clean_withAddress hp hsize hm hr fun r' address hr' => ?_
  rw [Memory.guardedLoad_eq hm]
  cases m.load? p.partition address with
  | some byte => exact h r' address byte hr'
  | none => exact clean_registers hr'

omit hp hsize in
theorem clean_storing {counter : Nat} {r : Registers} (hr : r.counter < m.partitionSize)
    (address : Nat) (byte : UInt8) :
    Clean m (guardedStoring p m counter r address byte) (storing p m r address byte) := by
  rw [guardedStoring, storing, Memory.guardedStore_eq hm]
  cases hstore : m.store? p.partition address byte with
  | some stored => exact ⟨rfl, hr, (Memory.contents_store? hstore).1.partitionSize_eq⟩
  | none => exact clean_registers hr

theorem clean_ofOpcode {r : Registers} (hr : r.counter < m.partitionSize) (opcode : Opcode) :
    Clean m (guardedOfOpcode p m r opcode) (ofOpcode p m r opcode) := by
  cases opcode with
  | loadConstant target =>
    refine clean_withOperand hp hsize hm hr fun r' byte hr' => clean_registers ?_
    cases target <;> exact hr'
  | load target =>
    refine clean_withCell hp hsize hm hr fun r' _ byte hr' => clean_registers ?_
    cases target <;> exact hr'
  | store =>
    exact clean_withAddress hp hsize hm hr fun _ address hr' => clean_storing hm hr' address _
  | add => exact clean_withCell hp hsize hm hr fun _ _ _ hr' => clean_registers hr'
  | noOperation => exact clean_registers hr
  | breakpoint => exact clean_registers hr
  | compare => exact clean_withCell hp hsize hm hr fun _ _ _ hr' => clean_registers hr'
  | branch =>
    rw [guardedOfOpcode, ofOpcode]
    refine clean_withOperand hp hsize hm hr fun r' byte hr' => ?_
    cases r'.zero with
    | true => exact clean_registers hr'
    | false =>
      have hjump := Registers.guardedJump_eq hr' hsize byte.toInt8
      refine ⟨?_, r'.counter_jump_lt m.partitionSize_pos _, rfl⟩
      show (r'.guardedJump m.partitionSize byte.toInt8.toInt >>= _) = _
      rw [hjump]
      rfl
  | increment =>
    exact clean_withCell hp hsize hm hr fun _ address _ hr' => clean_storing hm hr' address _
  | systemCall => exact clean_registers hr

end

end Effect

/-! ## Cycles -/

variable {α β : Type}

/-- Only the value decides what follows. -/
theorem Traced.bind_congr_value {x : Traced α} {f g : α → Traced β}
    (h : f x.value = g x.value) : x >>= f = x >>= g := by
  apply ext
  · rw [value_bind, value_bind, h]
  · rw [events_bind, events_bind, h]
  · rw [turns_bind, turns_bind, h]

namespace Guarded

theorem ok_bind (a : α) (f : α → Guarded β) :
    (liftM (Except.ok a : Except Mishap α) >>= f : Guarded β) = f a := pure_bind a f

/-- What follows a traced computation has its value to start from. -/
theorem lift_bind_eq {x : Traced α} {f : α → Guarded β} {g : α → Traced β}
    (h : f x.value = liftM (g x.value)) : (liftM x >>= f : Guarded β) = liftM (x >>= g) := by
  have hrun : ∀ f : α → Guarded β, (liftM x >>= f : Guarded β).run = x >>= fun a => (f a).run :=
    fun f => ExceptT.run_bind_lift x f
  rw [liftM_bind]
  apply ExceptT.ext
  rw [hrun, hrun]
  exact Traced.bind_congr_value (congrArg ExceptT.run h)

end Guarded

namespace Processor

/-- Ends a cycle: the counter moves past the last byte that was fetched. -/
def guardedFinish (c : Processor) (p : Process) (e : Effect) : Except Mishap Cycle := do
  let registers ← e.registers.guardedAdvance e.memory.partitionSize
  return { processor := { c with registers }, process := p, memory := e.memory, raised := e.raised }

/-- Runs one instruction of `p`. A break snapshots the registers into the process. -/
def guardedCycle (c : Processor) (p : Process) (m : Memory) : Guarded Cycle := do
  let r := c.registers
  match ← m.guardedLoad p.partition r.counter with
  | .error _ => throw (.missedFetch r.counter)
  | .ok byte =>
    match Opcode.decode? byte with
    | none =>
      let raised ← Interrupt.ofFailure p.pid r.counter (.unknownOpcode byte)
      c.guardedFinish p ⟨r, m, some raised⟩
    | some opcode =>
      Traced.report (.executing p.pid r.counter opcode)
      let p' := if opcode = .breakpoint then p.save r else p
      let e ← Effect.guardedOfOpcode p m r opcode
      c.guardedFinish p' e

section

variable {c : Processor} {p : Process} {m : Memory}

theorem guardedFinish_eq (hsize : m.partitionSize ≤ maxPartitionSize) (q : Process)
    {g : Except Mishap Effect} {e : Effect} (h : Effect.Clean m g e) :
    c.guardedFinish q e = .ok (c.finish q e) := by
  have hcounter : e.registers.counter < e.memory.partitionSize := by
    rw [h.partitionSize_eq]
    exact h.counter_lt
  have hlarge : e.memory.partitionSize ≤ maxPartitionSize := by rwa [h.partitionSize_eq]
  rw [guardedFinish, Registers.guardedAdvance_eq hcounter hlarge]
  rfl

/-- **The guards of a cycle find nothing.** In a partition that is not too large, with the counter
inside, every fetch succeeds and every word is large enough. -/
theorem guardedCycle_eq (hp : p.partition < m.partitionCount)
    (hsize : m.partitionSize ≤ maxPartitionSize) (hm : m.size < addressSpace)
    (hc : c.registers.counter < m.partitionSize) :
    c.guardedCycle p m = liftM (c.cycle p m) := by
  have hlt : c.registers.counter < (m.contents p.partition).length := by
    rwa [m.length_contents hp]
  have hfetch : m.load? p.partition c.registers.counter =
      some (m.contents p.partition)[c.registers.counter] := by
    rw [m.load?_eq, List.getElem?_eq_getElem hlt]
  have hguarded : m.guardedLoad p.partition c.registers.counter =
      .ok (.ok (m.contents p.partition)[c.registers.counter]) := by
    rw [Memory.guardedLoad_eq hm, hfetch]
  simp only [guardedCycle, cycle, hguarded, hfetch, Guarded.ok_bind]
  cases Opcode.decode? (m.contents p.partition)[c.registers.counter] with
  | none =>
    let raised := Interrupt.unknownOpcode p.pid (m.contents p.partition)[c.registers.counter]
      c.registers.counter
    let e : Effect := ⟨c.registers, m, some raised⟩
    have hclean : Effect.Clean m (.ok e) e := Effect.clean_registers hc
    show (liftM (.ok raised : Except Mishap Interrupt) >>= fun raised =>
      liftM (c.guardedFinish p ⟨c.registers, m, some raised⟩) : Guarded Cycle) = _
    rw [Guarded.ok_bind, guardedFinish_eq hsize p hclean]
    rfl
  | some opcode =>
    have hclean := Effect.clean_ofOpcode hp hsize hm hc opcode
    refine Guarded.lift_bind_eq ?_
    rw [hclean.eq_ok, Guarded.ok_bind, guardedFinish_eq hsize _ hclean]
    rfl

end

end Processor

end Timeshare
