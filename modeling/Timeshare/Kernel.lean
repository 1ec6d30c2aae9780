import Timeshare.Processor
import Timeshare.ReadyQueue

/-!
# The kernel

The state that a tick works on: processor, memory, the processes in both places where they can be,
and the interrupts that wait. A process is resident while it is current or in the ready queue.
-/
namespace Timeshare

inductive Mode where
  | kernel
  | user
deriving DecidableEq, Repr, Inhabited

def Mode.name : Mode → String
  | .kernel => "Kernel"
  | .user => "User"

structure Kernel where
  memory : Memory
  processor : Processor := {}
  ready : ReadyQueue := {}
  interrupts : InterruptQueue := {}
  current : Option Process := none
  mode : Mode := .kernel
  singleStep : Bool := false
  clock : Nat := 0

namespace Kernel

/-- The resident processes: the current one first, then in queue order. -/
def processes (k : Kernel) : List Process := k.current.toList ++ k.ready.toList

def currentTerminated (k : Kernel) : Bool := k.current.any Process.isTerminated

/-- The id of the current process. -/
def currentPid? (k : Kernel) : Option Pid := k.current.map Process.pid

/-- The partition of a resident process. -/
def partitionOf? (k : Kernel) (pid : Pid) : Option Nat :=
  (k.processes.find? (·.pid = pid)).map Process.partition

/-- Copies the live registers into the current process. -/
def saveCurrent (k : Kernel) : Kernel :=
  { k with current := k.current.map (·.save k.processor.registers) }

/-- Puts a process on the processor, which executes on its own unless single-stepping. -/
def dispatch (k : Kernel) (p : Process) : Kernel :=
  let p := { p with status := .running }
  { k with
    mode := .user
    processor := Processor.bind p !k.singleStep
    current := some p }

/-- Frees the partition of a process that has left the processor and the queue. -/
def release (k : Kernel) (p : Process) : Traced Kernel := do
  let memory := k.memory.free p.partition
  Traced.report (.released p.pid p.partition memory.freeCount)
  pure { k with memory }

/-- Runs one cycle of the current process. -/
def cycle (k : Kernel) : Traced Kernel :=
  match k.current with
  | none => pure k
  | some p => do
    let c ← k.processor.cycle p k.memory
    Traced.ran ⟨p.pid, c.raised⟩
    pure { k with
      processor := c.processor
      memory := c.memory
      current := some c.process
      interrupts := c.raised.toList.foldl .enqueue k.interrupts }

end Kernel

end Timeshare
