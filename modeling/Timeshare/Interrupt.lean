import Timeshare.BlockKey
import Timeshare.Process

/-!
# Interrupts

An interrupt is an event that waits for the next tick. Programs raise system calls, breaks and
faults; the console raises the rest.
-/
namespace Timeshare

inductive DiskRequest where
  | format
  | write (key : BlockKey) (bytes : List UInt8)
deriving DecidableEq, Repr, Inhabited

inductive Interrupt where
  | timer
  | keyboard (key : Char)
  /-- The registers are the arguments of the call. -/
  | sysCall (pid : Pid) (accumulator x y : UInt8)
  | step
  | unknownOpcode (pid : Pid) (opcode : UInt8) (counter : Nat)
  | cpuBreak (pid : Pid)
  | memoryFault (pid : Pid) (address : Nat)
  | disk (request : DiskRequest)
  | kill (pid : Pid)
deriving DecidableEq, Repr, Inhabited

def Interrupt.name : Interrupt → String
  | .timer => "timer"
  | .keyboard _ => "keyboard"
  | .sysCall .. => "sys-call"
  | .step => "step"
  | .unknownOpcode .. => "unknown-opcode"
  | .cpuBreak _ => "cpu-break"
  | .memoryFault .. => "memory-fault"
  | .disk _ => "disk-request"
  | .kill _ => "kill"

/-- Interrupts that wait, the oldest first. -/
structure InterruptQueue where
  pending : Array Interrupt := #[]
deriving DecidableEq, Repr, Inhabited

namespace InterruptQueue

def enqueue (q : InterruptQueue) (i : Interrupt) : InterruptQueue := ⟨q.pending.push i⟩

def length (q : InterruptQueue) : Nat := q.pending.size

def isEmpty (q : InterruptQueue) : Bool := q.pending.isEmpty

/-- Everything that waits, as one batch, and the empty queue that it leaves. What is raised while
the batch is serviced belongs to the next one. -/
def takePending (q : InterruptQueue) : List Interrupt × InterruptQueue := (q.pending.toList, {})

end InterruptQueue

end Timeshare
