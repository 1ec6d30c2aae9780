import Timeshare.Policy

/-!
# The scheduler's counters

The quantum is at least one cycle. The cycle count starts anew whenever the current process is
considered for a switch, and stays at the largest 32-bit number once it gets there.
-/
namespace Timeshare

structure Scheduler where
  policy : Policy := .roundRobin
  quantum : Nat := 6
  cycles : Nat := 0
deriving DecidableEq, Repr, Inhabited

namespace Scheduler

/-- The largest cycle count. -/
def maxCycles : Nat := UInt32.size - 1

def setQuantum (s : Scheduler) (quantum : Nat) : Except Error Scheduler :=
  if quantum = 0 then .error .invalidQuantum else .ok { s with quantum }

def ofPolicy (policy : Policy) (quantum : Nat) : Except Error Scheduler :=
  setQuantum { policy } quantum

def recordCycle (s : Scheduler) : Scheduler := { s with cycles := min (s.cycles + 1) maxCycles }

def reset (s : Scheduler) : Scheduler := { s with cycles := 0 }

/-- Round robin switches after a quantum, first come, first served when the current process has
ended. -/
def wantsSwitch (s : Scheduler) (currentTerminated : Bool) : Bool :=
  match s.policy with
  | .roundRobin => s.quantum ≤ s.cycles
  | .firstCome => currentTerminated

end Scheduler

end Timeshare
