/-!
# Processes

A process is a loaded program: its identity, the partition that holds it, and the registers it had
when it last left the processor.
-/
namespace Timeshare

/-- Process ids are handed out in order, as 32-bit numbers. -/
abbrev Pid := UInt32

/-- The register file. The accumulator, X and Y are bytes and wrap; the counter is an offset into
the partition of the running program. -/
structure Registers where
  counter : Nat := 0
  accumulator : UInt8 := 0
  x : UInt8 := 0
  y : UInt8 := 0
  zero : Bool := false
deriving DecidableEq, Repr, Inhabited

inductive Status where
  | new
  | ready
  | running
  | waiting
  | terminated
deriving DecidableEq, Repr, Inhabited

def Status.name : Status → String
  | .new => "new"
  | .ready => "ready"
  | .running => "running"
  | .waiting => "waiting"
  | .terminated => "terminated"

structure Process where
  pid : Pid := 0
  partition : Nat := 0
  status : Status := .new
  registers : Registers := {}
deriving DecidableEq, Repr, Inhabited

namespace Process

/-- Keeps a snapshot of the live registers. -/
def save (p : Process) (r : Registers) : Process := { p with registers := r }

def isTerminated (p : Process) : Bool := p.status = .terminated

end Process

end Timeshare
