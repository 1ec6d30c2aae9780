import Timeshare.Error
import Timeshare.Text.LowerCase

/-!
# Scheduling policies

Round robin takes the processor away after a quantum of cycles; first come, first served leaves it
with a process until that process ends.
-/
namespace Timeshare

inductive Policy where
  | roundRobin
  | firstCome
deriving DecidableEq, Repr, Inhabited

namespace Policy

def name : Policy → String
  | roundRobin => "rr"
  | firstCome => "fcfs"

/-- The policy that is spelled exactly so. Round robin has two spellings. -/
def ofName? (name : String) : Option Policy :=
  if name = "rr" ∨ name = "round_robin" then some roundRobin
  else if name = "fcfs" then some firstCome
  else none

/-- Reads a policy in any letter case. -/
def parse (text : String) : Except Error Policy :=
  match ofName? (lowerCase text) with
  | some policy => .ok policy
  | none => .error (.invalidPolicy text)

end Policy

end Timeshare
