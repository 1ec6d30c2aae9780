import Timeshare.Policy

/-!
# Settings

What a machine is built from, and how a run of it is limited and shown.
-/
namespace Timeshare

structure Settings where
  policy : Policy := .roundRobin
  quantum : Nat := 6
  partitionSize : Nat := 256
  partitions : Nat := 3
  singleStep : Bool := false
  maxTicks : Nat := 10000
  verbose : Bool := false
deriving DecidableEq, Repr, Inhabited

end Timeshare
