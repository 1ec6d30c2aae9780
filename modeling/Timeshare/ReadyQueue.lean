import Timeshare.Process

/-!
# The ready queue

Processes wait for the processor in order of arrival. A process may also leave from the middle,
when it is started out of turn or killed.
-/
namespace Timeshare

structure ReadyQueue where
  toList : List Process := []
deriving DecidableEq, Repr, Inhabited

namespace ReadyQueue

def enqueue (q : ReadyQueue) (p : Process) : ReadyQueue := ⟨q.toList ++ [p]⟩

/-- The head of the queue and the queue without it. -/
def dequeue? (q : ReadyQueue) : Option (Process × ReadyQueue) :=
  match q.toList with
  | [] => none
  | p :: ps => some (p, ⟨ps⟩)

def find? (q : ReadyQueue) (pid : Pid) : Option Process := q.toList.find? (·.pid = pid)

def contains (q : ReadyQueue) (pid : Pid) : Bool := q.toList.any (·.pid = pid)

/-- The first process with this id and the queue without it. -/
def remove? (q : ReadyQueue) (pid : Pid) : Option (Process × ReadyQueue) :=
  (q.find? pid).map fun p => (p, ⟨q.toList.eraseP (·.pid = pid)⟩)

@[simp]
theorem toList_enqueue (q : ReadyQueue) (p : Process) :
    (q.enqueue p).toList = q.toList ++ [p] := rfl

end ReadyQueue

end Timeshare
