import Timeshare.Console
import Timeshare.Machine

/-!
# Sessions

A session is a machine whose events are shown and reported as they come. A display that fails is
reported and otherwise passed over: the machine never learns of it.
-/
namespace Timeshare

/-- A request to the machine. -/
inductive Request where
  | load (program : List UInt8)
  | run (pid : Pid)
  | runAll
  | step
  | tick
  | setQuantum (quantum : Nat)
  | setPolicy (policy : Policy)
  | setSingleStep (enabled : Bool)
  | kill (pid : Pid)
  | requestKill (pid : Pid)
  | interrupt (interrupt : Interrupt)
  | takeInput
deriving Repr, Inhabited

/-- What a request that was granted answers. -/
inductive Reply where
  | done
  | pid (pid : Pid)
  | text (text : String)
deriving DecidableEq, Repr, Inhabited

/-- Carries out a request. -/
def Machine.perform (m : Machine) : Request → Except Error (Traced (Reply × Machine))
  | .load program => return (fun (pid, m) => (.pid pid, m)) <$> (← m.load program)
  | .run pid => return (.done, ·) <$> (← m.run pid)
  | .runAll => return (.done, ·) <$> m.runAll
  | .step => return (.done, ·) <$> m.step
  | .tick => return (.done, ·) <$> m.tick
  | .setQuantum quantum => return pure (.done, ← m.setQuantum quantum)
  | .setPolicy policy => return (.done, ·) <$> m.setPolicy policy
  | .setSingleStep enabled => return pure (.done, m.setSingleStep enabled)
  | .kill pid => return (.done, ·) <$> (← m.kill pid)
  | .requestKill pid => return pure (.done, ← m.requestKill pid)
  | .interrupt i => return pure (.done, m.interrupt i)
  | .takeInput => let (text, m) := m.takeInput
    return pure (.text text, m)

/-- A machine, the console in front of it, and the log. Notices less grave than `threshold` are
not kept, and none where there is no threshold. -/
structure Session (σ : Type) where
  machine : Machine
  screen : σ
  log : Array Notice := #[]
  threshold : Option Level := none

namespace Session

variable {σ : Type}

def record (s : Session σ) (n : Notice) : Session σ :=
  match s.threshold with
  | some level => if n.level.rank ≤ level.rank then { s with log := s.log.push n } else s
  | none => s

/-- Shows or records one event. -/
def playEvent (c : Console σ) (s : Session σ) : Event → Session σ
  | .notice n => s.record n
  | .frame f =>
    match c.draw s.screen f with
    | (none, screen) => { s with screen }
    | (some reason, screen) => { s with screen }.record (.displayFailed reason)

/-- Shows and records events in order. -/
def play (c : Console σ) (s : Session σ) (events : Array Event) : Session σ :=
  events.foldl (playEvent c) s

/-- Goes on with the machine that a traced computation arrives at. -/
def follow (c : Console σ) (s : Session σ) (next : Traced Machine) : Session σ :=
  { s with machine := next.value }.play c next.events

/-- Carries out a request. A refused one changes nothing. -/
def perform (c : Console σ) (s : Session σ) (r : Request) : Except Error Reply × Session σ :=
  match s.machine.perform r with
  | .error reason => (.error reason, s)
  | .ok outcome => (.ok outcome.value.1, s.follow c (Prod.snd <$> outcome))

/-- Carries out a request that is always granted. -/
def act (c : Console σ) (s : Session σ) (r : Request) : Session σ := (s.perform c r).2

/-- A session with a new machine. -/
def boot (c : Console σ) (settings : Settings) (screen : σ) (threshold : Option Level := none) :
    Except Error (Session σ) := do
  let booted ← Machine.boot settings
  return ({ machine := booted.value, screen, threshold } : Session σ).play c booted.events

/-- Ticks `n` times. -/
def ticks (c : Console σ) : Nat → Session σ → Session σ
  | 0, s => s
  | n + 1, s => ticks c n (s.follow c s.machine.tick)

/-- Ticks until the machine is idle, at most `n` times, and counts the ticks from `taken`. -/
def settleFrom (c : Console σ) (taken : Nat) : Nat → Session σ → Nat × Session σ
  | 0, s => (taken, s)
  | n + 1, s =>
    if s.machine.isIdle then (taken, s)
    else settleFrom c (taken + 1) n (s.follow c s.machine.tick)

/-- Ticks until the machine is idle, at most `n` times. Answers the number of ticks. -/
def settle (c : Console σ) (n : Nat) (s : Session σ) : Nat × Session σ := settleFrom c 0 n s

end Session

end Timeshare
