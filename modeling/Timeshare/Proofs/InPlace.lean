import Timeshare.Session

/-!
# The machine in place

The operations of the machine once more, as they work on a session: each field is written when its
turn comes, the display is called in the middle of the work with what the machine is then, and an
error leaves whatever was done before it. Nothing takes a write back but the code that does so, and
what a display answers is there to be looked at by whoever called it.
-/
namespace Timeshare

/-- Work on a session. An error ends it and leaves the session as it is by then. -/
abbrev Work (σ α : Type) : Type := EStateM Error (Session σ) α

/-- The answer of a work, and the session that it leaves in either case. -/
def Work.outcome {σ α : Type} (x : Work σ α) (s : Session σ) : Except Error α × Session σ :=
  match x.run s with
  | .ok a s => (.ok a, s)
  | .error reason s => (.error reason, s)

/-- Records a notice and passes over a frame. -/
def Session.note {σ : Type} (s : Session σ) : Event → Session σ
  | .notice n => s.record n
  | .frame _ => s

namespace InPlace

variable {σ : Type}

/-! ## Parts -/

def machine : Work σ Machine := return (← get).machine

def change (f : Machine → Machine) : Work σ Unit :=
  modify fun s => { s with machine := f s.machine }

def log (n : Notice) : Work σ Unit := modify (·.record n)

/-- Carries out what has no display to call, and logs its notices. -/
def reporting {α : Type} (x : Traced α) : Work σ α := do
  modify (x.events.toList.foldl Session.note)
  return x.value

/-- Calls the display, and answers why if it fails. -/
def display (c : Console σ) (f : Frame) : Work σ (Option String) := do
  let s ← get
  let (failure, screen) := c.draw s.screen f
  set { s with screen }
  return failure

/-- Logs the failure of a call of the display, and passes over it. -/
def swallow (call : Work σ (Option String)) : Work σ Unit := do
  match ← call with
  | some reason => log (.displayFailed reason)
  | none => pure ()

/-! ## Memory -/

/-- Claims the lowest free partition. -/
def claim : Work σ Nat := do
  let m ← machine
  match m.memory.inUse.findFinIdx? (!·) with
  | none => throw .capacityExceeded
  | some partition =>
    change fun _ => { m with memory := m.memory.claim partition partition.isLt }
    return partition

/-- Copies bytes to the cells from an address on. -/
def copy (address : Nat) (bytes : List UInt8) : Work σ Unit := do
  let m ← machine
  if h : address + bytes.toArray.size ≤ m.memory.cells.size then
    change fun _ => { m with memory := m.memory.overwrite address bytes.toArray h }
  else throw (.outOfBounds address m.memory.size)

def free (partition : Nat) : Work σ Unit :=
  change fun m => { m with memory := m.memory.free partition }

/-! ## Processes -/

def enqueue (p : Process) : Work σ Unit := change fun m => { m with ready := m.ready.enqueue p }

/-- Takes a process out of the queue, if the queue has it. -/
def takeOut (f : ReadyQueue → Option (Process × ReadyQueue)) : Work σ (Option Process) := do
  let m ← machine
  match f m.ready with
  | none => return none
  | some (p, ready) =>
    change fun _ => { m with ready }
    return some p

def dequeue : Work σ (Option Process) := takeOut ReadyQueue.dequeue?

def remove (pid : Pid) : Work σ (Option Process) := takeOut (·.remove? pid)

/-- Takes the current process off the processor. -/
def takeCurrent : Work σ (Option Process) := do
  let m ← machine
  change fun _ => { m with current := none }
  return m.current

def saveCurrent : Work σ Unit := change fun m => { m with toKernel := m.toKernel.saveCurrent }

def dispatch (p : Process) : Work σ Unit :=
  change fun m => { m with toKernel := m.toKernel.dispatch p }

/-- Frees the partition of a process that has left the processor and the queue. -/
def retire (p : Process) : Work σ Unit := do
  free p.partition
  let m ← machine
  log (.released p.pid p.partition m.memory.freeCount)

/-! ## Display -/

def showRegisters (c : Console σ) : Work σ Unit := do
  let m ← machine
  swallow (display c (.registers m.processor.registers m.processor.executing))

def showProcesses (c : Console σ) : Work σ Unit := do
  let m ← machine
  swallow (display c (.processes m.processes))

def showAll (c : Console σ) : Work σ Unit := do
  showRegisters c
  showProcesses c

/-! ## Scheduling -/

def resetCycles : Work σ Unit := change Machine.resetCycles

/-- Puts a process on the processor with a fresh cycle count. -/
def launch (p : Process) : Work σ Unit := do
  log (.starting p.pid)
  dispatch p
  resetCycles

/-- Starts the head of the queue, if there is one. -/
def start : Work σ Unit := do
  match ← dequeue with
  | none => pure ()
  | some p => launch p

/-- Starts a process out of turn. -/
def startWith (pid : Pid) : Work σ Unit := do
  match ← remove pid with
  | none => throw (.noSuchProcess pid)
  | some p => launch p

/-- Takes the current process off the processor in favour of another one. -/
def displace (next : Pid) : Work σ Unit := do
  saveCurrent
  match ← takeCurrent with
  | none => pure ()
  | some p =>
    let m ← machine
    log (.switching p.pid next m.scheduler.cycles m.scheduler.policy)
    if p.isTerminated then retire p
    else enqueue { p with status := .waiting }

/-- Gives the processor back to the kernel. -/
def halt : Work σ Unit := do
  log .stopping
  change fun m => { m with processor := { m.processor with executing := false } }
  change fun m => { m with mode := .kernel }
  match ← takeCurrent with
  | none => pure ()
  | some p => retire p
  resetCycles

/-- Passes the processor on to the head of the queue. -/
def switch : Work σ Unit := do
  match ← dequeue with
  | some next =>
    displace next.pid
    dispatch next
  | none =>
    let m ← machine
    if m.currentTerminated then halt else pure ()
  resetCycles

def switchAndShow (c : Console σ) : Work σ Unit := do
  switch
  showAll c

/-! ## Cycles -/

/-- One instruction of a process that was taken off the processor for it, and is put back. -/
def turn (p : Process) : Work σ Unit := do
  let m ← machine
  let cycle ← reporting (m.processor.cycle p m.memory)
  change fun m => { m with
    processor := cycle.processor
    memory := cycle.memory
    interrupts := cycle.raised.toList.foldl .enqueue m.interrupts
    current := some cycle.process }

/-- A turn of the current process, which is counted and shown. -/
def turnNow (c : Console σ) : Work σ Unit := do
  match ← takeCurrent with
  | none => pure ()
  | some p =>
    turn p
    change fun m => { m with scheduler := m.scheduler.recordCycle }
    showRegisters c

def cycle (c : Console σ) : Work σ Unit := do
  let m ← machine
  if m.current.isNone then pure ()
  else do
    if m.wantsSwitch then switchAndShow c else pure ()
    turnNow c

/-! ## Ends -/

def terminateCurrent (c : Console σ) : Work σ Unit := do
  saveCurrent
  let m ← machine
  match m.current with
  | none => pure ()
  | some p =>
    change fun m => { m with current := some { p with status := .terminated } }
    switchAndShow c

def terminate (c : Console σ) (pid : Pid) : Work σ Unit := do
  let m ← machine
  if m.currentPid? = some pid then terminateCurrent c
  else
    match ← remove pid with
    | none => throw (.noSuchProcess pid)
    | some p =>
      retire p
      showProcesses c

def kill (c : Console σ) (pid : Pid) : Work σ Unit := do
  terminate c pid
  log (.killed pid)

def terminateRaiser (c : Console σ) (pid : Pid) (kind : String) : Work σ Unit :=
  tryCatch (terminate c pid) fun reason => log (.dropped kind reason)

/-! ## Interrupts and ticks -/

def interrupt (i : Interrupt) : Work σ Unit := change (·.interrupt i)

def systemCall (c : Console σ) (pid : Pid) (accumulator x y : UInt8) : Work σ Unit := do
  let m ← machine
  match m.partitionOf? pid with
  | none => log (.callDropped pid)
  | some partition =>
    match m.callText? partition x y with
    | some text => swallow (display c (.print text))
    | none => log (.callUnsupported x accumulator)

def service (c : Console σ) (i : Interrupt) : Work σ Unit := do
  log (.servicing i.name)
  match i with
  | .timer => do
    let m ← machine
    if m.current.isSome && m.wantsSwitch then switchAndShow c else pure ()
  | .keyboard _ => do
    let keyboard ← reporting ((← machine).keyboard.service i)
    change fun m => { m with keyboard }
  | .sysCall pid accumulator x y => systemCall c pid accumulator x y
  | .step => do
    let m ← machine
    if m.singleStep then cycle c else log .stepIgnored
  | .unknownOpcode pid opcode counter => do
    log (.badOpcode pid opcode counter)
    terminateRaiser c pid i.name
  | .memoryFault pid address => do
    log (.badAddress pid address)
    terminateRaiser c pid i.name
  | .cpuBreak pid => do
    log (.broke pid)
    terminateRaiser c pid i.name
  | .disk _ => do
    let storage ← reporting ((← machine).storage.service i)
    change fun m => { m with storage }
  | .kill pid => tryCatch (kill c pid) fun reason => log (.killFailed reason)

def serviceAll (c : Console σ) : List Interrupt → Work σ Unit
  | [] => pure ()
  | i :: batch => do
    service c i
    serviceAll c batch

def tick (c : Console σ) : Work σ Unit := do
  change fun m => { m with clock := m.clock + 1 }
  let m ← machine
  log (.ticking m.clock m.interrupts.length)
  let (batch, interrupts) := m.interrupts.takePending
  change fun m => { m with interrupts }
  serviceAll c batch
  let m ← machine
  if m.processor.executing then cycle c else pure ()

/-- Ticks until the machine is idle, at most `n` times, and counts the ticks from `taken`. -/
def settleFrom (c : Console σ) (taken : Nat) : Nat → Work σ Nat
  | 0 => return taken
  | n + 1 => do
    let m ← machine
    if m.isIdle then return taken
    else do
      tick c
      settleFrom c (taken + 1) n

/-! ## Requests -/

/-- Gives a program a free partition and a fresh process id. A partition is claimed first, and is
given back if the program cannot be copied into it. -/
def accept (program : List UInt8) : Work σ Process := do
  let m ← machine
  if m.memory.partitionSize < program.length then
    throw (.programTooLarge program.length m.memory.partitionSize)
  else do
    let partition ← claim
    let m ← machine
    tryCatch (copy (m.memory.base partition) program) fun reason => do
      free partition
      throw reason
    let p : Process := { pid := m.nextPid, partition, status := .ready }
    change fun m => { m with nextPid := m.nextPid + 1 }
    log (.loaded p.pid program.length partition)
    return p

def load (c : Console σ) (program : List UInt8) : Work σ Pid := do
  let p ← accept program
  enqueue p
  showProcesses c
  return p.pid

def run (c : Console σ) (pid : Pid) : Work σ Unit := do
  let m ← machine
  if m.currentPid? = some pid then pure ()
  else if !m.ready.contains pid then throw (.noSuchProcess pid)
  else if m.current.isNone then do
    startWith pid
    showAll c
  else pure ()

def runAll (c : Console σ) : Work σ Unit := do
  let m ← machine
  if m.current.isNone then do
    start
    showAll c
  else pure ()

def step (c : Console σ) : Work σ Unit := do
  interrupt .step
  tick c

def setQuantum (quantum : Nat) : Work σ Unit :=
  if quantum = 0 then throw .invalidQuantum
  else change fun m => { m with scheduler := { m.scheduler with quantum } }

def setPolicy (policy : Policy) : Work σ Unit := do
  log (.policySet policy)
  change fun m => { m with scheduler := { m.scheduler with policy } }

/-- Sets the policy with a name. -/
def setPolicyNamed (name : String) : Work σ Unit :=
  match Policy.parse name with
  | .error reason => throw reason
  | .ok policy => setPolicy policy

def setSingleStep (enabled : Bool) : Work σ Unit := do
  change fun m => { m with singleStep := enabled }
  change fun m => { m with
    processor := { m.processor with executing := !enabled && m.current.isSome } }

/-- Queues a kill of a resident process. -/
def requestKill (pid : Pid) : Work σ Unit := do
  let m ← machine
  if (m.partitionOf? pid).isNone then throw (.noSuchProcess pid)
  else interrupt (.kill pid)

def takeInput : Work σ String := do
  let m ← machine
  let (text, keyboard) := m.keyboard.take
  change fun m => { m with keyboard }
  return text

/-- Carries out a request. -/
def perform (c : Console σ) : Request → Work σ Reply
  | .load program => do
    let pid ← load c program
    return .pid pid
  | .run pid => do
    run c pid
    return .done
  | .runAll => do
    runAll c
    return .done
  | .step => do
    step c
    return .done
  | .tick => do
    tick c
    return .done
  | .setQuantum quantum => do
    setQuantum quantum
    return .done
  | .setPolicy policy => do
    setPolicy policy
    return .done
  | .setSingleStep enabled => do
    setSingleStep enabled
    return .done
  | .kill pid => do
    kill c pid
    return .done
  | .requestKill pid => do
    requestKill pid
    return .done
  | .interrupt i => do
    interrupt i
    return .done
  | .takeInput => do
    let text ← takeInput
    return .text text

/-! ## Calls -/

end InPlace

/-- A call of the machine from outside. -/
inductive Call where
  | ask (r : Request)
  /-- Sets the policy with a name, which may be the name of none. -/
  | policyNamed (name : String)
  /-- Ticks until the machine is idle, or until a number of ticks is spent. -/
  | settle (limit : Nat)

/-- What a call that was granted answers. -/
inductive Call.Answer where
  | reply (reply : Reply)
  | ticks (count : Nat)

namespace InPlace

variable {σ : Type}

def call (c : Console σ) : Call → Work σ Call.Answer
  | .ask r => do
    let reply ← perform c r
    return .reply reply
  | .policyNamed name => do
    setPolicyNamed name
    return .reply .done
  | .settle limit => do
    let count ← settleFrom c 0 limit
    return .ticks count

/-- What calls answer one after the other, each with the machine that it leaves. -/
def callAll (c : Console σ) (s : Session σ) : List Call → List (Except Error Call.Answer × Machine)
  | [] => []
  | k :: calls =>
    let outcome := (call c k).outcome s
    (outcome.1, outcome.2.machine) :: callAll c outcome.2 calls

end InPlace

end Timeshare
