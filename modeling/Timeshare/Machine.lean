import Timeshare.Device
import Timeshare.Kernel
import Timeshare.Scheduler
import Timeshare.Settings

/-!
# The machine

The kernel loop. Every tick services the interrupts that were raised before it, in order, and then
executes one cycle of the current process if the processor executes on its own. A process leaves
the machine only by an interrupt that names it or by a kill.
-/
namespace Timeshare

structure Machine extends Kernel where
  scheduler : Scheduler := {}
  nextPid : Pid := 0
  keyboard : Keyboard := {}
  storage : Storage := {}

namespace Machine

open Traced

/-- A machine without processes, its drivers loaded. -/
def boot (s : Settings) : Except Error (Traced Machine) := do
  let memory ← Memory.ofLayout s.partitionSize s.partitions
  let scheduler ← Scheduler.ofPolicy s.policy s.quantum
  return do
    report (.memoryLayout memory.partitionCount memory.partitionSize)
    pure {
      memory, scheduler
      singleStep := s.singleStep
      keyboard := ({} : Keyboard).start
      storage := ({} : Storage).start }

/-! ## Display -/

def showRegisters (m : Machine) : Traced Unit :=
  present (.registers m.processor.registers m.processor.executing)

def showProcesses (m : Machine) : Traced Unit := present (.processes m.processes)

def showAll (m : Machine) : Traced Unit := do
  m.showRegisters
  m.showProcesses

/-! ## Scheduling -/

def resetCycles (m : Machine) : Machine := { m with scheduler := m.scheduler.reset }

/-- Puts a process on the processor with a fresh cycle count. -/
def start (m : Machine) (p : Process) : Traced Machine := do
  report (.starting p.pid)
  pure ({ m with toKernel := m.toKernel.dispatch p }).resetCycles

/-- Takes the current process off the processor in favour of `next`: to the end of the queue, or
out of the machine if it has ended. -/
def displace (m : Machine) (next : Pid) : Traced Machine := do
  match m.toKernel.saveCurrent.current with
  | none => pure m
  | some p =>
    report (.switching p.pid next m.scheduler.cycles m.scheduler.policy)
    let kernel := { m.toKernel with current := none }
    if p.isTerminated then
      pure { m with toKernel := ← kernel.release p }
    else
      let ready := kernel.ready.enqueue { p with status := .waiting }
      pure { m with toKernel := { kernel with ready } }

/-- Gives the processor back to the kernel. -/
def halt (m : Machine) : Traced Machine := do
  report .stopping
  let kernel := { m.toKernel with
    processor := { m.processor with executing := false }
    mode := .kernel
    current := none }
  let kernel ← match m.current with
    | some p => kernel.release p
    | none => pure kernel
  pure ({ m with toKernel := kernel }).resetCycles

/-- Passes the processor on to the head of the queue. With an empty queue the current process
keeps it, or the machine halts if that process has ended. -/
def switch (m : Machine) : Traced Machine :=
  match m.ready.dequeue? with
  | some (next, ready) => do
    let m ← { m with ready }.displace next.pid
    pure ({ m with toKernel := m.toKernel.dispatch next }).resetCycles
  | none => if m.currentTerminated then m.halt else pure m.resetCycles

def wantsSwitch (m : Machine) : Bool := m.scheduler.wantsSwitch m.currentTerminated

/-- Switches and shows the outcome. -/
def switchAndShow (m : Machine) : Traced Machine := do
  let m ← m.switch
  m.showAll
  pure m

/-! ## Processes -/

/-- Gives a program a free partition and a fresh process id. -/
def accept (m : Machine) (program : List UInt8) : Except Error (Process × Machine) := do
  if m.memory.partitionSize < program.length then
    throw (.programTooLarge program.length m.memory.partitionSize)
  let (partition, memory) ← m.memory.allocate
  let memory ← memory.writeBlock (memory.base partition) program
  let p : Process := { pid := m.nextPid, partition, status := .ready }
  return (p, { m with memory, nextPid := m.nextPid + 1 })

/-- Admits a program to the end of the ready queue. -/
def load (m : Machine) (program : List UInt8) : Except Error (Traced (Pid × Machine)) := do
  let (p, m) ← m.accept program
  return do
    report (.loaded p.pid program.length p.partition)
    let m := { m with ready := m.ready.enqueue p }
    m.showProcesses
    pure (p.pid, m)

/-- Starts a waiting process out of turn if the processor is free. -/
def run (m : Machine) (pid : Pid) : Except Error (Traced Machine) :=
  if m.currentPid? = some pid then .ok (pure m)
  else match m.ready.remove? pid with
    | none => .error (.noSuchProcess pid)
    | some (p, ready) =>
      if m.current.isSome then .ok (pure m)
      else .ok do
        let m ← { m with ready }.start p
        m.showAll
        pure m

/-- Starts the head of the queue if the processor is free. -/
def runAll (m : Machine) : Traced Machine :=
  if m.current.isSome then pure m
  else do
    let m ← match m.ready.dequeue? with
      | some (p, ready) => ({ m with ready } : Machine).start p
      | none => pure m
    m.showAll
    pure m

/-- Ends the current process. -/
def terminateCurrent (m : Machine) (p : Process) : Traced Machine :=
  let ended := { p.save m.processor.registers with status := .terminated }
  { m with current := some ended }.switchAndShow

/-- Ends a resident process. -/
def terminate (m : Machine) (pid : Pid) : Except Error (Traced Machine) :=
  match m.current.filter (·.pid = pid) with
  | some p => .ok (m.terminateCurrent p)
  | none => match m.ready.remove? pid with
    | none => .error (.noSuchProcess pid)
    | some (p, ready) => .ok do
      let kernel ← { m.toKernel with ready }.release p
      let m := { m with toKernel := kernel }
      m.showProcesses
      pure m

/-- Ends a resident process at the console's wish. -/
def kill (m : Machine) (pid : Pid) : Except Error (Traced Machine) := do
  let ended ← m.terminate pid
  return do
    let m ← ended
    report (.killed pid)
    pure m

/-- Ends the process that raised an interrupt, which may be gone by now. -/
def terminateRaiser (m : Machine) (pid : Pid) (kind : String) : Traced Machine :=
  match m.terminate pid with
  | .ok ended => ended
  | .error reason => do
    report (.dropped kind reason)
    pure m

/-! ## Interrupts and ticks -/

/-- Queues an interrupt for the next tick. -/
def interrupt (m : Machine) (i : Interrupt) : Machine :=
  { m with interrupts := m.interrupts.enqueue i }

/-- Queues a kill of a resident process. -/
def requestKill (m : Machine) (pid : Pid) : Except Error Machine :=
  if (m.partitionOf? pid).isSome then .ok (m.interrupt (.kill pid))
  else .error (.noSuchProcess pid)

/-- What a system call prints, if X names one: Y in decimal, or the text at Y. -/
def callText? (m : Machine) (partition : Nat) (x y : UInt8) : Option String :=
  if x = 1 then some (toString y.toNat)
  else if x = 2 then some (m.memory.textAt partition y.toNat)
  else none

def systemCall (m : Machine) (pid : Pid) (accumulator x y : UInt8) : Traced Unit :=
  match m.partitionOf? pid with
  | none => report (.callDropped pid)
  | some partition =>
    match m.callText? partition x y with
    | some text => present (.print text)
    | none => report (.callUnsupported x accumulator)

/-- Runs one cycle of the current process, after a switch if one is due. -/
def cycle (m : Machine) : Traced Machine :=
  match m.current with
  | none => pure m
  | some _ => do
    let m ← if m.wantsSwitch then m.switchAndShow else pure m
    match m.current with
    | none => pure m
    | some _ =>
      let kernel ← m.toKernel.cycle
      let m := { m with toKernel := kernel, scheduler := m.scheduler.recordCycle }
      m.showRegisters
      pure m

/-- Services one interrupt. -/
def service (m : Machine) (i : Interrupt) : Traced Machine := do
  report (.servicing i.name)
  match i with
  | .timer => if m.current.isSome && m.wantsSwitch then m.switchAndShow else pure m
  | .keyboard _ => pure { m with keyboard := ← m.keyboard.service i }
  | .sysCall pid accumulator x y =>
    m.systemCall pid accumulator x y
    pure m
  | .step =>
    if m.singleStep then m.cycle
    else
      report .stepIgnored
      pure m
  | .unknownOpcode pid opcode counter =>
    report (.badOpcode pid opcode counter)
    m.terminateRaiser pid i.name
  | .memoryFault pid address =>
    report (.badAddress pid address)
    m.terminateRaiser pid i.name
  | .cpuBreak pid =>
    report (.broke pid)
    m.terminateRaiser pid i.name
  | .disk _ => pure { m with storage := ← m.storage.service i }
  | .kill pid =>
    match m.kill pid with
    | .ok killed => killed
    | .error reason =>
      report (.killFailed reason)
      pure m

/-- Services a batch of interrupts in order. -/
def serviceAll (m : Machine) (batch : List Interrupt) : Traced Machine :=
  batch.foldl (fun m i => m >>= (service · i)) (pure m)

def tick (m : Machine) : Traced Machine := do
  let m := { m with clock := m.clock + 1 }
  report (.ticking m.clock m.interrupts.length)
  let (batch, interrupts) := m.interrupts.takePending
  let m ← { m with interrupts }.serviceAll batch
  if m.processor.executing then m.cycle else pure m

/-- One tick on behalf of single-step mode. -/
def step (m : Machine) : Traced Machine := (m.interrupt .step).tick

/-- Nothing waits and nothing executes on its own. -/
def isIdle (m : Machine) : Bool :=
  m.interrupts.isEmpty && !(m.processor.executing && m.current.isSome)

/-! ## Controls -/

def setQuantum (m : Machine) (quantum : Nat) : Except Error Machine := do
  return { m with scheduler := ← m.scheduler.setQuantum quantum }

def setPolicy (m : Machine) (policy : Policy) : Traced Machine := do
  report (.policySet policy)
  pure { m with scheduler := { m.scheduler with policy } }

/-- Turns single-step mode on or off; the processor executes on its own while it is off. -/
def setSingleStep (m : Machine) (enabled : Bool) : Machine :=
  { m with
    singleStep := enabled
    processor := { m.processor with executing := !enabled && m.current.isSome } }

/-- What was typed and serviced since the last time. -/
def takeInput (m : Machine) : String × Machine :=
  let (text, keyboard) := m.keyboard.take
  (text, { m with keyboard })

end Machine

end Timeshare
