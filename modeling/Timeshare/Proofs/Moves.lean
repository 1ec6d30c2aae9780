import Mathlib.Tactic
import Timeshare.Session

/-!
# Moves of a machine

Everything that a machine does between two loads is put together from seven moves: a change beside
the processes, a start, a rotation, three ways to leave, and one cycle. Each constructor of `Move`
says exactly which machine comes next and which cycles are run on the way, so that what all moves
keep is kept by every operation. Loading is not a move: it is the only operation that brings a new
process.
-/
namespace Timeshare

/-- What follows a computation that may fail has its value to start from. -/
theorem exists_of_bind_eq_ok {α β : Type} {x : Except Error α} {f : α → Except Error β} {b : β}
    (h : x >>= f = .ok b) : ∃ a, x = .ok a ∧ f a = .ok b := by
  cases x with
  | error reason => cases h
  | ok a => exact ⟨a, rfl, h⟩

/-- What follows a computation that may fail and never fails itself adds no failure. -/
theorem bind_eq_error_iff {α β : Type} {x : Except Error α} {f : α → Except Error β}
    {reason : Error} (hf : ∀ a, ∃ b, f a = .ok b) :
    x >>= f = .error reason ↔ x = .error reason := by
  cases x with
  | error other => exact ⟨fun h => by cases h; rfl, fun h => by cases h; rfl⟩
  | ok a =>
    obtain ⟨b, hb⟩ := hf a
    have hok : (.ok a : Except Error α) >>= f = .ok b := hb
    rw [hok]
    exact ⟨nofun, nofun⟩

namespace ReadyQueue

/-- The first process with an id is removed, and the others stay in order. -/
theorem remove?_of_toList_eq {q : ReadyQueue} {p : Process} {before after : List Process}
    (h : q.toList = before ++ p :: after) (hbefore : ∀ x ∈ before, x.pid ≠ p.pid) :
    q.remove? p.pid = some (p, ⟨before ++ after⟩) := by
  have hother : ∀ x ∈ before, ¬ decide (x.pid = p.pid) = true := fun x hx => by
    simpa using hbefore x hx
  have hfind : q.find? p.pid = some p :=
    List.find?_eq_some_iff_append.2 ⟨by simp, before, after, h, by simpa using hbefore⟩
  rw [remove?, hfind, h, List.eraseP_append_right _ hother]
  simp

/-- Whoever is removed was the first with that id. -/
theorem remove?_eq_some {q q' : ReadyQueue} {pid : Pid} {p : Process}
    (h : q.remove? pid = some (p, q')) :
    ∃ before after, q.toList = before ++ p :: after ∧ q' = ⟨before ++ after⟩ ∧ p.pid = pid ∧
      ∀ x ∈ before, x.pid ≠ pid := by
  obtain ⟨x, hfind, hx⟩ := Option.map_eq_some_iff.1 h
  obtain ⟨rfl, -⟩ := Prod.mk.inj hx
  obtain ⟨hpid, before, after, hlist, hbefore⟩ := List.find?_eq_some_iff_append.1 hfind
  obtain rfl : x.pid = pid := by simpa using hpid
  have hfirst : ∀ y ∈ before, y.pid ≠ x.pid := fun y hy => by simpa using hbefore y hy
  rw [remove?_of_toList_eq hlist hfirst] at h
  exact ⟨before, after, hlist, (Prod.mk.inj (Option.some.inj h)).2.symm, rfl, hfirst⟩

theorem remove?_eq_none_iff (q : ReadyQueue) (pid : Pid) :
    q.remove? pid = none ↔ ∀ x ∈ q.toList, x.pid ≠ pid := by
  simp [remove?, find?]

theorem dequeue?_eq_some {q q' : ReadyQueue} {p : Process} (h : q.dequeue? = some (p, q')) :
    q.toList = p :: q'.toList := by
  unfold dequeue? at h
  split at h
  · cases h
  · cases h
    assumption

end ReadyQueue

namespace Machine

open Traced

/-- The machine with `next` on the processor, `ready` waiting and a fresh cycle count. -/
def handTo (m : Machine) (next : Process) (ready : List Process) : Machine :=
  ({ m with toKernel := { m.toKernel with ready := ⟨ready⟩ }.dispatch next }).resetCycles

/-- Without single-step mode the processor executes on its own. -/
theorem executing_handTo {m : Machine} (h : m.singleStep = false) (next : Process)
    (ready : List Process) : (m.handTo next ready).processor.executing = true := by
  show (!m.singleStep) = true
  rw [h]
  rfl

/-- The machine with the processor back in the hands of the kernel. -/
def stopped (m : Machine) : Machine :=
  ({ m with
    processor := { m.processor with executing := false }
    mode := .kernel
    current := none } : Machine).resetCycles

def freed (m : Machine) (p : Process) : Machine :=
  { m with memory := m.memory.free p.partition }

/-- The machine after a cycle of the current process. -/
def turned (m : Machine) (c : Cycle) : Machine :=
  { m with
    processor := c.processor
    memory := c.memory
    current := some c.process
    interrupts := c.raised.toList.foldl .enqueue m.interrupts
    scheduler := m.scheduler.recordCycle }

/-- A machine that differs only beside its processes: in counters, settings, what waits, and
devices. -/
structure Beside (m m' : Machine) : Prop where
  memory_eq : m'.memory = m.memory
  registers_eq : m'.processor.registers = m.processor.registers
  current_eq : m'.current = m.current
  ready_eq : m'.ready = m.ready
  mode_eq : m'.mode = m.mode
  nextPid_eq : m'.nextPid = m.nextPid

end Machine

/-- One move, with the cycles that it runs. -/
inductive Move : Machine → List Turn → Machine → Prop
  | aside {m m' : Machine} (h : m.Beside m') : Move m [] m'
  | start {m : Machine} {p : Process} {before after : List Process} (hc : m.current = none)
      (hr : m.ready.toList = before ++ p :: after) : Move m [] (m.handTo p (before ++ after))
  | rotate {m : Machine} {p next : Process} {rest : List Process} (hc : m.current = some p)
      (ht : p.isTerminated = false) (hr : m.ready.toList = next :: rest) :
      Move m [] (m.handTo next
        (rest ++ [{ p.save m.processor.registers with status := .waiting }]))
  | retire {m : Machine} {p next : Process} {rest : List Process} (hc : m.current = some p)
      (hr : m.ready.toList = next :: rest) : Move m [] ((m.freed p).handTo next rest)
  | halt {m : Machine} {p : Process} (hc : m.current = some p) (hr : m.ready.toList = []) :
      Move m [] (m.freed p).stopped
  | drop {m : Machine} {p : Process} {before after : List Process}
      (hr : m.ready.toList = before ++ p :: after) :
      Move m [] { m.freed p with ready := ⟨before ++ after⟩ }
  | turn {m : Machine} {p : Process} (hc : m.current = some p) :
      Move m [⟨p.pid, (m.processor.cycle p m.memory).value.raised⟩]
        (m.turned (m.processor.cycle p m.memory).value)

/-- Moves one after the other, with all their cycles in order. -/
inductive Moves : Machine → List Turn → Machine → Prop
  | refl (m : Machine) : Moves m [] m
  | head {m m₁ m₂ : Machine} {ts us : List Turn} (h : Move m ts m₁) (hs : Moves m₁ us m₂) :
      Moves m (ts ++ us) m₂

namespace Moves

theorem single {m m' : Machine} {ts : List Turn} (h : Move m ts m') : Moves m ts m' := by
  simpa using head h (refl m')

theorem trans {m m₁ m₂ : Machine} {ts us : List Turn} (h : Moves m ts m₁) (h' : Moves m₁ us m₂) :
    Moves m (ts ++ us) m₂ := by
  induction h with
  | refl => exact h'
  | head hmove _ ih =>
    rw [List.append_assoc]
    exact head hmove (ih h')

/-- What every move keeps, moves keep. -/
theorem keep {P : Machine → Prop} (hstep : ∀ {m m' ts}, Move m ts m' → P m → P m')
    {m m' : Machine} {ts : List Turn} (h : Moves m ts m') (hp : P m) : P m' := by
  induction h with
  | refl => exact hp
  | head hmove _ ih => exact ih (hstep hmove hp)

end Moves

namespace Machine

open Traced

/-- The computation arrives by moves, and its trace holds their cycles. -/
def MovesTo (m : Machine) (t : Traced Machine) : Prop := Moves m t.turns t.value

section

variable {m : Machine} {t : Traced Machine}

theorem movesTo_pure (m : Machine) : m.MovesTo (pure m) := .refl m

theorem movesTo_aside {m' : Machine} (h : m.Beside m') : m.MovesTo (pure m') := .single (.aside h)

theorem MovesTo.bind {f : Machine → Traced Machine} (h : m.MovesTo t)
    (hf : t.value.MovesTo (f t.value)) : m.MovesTo (t >>= f) := Moves.trans h hf

/-- Reports and frames before a computation run no cycle. -/
theorem MovesTo.behind {α : Type} {x : Traced α} {f : α → Traced Machine} (hx : x.turns = [])
    (h : m.MovesTo (f x.value)) : m.MovesTo (x >>= f) := by
  unfold MovesTo
  rw [turns_bind, hx]
  exact h

end

/-! ## Showing and releasing run no cycle -/

@[simp]
theorem turns_showRegisters (m : Machine) : m.showRegisters.turns = [] := rfl

@[simp]
theorem turns_showAll (m : Machine) : m.showAll.turns = [] := rfl

@[simp]
theorem value_release (k : Kernel) (p : Process) :
    (k.release p).value = { k with memory := k.memory.free p.partition } := rfl

/-! ## The switch -/

section

variable {m : Machine} {p next : Process} {rest : List Process}

theorem currentTerminated_of_current (hc : m.current = some p) :
    m.currentTerminated = p.isTerminated := by
  rw [Kernel.currentTerminated, hc]
  rfl

theorem switch_rotate (hc : m.current = some p) (ht : p.isTerminated = false)
    (hr : m.ready.toList = next :: rest) :
    m.switch.value =
      m.handTo next (rest ++ [{ p.save m.processor.registers with status := .waiting }]) := by
  have ht' : (p.save m.processor.registers).isTerminated = false := ht
  simp [switch, ReadyQueue.dequeue?, hr, displace, Kernel.saveCurrent, hc, ht', handTo,
    Kernel.dispatch, ReadyQueue.enqueue]

theorem switch_retire (hc : m.current = some p) (ht : p.isTerminated = true)
    (hr : m.ready.toList = next :: rest) : m.switch.value = (m.freed p).handTo next rest := by
  have ht' : (p.save m.processor.registers).isTerminated = true := ht
  simp [switch, ReadyQueue.dequeue?, hr, displace, Kernel.saveCurrent, hc, ht', handTo, freed,
    Kernel.dispatch]
  rfl

theorem switch_halt (hc : m.current = some p) (ht : p.isTerminated = true)
    (hr : m.ready.toList = []) : m.switch.value = (m.freed p).stopped := by
  simp [switch, ReadyQueue.dequeue?, hr, Kernel.currentTerminated, hc, ht, halt, freed, stopped]

theorem switch_alone (ht : m.currentTerminated = false) (hr : m.ready.toList = []) :
    m.switch.value = m.resetCycles := by
  simp [switch, ReadyQueue.dequeue?, hr, ht]

@[simp]
theorem turns_displace (m : Machine) (next : Pid) : (m.displace next).turns = [] := by
  unfold displace
  split
  · rfl
  · split <;> rfl

@[simp]
theorem turns_halt (m : Machine) : m.halt.turns = [] := by
  unfold halt
  split <;> rfl

@[simp]
theorem turns_switch (m : Machine) : m.switch.turns = [] := by
  unfold switch
  split
  · simp
  · split <;> simp

@[simp]
theorem value_switchAndShow (m : Machine) : m.switchAndShow.value = m.switch.value := rfl

@[simp]
theorem turns_switchAndShow (m : Machine) : m.switchAndShow.turns = [] := by
  simp [switchAndShow]

/-- What a switch does where `p` is on the processor. -/
inductive Switched (m : Machine) (p : Process) : Prop
  /-- The process goes on, since nobody waits. -/
  | alone (ht : p.isTerminated = false) (hr : m.ready.toList = [])
      (h : m.switch.value = m.resetCycles)
  /-- The process makes way for the next one. -/
  | rotate {next : Process} {rest : List Process} (ht : p.isTerminated = false)
      (hr : m.ready.toList = next :: rest)
      (h : m.switch.value =
        m.handTo next (rest ++ [{ p.save m.processor.registers with status := .waiting }]))
  /-- The process was ended, and nobody waits. -/
  | halt (ht : p.isTerminated = true) (hr : m.ready.toList = [])
      (h : m.switch.value = (m.freed p).stopped)
  /-- The process was ended, and the next one takes over. -/
  | retire {next : Process} {rest : List Process} (ht : p.isTerminated = true)
      (hr : m.ready.toList = next :: rest) (h : m.switch.value = (m.freed p).handTo next rest)

theorem switched (hc : m.current = some p) : Switched m p := by
  cases ht : p.isTerminated with
  | false =>
    cases hr : m.ready.toList with
    | nil => exact .alone ht hr (switch_alone ((currentTerminated_of_current hc).trans ht) hr)
    | cons next rest => exact .rotate ht hr (switch_rotate hc ht hr)
  | true =>
    cases hr : m.ready.toList with
    | nil => exact .halt ht hr (switch_halt hc ht hr)
    | cons next rest => exact .retire ht hr (switch_retire hc ht hr)

theorem movesTo_switchAndShow (hc : m.current = some p) : m.MovesTo m.switchAndShow := by
  unfold MovesTo
  rw [turns_switchAndShow, value_switchAndShow]
  cases switched hc with
  | alone _ _ h =>
    rw [h]
    exact .single (.aside ⟨rfl, rfl, rfl, rfl, rfl, rfl⟩)
  | rotate ht hr h =>
    rw [h]
    exact .single (.rotate hc ht hr)
  | halt _ hr h =>
    rw [h]
    exact .single (.halt hc hr)
  | retire _ hr h =>
    rw [h]
    exact .single (.retire hc hr)

end

/-! ## Operations -/

section

variable {m : Machine} {t : Traced Machine}

/-- Ending the current process passes the processor on, or halts the machine. -/
theorem value_terminateCurrent (m : Machine) (p : Process) :
    (m.terminateCurrent p).value =
      match m.ready.toList with
      | [] => (m.freed p).stopped
      | next :: rest => (m.freed p).handTo next rest := by
  let ended : Process := { p.save m.processor.registers with status := .terminated }
  let marked : Machine := { m with current := some ended }
  unfold terminateCurrent
  rw [value_switchAndShow]
  cases hr : m.ready.toList with
  | nil => exact (switch_halt (m := marked) (p := ended) rfl rfl hr).trans rfl
  | cons next rest => exact (switch_retire (m := marked) (p := ended) rfl rfl hr).trans rfl

theorem movesTo_terminateCurrent {p : Process} (hc : m.current = some p) :
    m.MovesTo (m.terminateCurrent p) := by
  unfold MovesTo
  rw [value_terminateCurrent, terminateCurrent, turns_switchAndShow]
  cases hr : m.ready.toList with
  | nil => exact .single (.halt hc hr)
  | cons next rest => exact .single (.retire hc hr)

/-- A process ends on the processor or in the queue, and in the queue it is the first with that
id. -/
theorem terminate_eq_ok {pid : Pid} (h : m.terminate pid = .ok t) :
    (∃ p, m.current = some p ∧ p.pid = pid ∧ t = m.terminateCurrent p) ∨
      ∃ p before after, (∀ x, m.current = some x → x.pid ≠ pid) ∧
        m.ready.toList = before ++ p :: after ∧ p.pid = pid ∧ (∀ x ∈ before, x.pid ≠ pid) ∧
        t.value = { m.freed p with ready := ⟨before ++ after⟩ } ∧ t.turns = [] := by
  unfold terminate at h
  split at h
  · rename_i p hp
    obtain ⟨hc, hpid⟩ := Option.filter_eq_some_iff.1 hp
    exact .inl ⟨p, hc, by simpa using hpid, (Except.ok.inj h).symm⟩
  · rename_i hnone
    right
    split at h
    · cases h
    · rename_i p ready hremove
      obtain ⟨before, after, hlist, rfl, hpid, hbefore⟩ := ReadyQueue.remove?_eq_some hremove
      obtain rfl := Except.ok.inj h
      refine ⟨p, before, after, fun x hx hxpid => ?_, hlist, hpid, hbefore, rfl, rfl⟩
      simp [hx, hxpid] at hnone

theorem terminate_eq_error {pid : Pid} {reason : Error} (h : m.terminate pid = .error reason) :
    (∀ x, m.current = some x → x.pid ≠ pid) ∧ ∀ x ∈ m.ready.toList, x.pid ≠ pid := by
  unfold terminate at h
  split at h
  · cases h
  · rename_i hnone
    split at h
    · rename_i hremove
      refine ⟨fun x hx hxpid => ?_, (ReadyQueue.remove?_eq_none_iff _ _).1 hremove⟩
      simp [hx, hxpid] at hnone
    · cases h

theorem terminate_of_current {p : Process} (hc : m.current = some p) :
    m.terminate p.pid = .ok (m.terminateCurrent p) := by
  have hfilter : m.current.filter (·.pid = p.pid) = some p := by simp [hc]
  simp only [terminate, hfilter]

theorem movesTo_terminate {pid : Pid} (h : m.terminate pid = .ok t) : m.MovesTo t := by
  rcases terminate_eq_ok h with ⟨p, hc, -, rfl⟩ | ⟨p, before, after, -, hr, -, -, hv, ht⟩
  · exact movesTo_terminateCurrent hc
  · unfold MovesTo
    rw [hv, ht]
    exact .single (.drop hr)

/-- A kill ends the process and reports it. -/
theorem kill_eq_ok {pid : Pid} (h : m.kill pid = .ok t) :
    ∃ ended, m.terminate pid = .ok ended ∧
      t = ended >>= fun m => report (.killed pid) >>= fun _ => pure m := by
  obtain ⟨ended, hend, ht⟩ := exists_of_bind_eq_ok h
  exact ⟨ended, hend, (Except.ok.inj ht).symm⟩

theorem kill_eq_error {pid : Pid} {reason : Error} (h : m.kill pid = .error reason) :
    m.terminate pid = .error reason := by
  unfold kill at h
  cases hend : m.terminate pid with
  | error other =>
    rw [hend] at h
    exact h
  | ok ended =>
    rw [hend] at h
    cases h

theorem movesTo_kill {pid : Pid} (h : m.kill pid = .ok t) : m.MovesTo t := by
  obtain ⟨ended, hend, rfl⟩ := kill_eq_ok h
  exact (movesTo_terminate hend).bind ((movesTo_pure _).behind rfl)

theorem movesTo_terminateRaiser (m : Machine) (pid : Pid) (kind : String) :
    m.MovesTo (m.terminateRaiser pid kind) := by
  unfold terminateRaiser
  split
  · rename_i hend
    exact movesTo_terminate hend
  · exact (movesTo_pure m).behind rfl

/-- The cycle of whoever is on the processor, without a look at the quantum. -/
def turnNow (m : Machine) : Traced Machine :=
  match m.current with
  | none => pure m
  | some _ => do
    let kernel ← m.toKernel.cycle
    let m := { m with toKernel := kernel, scheduler := m.scheduler.recordCycle }
    m.showRegisters
    pure m

theorem cycle_eq {p : Process} (hc : m.current = some p) :
    m.cycle = (if m.wantsSwitch then m.switchAndShow else pure m) >>= turnNow := by
  rw [cycle, hc]
  cases m.wantsSwitch <;> simp only <;> rfl

@[simp]
theorem turns_processorCycle (c : Processor) (p : Process) (memory : Memory) :
    (c.cycle p memory).turns = [] := by
  unfold Processor.cycle
  simp only
  split
  · rfl
  · split <;> rfl

theorem value_turnNow {p : Process} (hc : m.current = some p) :
    m.turnNow.value = m.turned (m.processor.cycle p m.memory).value := by
  unfold turnNow
  simp only [hc, Kernel.cycle]
  rfl

theorem turns_turnNow {p : Process} (hc : m.current = some p) :
    m.turnNow.turns = [⟨p.pid, (m.processor.cycle p m.memory).value.raised⟩] := by
  unfold turnNow
  simp [hc, Kernel.cycle]

/-- What the cycle raises waits behind what waits already. -/
theorem pending_turned (m : Machine) (c : Cycle) :
    (m.turned c).interrupts.pending.toList =
      m.interrupts.pending.toList ++ c.raised.toList := by
  show (c.raised.toList.foldl InterruptQueue.enqueue m.interrupts).pending.toList = _
  cases c.raised with
  | none => simp
  | some i => simp [InterruptQueue.enqueue]

/-- Breaking saves the registers into the process. Nothing else changes in it. -/
theorem process_cycle (c : Processor) (p : Process) (memory : Memory) :
    (c.cycle p memory).value.process = p ∨
      (c.cycle p memory).value.process = p.save c.registers := by
  unfold Processor.cycle
  simp only
  split
  · exact .inl rfl
  · split
    · exact .inl rfl
    · rename_i opcode _
      by_cases hb : opcode = .breakpoint
      · right
        simp [hb, Processor.finish]
      · left
        simp [hb, Processor.finish]

theorem pid_process_cycle (c : Processor) (p : Process) (memory : Memory) :
    (c.cycle p memory).value.process.pid = p.pid := by
  rcases process_cycle c p memory with h | h
  · rw [h]
  · rw [h]
    rfl

theorem isTerminated_process_cycle (c : Processor) (p : Process) (memory : Memory) :
    (c.cycle p memory).value.process.isTerminated = p.isTerminated := by
  rcases process_cycle c p memory with h | h
  · rw [h]
  · rw [h]
    rfl

theorem movesTo_turnNow (m : Machine) : m.MovesTo m.turnNow := by
  cases hc : m.current with
  | none =>
    rw [turnNow, hc]
    exact movesTo_pure m
  | some p =>
    unfold MovesTo
    rw [value_turnNow hc, turns_turnNow hc]
    exact .single (.turn hc)

theorem movesTo_cycle (m : Machine) : m.MovesTo m.cycle := by
  cases hc : m.current with
  | none =>
    rw [cycle, hc]
    exact movesTo_pure m
  | some p =>
    rw [cycle_eq hc]
    split
    · exact (movesTo_switchAndShow hc).bind (movesTo_turnNow _)
    · exact (movesTo_pure m).bind (movesTo_turnNow m)

@[simp]
theorem turns_systemCall (m : Machine) (pid : Pid) (accumulator x y : UInt8) :
    (m.systemCall pid accumulator x y).turns = [] := by
  unfold systemCall
  split
  · rfl
  · split <;> rfl

@[simp]
theorem turns_keyboardService (k : Keyboard) (i : Interrupt) : (k.service i).turns = [] := by
  unfold Keyboard.service
  split
  · split <;> rfl
  · rfl

@[simp]
theorem turns_storageService (s : Storage) (i : Interrupt) : (s.service i).turns = [] := by
  unfold Storage.service
  split
  · split
    · rfl
    · split <;> rfl
    · rfl
  · rfl

theorem movesTo_service (m : Machine) (i : Interrupt) : m.MovesTo (m.service i) := by
  unfold service
  refine .behind rfl ?_
  cases i with
  | timer =>
    cases hc : m.current with
    | none => simpa [hc] using movesTo_pure m
    | some p =>
      simp only [Option.isSome_some, Bool.true_and]
      split
      · exact movesTo_switchAndShow hc
      · exact movesTo_pure m
  | keyboard key =>
    exact .behind (turns_keyboardService _ _) (movesTo_aside ⟨rfl, rfl, rfl, rfl, rfl, rfl⟩)
  | sysCall pid accumulator x y => exact (movesTo_pure m).behind (turns_systemCall m _ _ _ _)
  | step =>
    simp only
    split
    · exact movesTo_cycle m
    · exact (movesTo_pure m).behind rfl
  | unknownOpcode pid opcode counter => exact (movesTo_terminateRaiser m pid _).behind rfl
  | memoryFault pid address => exact (movesTo_terminateRaiser m pid _).behind rfl
  | cpuBreak pid => exact (movesTo_terminateRaiser m pid _).behind rfl
  | disk request =>
    exact .behind (turns_storageService _ _) (movesTo_aside ⟨rfl, rfl, rfl, rfl, rfl, rfl⟩)
  | kill pid =>
    simp only
    split
    · rename_i hkill
      exact movesTo_kill hkill
    · exact (movesTo_pure m).behind rfl

end

/-! ## Batches, ticks and requests -/

/-- A batch is serviced one interrupt after the other, each on what the ones before it left. -/
theorem serviceAll_cons (m : Machine) (i : Interrupt) (batch : List Interrupt) :
    m.serviceAll (i :: batch) = m.service i >>= (serviceAll · batch) := by
  have key : ∀ (batch : List Interrupt) (t : Traced Machine),
      batch.foldl (fun t i => t >>= (service · i)) t = t >>= (serviceAll · batch) := by
    intro batch
    induction batch with
    | nil =>
      intro t
      exact (bind_pure t).symm
    | cons j batch ih =>
      intro t
      have hone : ∀ m : Machine, m.serviceAll (j :: batch) =
          m.service j >>= (serviceAll · batch) := fun m => by
        rw [serviceAll, List.foldl_cons, pure_bind, ih]
      rw [List.foldl_cons, ih, bind_assoc]
      simp only [hone]
  rw [serviceAll, List.foldl_cons, pure_bind, key]

theorem movesTo_serviceAll (m : Machine) (batch : List Interrupt) :
    m.MovesTo (m.serviceAll batch) := by
  induction batch generalizing m with
  | nil => exact movesTo_pure m
  | cons i batch ih =>
    rw [serviceAll_cons]
    exact (movesTo_service m i).bind (ih _)

/-- The machine at the start of a tick, its pending interrupts taken. -/
def awake (m : Machine) : Machine := { m with clock := m.clock + 1, interrupts := {} }

theorem tick_eq (m : Machine) :
    m.tick = (do
      report (.ticking (m.clock + 1) m.interrupts.length)
      let m ← m.awake.serviceAll m.interrupts.pending.toList
      if m.processor.executing then m.cycle else pure m) := rfl

theorem beside_awake (m : Machine) : m.Beside m.awake := ⟨rfl, rfl, rfl, rfl, rfl, rfl⟩

theorem MovesTo.after {m m' : Machine} {t : Traced Machine} (h : m.Beside m')
    (ht : m'.MovesTo t) : m.MovesTo t := .head (.aside h) ht

theorem movesTo_tick (m : Machine) : m.MovesTo m.tick := by
  rw [tick_eq]
  refine .after m.beside_awake (.behind rfl ((movesTo_serviceAll _ _).bind ?_))
  split
  · exact movesTo_cycle _
  · exact movesTo_pure _

theorem beside_interrupt (m : Machine) (i : Interrupt) : m.Beside (m.interrupt i) :=
  ⟨rfl, rfl, rfl, rfl, rfl, rfl⟩

theorem movesTo_step (m : Machine) : m.MovesTo m.step :=
  .after (m.beside_interrupt .step) (movesTo_tick _)

theorem movesTo_run {m : Machine} {pid : Pid} {t : Traced Machine} (h : m.run pid = .ok t) :
    m.MovesTo t := by
  unfold run at h
  split at h
  · obtain rfl := Except.ok.inj h
    exact movesTo_pure m
  · split at h
    · cases h
    · rename_i p ready hremove
      obtain ⟨before, after, hlist, rfl, -, -⟩ := ReadyQueue.remove?_eq_some hremove
      split at h
      · obtain rfl := Except.ok.inj h
        exact movesTo_pure m
      · rename_i hidle
        obtain rfl := Except.ok.inj h
        have hc : m.current = none := by simpa using hidle
        exact Moves.single (.start hc hlist)

theorem movesTo_runAll (m : Machine) : m.MovesTo m.runAll := by
  unfold runAll
  split
  · exact movesTo_pure m
  · rename_i hidle
    have hc : m.current = none := by simpa using hidle
    simp only
    split
    · rename_i p ready hnext
      have hlist : m.ready.toList = [] ++ p :: ready.toList := ReadyQueue.dequeue?_eq_some hnext
      exact .bind (Moves.single (.start hc hlist)) (.behind rfl (movesTo_pure _))
    · exact .bind (movesTo_pure m) (.behind rfl (movesTo_pure _))

end Machine

/-- What a request does that is granted. -/
inductive Performed (m : Machine) : Request → Traced (Reply × Machine) → Prop
  | load {program : List UInt8} {t : Traced (Pid × Machine)} (h : m.load program = .ok t) :
      Performed m (.load program) ((fun (pid, m) => (.pid pid, m)) <$> t)
  | run {pid : Pid} {t : Traced Machine} (h : m.run pid = .ok t) :
      Performed m (.run pid) ((.done, ·) <$> t)
  | runAll : Performed m .runAll ((.done, ·) <$> m.runAll)
  | step : Performed m .step ((.done, ·) <$> m.step)
  | tick : Performed m .tick ((.done, ·) <$> m.tick)
  | setQuantum {quantum : Nat} {scheduler : Scheduler}
      (h : m.scheduler.setQuantum quantum = .ok scheduler) :
      Performed m (.setQuantum quantum) (pure (.done, { m with scheduler }))
  | setPolicy {policy : Policy} :
      Performed m (.setPolicy policy) ((.done, ·) <$> m.setPolicy policy)
  | setSingleStep {enabled : Bool} :
      Performed m (.setSingleStep enabled) (pure (.done, m.setSingleStep enabled))
  | kill {pid : Pid} {t : Traced Machine} (h : m.kill pid = .ok t) :
      Performed m (.kill pid) ((.done, ·) <$> t)
  | requestKill {pid : Pid} (h : (m.partitionOf? pid).isSome = true) :
      Performed m (.requestKill pid) (pure (.done, m.interrupt (.kill pid)))
  | interrupt {i : Interrupt} : Performed m (.interrupt i) (pure (.done, m.interrupt i))
  | takeInput : Performed m .takeInput (pure (.text m.takeInput.1, m.takeInput.2))

namespace Machine

open Traced

theorem performed {m : Machine} {r : Request} {t : Traced (Reply × Machine)}
    (h : m.perform r = .ok t) : Performed m r t := by
  cases r with
  | load program =>
    obtain ⟨u, hload, hu⟩ := exists_of_bind_eq_ok h
    obtain rfl := Except.ok.inj hu
    exact .load hload
  | run pid =>
    obtain ⟨u, hrun, hu⟩ := exists_of_bind_eq_ok h
    obtain rfl := Except.ok.inj hu
    exact .run hrun
  | runAll =>
    obtain rfl := Except.ok.inj h
    exact .runAll
  | step =>
    obtain rfl := Except.ok.inj h
    exact .step
  | tick =>
    obtain rfl := Except.ok.inj h
    exact .tick
  | setQuantum quantum =>
    obtain ⟨m', hm', hu⟩ := exists_of_bind_eq_ok h
    obtain ⟨scheduler, hset, hscheduler⟩ := exists_of_bind_eq_ok hm'
    obtain rfl := Except.ok.inj hscheduler
    obtain rfl := Except.ok.inj hu
    exact .setQuantum hset
  | setPolicy policy =>
    obtain rfl := Except.ok.inj h
    exact .setPolicy
  | setSingleStep enabled =>
    obtain rfl := Except.ok.inj h
    exact .setSingleStep
  | kill pid =>
    obtain ⟨u, hkill, hu⟩ := exists_of_bind_eq_ok h
    obtain rfl := Except.ok.inj hu
    exact .kill hkill
  | requestKill pid =>
    simp only [perform, requestKill] at h
    split at h
    · rename_i hpartition
      obtain rfl := Except.ok.inj h
      exact .requestKill hpartition
    · cases h
  | interrupt i =>
    obtain rfl := Except.ok.inj h
    exact .interrupt
  | takeInput =>
    obtain rfl := Except.ok.inj h
    exact .takeInput

/-- A request other than a load is carried out by moves. -/
theorem moves_perform {m : Machine} {r : Request} {t : Traced (Reply × Machine)}
    (hr : ∀ program, r ≠ .load program) (h : m.perform r = .ok t) :
    Moves m t.turns t.value.2 := by
  cases performed h with
  | load _ => exact absurd rfl (hr _)
  | run hrun =>
    rw [turns_map, value_map]
    exact movesTo_run hrun
  | runAll =>
    rw [turns_map, value_map]
    exact movesTo_runAll m
  | step =>
    rw [turns_map, value_map]
    exact movesTo_step m
  | tick =>
    rw [turns_map, value_map]
    exact movesTo_tick m
  | kill hkill =>
    rw [turns_map, value_map]
    exact movesTo_kill hkill
  | _ => exact Moves.single (.aside ⟨rfl, rfl, rfl, rfl, rfl, rfl⟩)

end Machine

end Timeshare
