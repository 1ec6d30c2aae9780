import Timeshare.Proofs.Coherence
import Timeshare.Proofs.Devices
import Timeshare.Proofs.Isolation
import Timeshare.Proofs.Stepping

/-!
# Timers

Outside of single-step mode every tick ends with a cycle, and a switch that is due comes before it.
A timer interrupt makes the switch earlier and nothing else. In between the machine with the timer
is ahead of the one without it by a switch that is due there, and no other interrupt can tell,
because the end of a process commutes with the switch: if the process that is due to leave the
processor ends, it ends there or at the end of the queue, and if all others end, it is back on the
processor.

Only the snapshot of the current process may differ afterwards. No cycle and no switch reads it: it
is overwritten when the process leaves the processor.
-/
namespace Timeshare

namespace Machine

open Traced

/-- The machines differ at most in the snapshot of the current process. -/
def Level (m m' : Machine) : Prop :=
  ∃ registers, m' = { m with current := m.current.map (·.save registers) }

/-- A machine of a run outside of single-step mode. -/
structure Cruising (s : Settings) (loads : Nat) (m : Machine) : Prop where
  owned : m.Owned s loads
  coherent : m.Coherent
  alive : m.currentTerminated = false
  singleStep_eq : m.singleStep = false

/-- Apart from the snapshot, `m'` is at most ahead of `m` by a switch that is due. -/
inductive Ahead (m : Machine) : Machine → Prop
  | level {m' : Machine} (h : m.Level m') : Ahead m m'
  | switched {m' : Machine} {p : Process} (hc : m.current = some p) (hw : m.wantsSwitch = true)
      (h : m.switch.value.Level m') : Ahead m m'

/-- The machine after a timer interrupt. -/
def timed (m : Machine) : Machine :=
  if m.current.isSome && m.wantsSwitch then m.switch.value else m

/-- The machine after its drivers have looked at an interrupt. -/
def attended (m : Machine) (i : Interrupt) : Machine :=
  { m with
    keyboard := (m.keyboard.service i).value
    storage := (m.storage.service i).value }

section

variable {s : Settings} {loads : Nat} {m m' m'' : Machine} {pid : Pid}

/-! ## What a service leaves -/

theorem attended_eq_self {i : Interrupt} (hkeyboard : ∀ key, i ≠ .keyboard key)
    (hdisk : ∀ request, i ≠ .disk request) : m.attended i = m := by
  rw [attended, Keyboard.value_service_of_ne _ hkeyboard, Storage.value_service_of_ne _ hdisk]

/-- Outside of single-step mode an interrupt asks for a switch, ends the process that it names, or
concerns the drivers. -/
theorem value_service (hs : m.singleStep = false) (i : Interrupt) :
    (m.service i).value = match i, i.victim? with
      | .timer, _ => m.timed
      | _, some pid => m.without pid
      | i, none => m.attended i := by
  unfold service
  rw [value_bind]
  cases i with
  | timer =>
    simp only [timed]
    split <;> rfl
  | keyboard key =>
    simp only [Interrupt.victim?]
    rw [attended, Storage.value_service_of_ne _ (by intro _ h; cases h)]
    rfl
  | sysCall pid accumulator x y =>
    exact (attended_eq_self (by intro _ h; cases h) (by intro _ h; cases h)).symm
  | step =>
    simp only [hs]
    exact (attended_eq_self (by intro _ h; cases h) (by intro _ h; cases h)).symm
  | unknownOpcode pid opcode counter => exact m.value_terminateRaiser pid _
  | memoryFault pid address => exact m.value_terminateRaiser pid _
  | cpuBreak pid => exact m.value_terminateRaiser pid _
  | disk request =>
    simp only [Interrupt.victim?]
    rw [attended, Keyboard.value_service_of_ne _ (by intro _ h; cases h)]
    rfl
  | kill pid =>
    simp only [kill, Interrupt.victim?, without]
    cases m.terminate pid <;> rfl

/-! ## Snapshots -/

theorem Level.refl (m : Machine) : m.Level m := by
  cases hc : m.current with
  | none => exact ⟨{}, by rw [hc, Option.map_none, ← hc]⟩
  | some p =>
    have hsame : m.current.map (·.save p.registers) = m.current := by
      rw [hc]
      rfl
    exact ⟨p.registers, by rw [hsame]⟩

theorem Level.trans (h : m.Level m') (h' : m'.Level m'') : m.Level m'' := by
  obtain ⟨r, rfl⟩ := h
  obtain ⟨r', rfl⟩ := h'
  refine ⟨r', ?_⟩
  rw [Option.map_map]
  rfl

theorem Level.of_eq (h : m' = m) : m.Level m' := h ▸ .refl m

theorem Level.current_eq (h : m.Level m') {p : Process} (hc : m.current = some p) :
    ∃ r, m'.current = some (p.save r) := by
  obtain ⟨r, rfl⟩ := h
  exact ⟨r, by rw [hc]; rfl⟩

theorem Level.currentTerminated_eq (h : m.Level m') :
    m'.currentTerminated = m.currentTerminated := by
  obtain ⟨r, rfl⟩ := h
  rw [Kernel.currentTerminated, Kernel.currentTerminated]
  cases m.current <;> rfl

theorem Level.isSome_current_eq (h : m.Level m') : m'.current.isSome = m.current.isSome := by
  obtain ⟨r, rfl⟩ := h
  exact Option.isSome_map

theorem Level.wantsSwitch_eq (h : m.Level m') : m'.wantsSwitch = m.wantsSwitch := by
  have halive := h.currentTerminated_eq
  obtain ⟨r, rfl⟩ := h
  rw [wantsSwitch, wantsSwitch, halive]

/-- The switch takes a new snapshot of a process that goes on. -/
theorem Level.switch (h : m.Level m') {p : Process} (hc : m.current = some p)
    (ht : p.isTerminated = false) : m.switch.value.Level m'.switch.value := by
  obtain ⟨r, rfl⟩ := h
  let stale : Machine := { m with current := m.current.map (·.save r) }
  have hct : m.currentTerminated = false := (currentTerminated_of_current hc).trans ht
  have hc' : stale.current = some (p.save r) := congrArg (Option.map (·.save r)) hc
  have ht' : (p.save r).isTerminated = false := ht
  cases hr : m.ready.toList with
  | nil =>
    rw [switch_alone hct hr, switch_alone ((currentTerminated_of_current hc').trans ht') hr]
    exact ⟨r, rfl⟩
  | cons next rest =>
    rw [switch_rotate hc ht hr, switch_rotate hc' ht' hr]
    exact .of_eq rfl

theorem Level.without (h : m.Level m') (pid : Pid) : (m.without pid).Level (m'.without pid) := by
  obtain ⟨r, rfl⟩ := h
  let stale : Machine := { m with current := m.current.map (·.save r) }
  have hother : (∀ x ∈ m.current, x.pid ≠ pid) → ∀ x ∈ stale.current, x.pid ≠ pid := by
    intro hc x hx
    obtain ⟨p, hp, rfl⟩ := Option.map_eq_some_iff.1 hx
    exact hc p hp
  cases m.seat pid with
  | front hc hpid =>
    rename_i p
    subst hpid
    have hc' : stale.current = some (p.save r) := congrArg (Option.map (·.save r)) hc
    rw [without_front hc]
    have hqueue : stale.ready = m.ready := rfl
    refine .of_eq ((without_front hc').trans ?_)
    rw [hqueue]
    cases m.ready.toList <;> rfl
  | queue hc hr hpid hbefore =>
    subst hpid
    rw [without_queue hc hr hbefore]
    exact ⟨r, without_queue (hother hc) hr hbefore⟩
  | nowhere hc hr =>
    rw [without_nowhere hc hr]
    exact ⟨r, without_nowhere (hother hc) hr⟩

theorem Level.attended (h : m.Level m') (i : Interrupt) :
    (m.attended i).Level (m'.attended i) := by
  obtain ⟨r, rfl⟩ := h
  exact ⟨r, rfl⟩

/-- A cycle does not read the snapshot. -/
theorem cycle_save (c : Processor) (p : Process) (r : Registers) (memory : Memory) :
    ∃ r', (c.cycle (p.save r) memory).value = { (c.cycle p memory).value with
      process := (c.cycle p memory).value.process.save r' } := by
  unfold Processor.cycle
  simp only
  cases hbyte : memory.load? p.partition c.registers.counter with
  | none =>
    refine ⟨r, ?_⟩
    have hbyte' : memory.load? (p.save r).partition c.registers.counter = none := hbyte
    rw [hbyte']
    rfl
  | some byte =>
    have hbyte' : memory.load? (p.save r).partition c.registers.counter = some byte := hbyte
    rw [hbyte']
    simp only
    cases hcode : Opcode.decode? byte with
    | none => exact ⟨r, rfl⟩
    | some opcode =>
      refine ⟨if opcode = .breakpoint then c.registers else r, ?_⟩
      have heffect : Effect.ofOpcode (p.save r) memory c.registers opcode =
          Effect.ofOpcode p memory c.registers opcode := by
        cases opcode <;> rfl
      simp only [value_bind, value_pure, heffect]
      by_cases hb : opcode = .breakpoint
      · simp [hb, Processor.finish, Process.save]
      · simp [hb, Processor.finish, Process.save]

theorem Level.turnNow (h : m.Level m') : m.turnNow.value.Level m'.turnNow.value := by
  cases hc : m.current with
  | none =>
    have hc' : m'.current = none := by
      obtain ⟨r, rfl⟩ := h
      rw [hc]
      rfl
    rw [Machine.turnNow, hc, Machine.turnNow, hc']
    exact h
  | some p =>
    obtain ⟨r, rfl⟩ := h
    have hc' : ({ m with current := m.current.map (·.save r) } : Machine).current =
        some (p.save r) := congrArg (Option.map (·.save r)) hc
    obtain ⟨r', hcycle⟩ := cycle_save m.processor p r m.memory
    rw [value_turnNow hc, value_turnNow hc']
    refine ⟨r', ?_⟩
    show Machine.turned _ (m.processor.cycle (p.save r) m.memory).value = _
    rw [hcycle]
    rfl

/-! ## The switch that is due -/

variable {p : Process}

/-- The process that leaves the processor may as well end at the end of the queue. -/
theorem without_switch_self (hpids : m.pids.Nodup) (hc : m.current = some p)
    (ht : p.isTerminated = false) : m.switch.value.without p.pid = m.without p.pid := by
  have hct : m.currentTerminated = false := (currentTerminated_of_current hc).trans ht
  rw [without_front hc]
  cases hr : m.ready.toList with
  | nil =>
    rw [switch_alone hct hr]
    have halone : m.resetCycles.ready.toList = [] := hr
    refine (without_front (m := m.resetCycles) hc).trans ?_
    rw [halone]
    rfl
  | cons next rest =>
    let back : Process := { p.save m.processor.registers with status := .waiting }
    have hqueue : (m.handTo next (rest ++ [back])).ready.toList = rest ++ back :: [] := rfl
    rw [pids_of_current hc, hr, List.nodup_cons] at hpids
    have hothers : ∀ x ∈ next :: rest, x.pid ≠ p.pid := fun x hx he =>
      hpids.1 (he ▸ List.mem_map_of_mem hx)
    have hfront : ∀ x ∈ (m.handTo next (rest ++ [back])).current, x.pid ≠ back.pid := by
      intro x hx
      obtain rfl := Option.some.inj hx
      exact hothers next List.mem_cons_self
    rw [switch_rotate hc ht hr]
    refine (without_queue hfront hqueue fun x hx => hothers x (List.mem_cons_of_mem _ hx)).trans ?_
    rw [List.append_nil]
    rfl

/-- A process that is put back on the processor at once has a new snapshot and a fresh count of
cycles. -/
theorem Coherent.handTo_back (hm : m.Coherent) (hc : m.current = some p) (ready : List Process) :
    m.handTo { p.save m.processor.registers with status := .waiting } ready =
      { m with
        ready := ⟨ready⟩
        current := some (p.save m.processor.registers)
        scheduler := m.scheduler.reset } := by
  have hexecuting : (!m.singleStep) = m.processor.executing := by
    rw [hm.inGear, hc, Option.isSome_some, Bool.and_true]
  have hmode : Mode.user = m.mode := by
    rw [hm.mode_eq, hc]
    rfl
  have hstatus : Status.running = p.status := (hm.running p hc).symm
  simp only [handTo, Kernel.dispatch, Processor.bind, resetCycles, hexecuting]
  rw [hmode, hstatus]
  rfl

/-- The end of another process commutes with the switch. If it was the last one that waited, the
first one is back on the processor, with a new snapshot. -/
theorem level_switch_without (hm : m.Coherent) (hc : m.current = some p)
    (ht : p.isTerminated = false) (hne : p.pid ≠ pid) :
    (m.without pid).switch.value.Level (m.switch.value.without pid) := by
  have hct : m.currentTerminated = false := (currentTerminated_of_current hc).trans ht
  let back : Process := { p.save m.processor.registers with status := .waiting }
  cases m.seat pid with
  | front hp hpid =>
    rw [hc] at hp
    obtain rfl := Option.some.inj hp
    exact absurd hpid hne
  | queue hx hr hpid hbefore =>
    rename_i q before after
    subst hpid
    rw [without_queue hx hr hbefore]
    let left : Machine := { m.freed q with ready := ⟨before ++ after⟩ }
    cases before with
    | nil =>
      -- `q` was the next one, so after the switch it ends on the processor
      have hend := without_front (m := m.handTo q (after ++ [back])) rfl
      rw [switch_rotate hc ht hr]
      cases after with
      | nil =>
        have hfreed : (m.freed q).Coherent :=
          ⟨hm.inGear, hm.mode_eq, hm.running, hm.queued, hm.cycles_eq, hm.quantum_pos⟩
        have hback := hfreed.handTo_back hc []
        have halone : left.switch.value = left.resetCycles :=
          switch_alone (m := left) hct rfl
        rw [halone]
        have hsnapshot : left.resetCycles.current.map (·.save m.processor.registers) =
            some (p.save m.processor.registers) := congrArg (Option.map _) hc
        refine ⟨m.processor.registers, hend.trans (hback.trans ?_)⟩
        rw [hsnapshot]
        rfl
      | cons next rest =>
        have hrotate := switch_rotate (m := left) hc ht rfl
        rw [hrotate]
        exact .of_eq hend
    | cons next rest =>
      have hrotate := switch_rotate (m := left) hc ht rfl
      have hqueue : (m.handTo next ((rest ++ q :: after) ++ [back])).ready.toList =
          rest ++ q :: (after ++ [back]) := List.append_assoc _ _ _
      have hfront : ∀ x ∈ (m.handTo next ((rest ++ q :: after) ++ [back])).current,
          x.pid ≠ q.pid := by
        intro x hx
        obtain rfl := Option.some.inj hx
        exact hbefore next List.mem_cons_self
      have hend := without_queue hfront hqueue fun x hx => hbefore x (List.mem_cons_of_mem _ hx)
      rw [switch_rotate hc ht hr, hrotate]
      refine .of_eq (hend.trans ?_)
      rw [← List.append_assoc]
      rfl
  | nowhere hx hr =>
    rw [without_nowhere hx hr]
    refine .of_eq ?_
    cases hlist : m.ready.toList with
    | nil =>
      rw [switch_alone hct hlist]
      exact without_nowhere (m := m.resetCycles) hx hr
    | cons next rest =>
      rw [hlist] at hr
      rw [switch_rotate hc ht hlist]
      refine without_nowhere (fun x hx => ?_) fun x hx => ?_
      · obtain rfl := Option.some.inj hx
        exact hr next List.mem_cons_self
      · rcases List.mem_append.1 hx with hx | hx
        · exact hr x (List.mem_cons_of_mem _ hx)
        · rw [List.mem_singleton.1 hx]
          exact hne

/-! ## The invariant -/

theorem Cruising.next {ts : List Turn} (hm : m.Cruising s loads) (hmoves : Moves m ts m')
    (hsteady : m.Steady ts m') (hcoherent : m'.Coherent) : m'.Cruising s loads where
  owned := hm.owned.moves hmoves
  coherent := hcoherent
  alive := alive_of_moves hmoves hm.alive
  singleStep_eq := hsteady.singleStep_eq.trans hm.singleStep_eq

theorem Cruising.service (hm : m.Cruising s loads) (i : Interrupt) :
    (m.service i).value.Cruising s loads := by
  have hbeat : Beat (fun _ _ => True) m (m.service i).turns (m.service i).value := beat_service m i
  exact hm.next (movesTo_service m i) (steady_service m i) (hbeat.coherent hm.coherent)

theorem Cruising.serviceAll (hm : m.Cruising s loads) (batch : List Interrupt) :
    (m.serviceAll batch).value.Cruising s loads := by
  induction batch generalizing m with
  | nil => exact hm
  | cons i batch ih =>
    rw [serviceAll_cons]
    exact ih (hm.service i)

theorem Cruising.isTerminated_eq (hm : m.Cruising s loads) (hc : m.current = some p) :
    p.isTerminated = false := (currentTerminated_of_current hc).symm.trans hm.alive

theorem Cruising.switch (hm : m.Cruising s loads) (hc : m.current = some p)
    (hw : m.wantsSwitch = true) :
    m.switch.value.Cruising s loads ∧ m.switch.value.wantsSwitch = false := by
  obtain ⟨hact, hfresh⟩ := act_switch (A := fun _ _ => True) hc hw
  have hnext := hm.next (movesTo_switchAndShow hc) (steady_switchAndShow hc)
    (hact.coherent hm.coherent)
  rw [value_switchAndShow] at hnext
  refine ⟨hnext, ?_⟩
  rw [wantsSwitch, Scheduler.wantsSwitch, hfresh, hnext.alive]
  cases m.switch.value.scheduler.policy with
  | firstCome => rfl
  | roundRobin => exact decide_eq_false (Nat.not_le_of_lt hnext.coherent.quantum_pos)

/-! ## Being ahead -/

theorem ahead_timed (m : Machine) : Ahead m m.timed := by
  unfold timed
  split
  · rename_i hdue
    rw [Bool.and_eq_true, Option.isSome_iff_exists] at hdue
    obtain ⟨⟨p, hc⟩, hw⟩ := hdue
    exact .switched hc hw (.refl _)
  · exact .level (.refl m)

theorem Ahead.timed (hm : m.Cruising s loads) (h : Ahead m m') : Ahead m.timed m'.timed := by
  cases h with
  | level h =>
    unfold Machine.timed
    rw [h.isSome_current_eq, h.wantsSwitch_eq]
    split
    · rename_i hdue
      rw [Bool.and_eq_true, Option.isSome_iff_exists] at hdue
      obtain ⟨⟨p, hc⟩, -⟩ := hdue
      exact .level (h.switch hc (hm.isTerminated_eq hc))
    · exact .level h
  | switched hc hw h =>
    have hlate : m.timed = m.switch.value := by
      rw [Machine.timed, hc, hw]
      rfl
    have hdone : m'.timed = m' := by
      rw [Machine.timed, h.wantsSwitch_eq, (hm.switch hc hw).2, Bool.and_false]
      rfl
    rw [hlate, hdone]
    exact .level h

/-- The end of one process leaves another one on the processor. -/
theorem without_of_ne (hc : m.current = some p) (hne : p.pid ≠ pid) :
    (m.without pid).current = some p ∧ (m.without pid).wantsSwitch = m.wantsSwitch := by
  cases m.seat pid with
  | front hp hpid =>
    rw [hc] at hp
    obtain rfl := Option.some.inj hp
    exact absurd hpid hne
  | queue hx hr hpid hbefore =>
    subst hpid
    rw [without_queue hx hr hbefore]
    exact ⟨hc, rfl⟩
  | nowhere hx hr =>
    rw [without_nowhere hx hr]
    exact ⟨hc, rfl⟩

theorem Ahead.without (hm : m.Cruising s loads) (h : Ahead m m') (pid : Pid) :
    Ahead (m.without pid) (m'.without pid) := by
  cases h with
  | level h => exact .level (h.without pid)
  | switched hc hw h =>
    rename_i p
    have ht := hm.isTerminated_eq hc
    have hended := h.without pid
    by_cases hpid : p.pid = pid
    · subst hpid
      rw [without_switch_self hm.owned.nodup_pids hc ht] at hended
      exact .level hended
    · obtain ⟨hcurrent, hsame⟩ := without_of_ne hc hpid
      exact .switched hcurrent (hsame.trans hw)
        ((level_switch_without hm.coherent hc ht hpid).trans hended)

theorem Ahead.attended (hm : m.Cruising s loads) (h : Ahead m m') (i : Interrupt) :
    Ahead (m.attended i) (m'.attended i) := by
  cases h with
  | level h => exact .level (h.attended i)
  | switched hc hw h =>
    have ht := hm.isTerminated_eq hc
    have hct := (currentTerminated_of_current hc).trans ht
    have hswitch : (m.attended i).switch.value = m.switch.value.attended i := by
      cases hr : m.ready.toList with
      | nil => rw [switch_alone hct hr, switch_alone (m := m.attended i) hct hr]; rfl
      | cons next rest =>
        rw [switch_rotate hc ht hr, switch_rotate (m := m.attended i) hc ht hr]
        rfl
    refine .switched (m := m.attended i) hc hw ?_
    rw [hswitch]
    exact h.attended i

/-- Whoever is ahead is level with a machine of the run that has the same residents. -/
theorem Ahead.exists_level (hm : m.Cruising s loads) (h : Ahead m m') :
    ∃ m₁ : Machine, m₁.Level m' ∧ m₁.Cruising s loads ∧ m₁.memory = m.memory ∧
      m₁.residents.Perm m.residents := by
  cases h with
  | level h => exact ⟨m, h, hm, rfl, .refl _⟩
  | switched hc hw h =>
    have ht := hm.isTerminated_eq hc
    refine ⟨m.switch.value, h, (hm.switch hc hw).1, ?_⟩
    cases hr : m.ready.toList with
    | nil =>
      rw [switch_alone ((currentTerminated_of_current hc).trans ht) hr]
      exact ⟨rfl, .refl _⟩
    | cons next rest =>
      rw [switch_rotate hc ht hr]
      exact ⟨rfl, residents_rotate hc hr⟩

/-! ## What is printed -/

theorem Level.partitionOf?_eq (h : m.Level m') (pid : Pid) :
    m'.partitionOf? pid = m.partitionOf? pid := by
  obtain ⟨r, rfl⟩ := h
  cases hc : m.current with
  | none =>
    rw [Kernel.partitionOf?, Kernel.partitionOf?, Kernel.processes, Kernel.processes, hc]
    rfl
  | some p =>
    rw [Kernel.partitionOf?, Kernel.partitionOf?, Kernel.processes, Kernel.processes, hc]
    by_cases hpid : p.pid = pid
    · simp [Process.save, hpid]
    · simp [Process.save, hpid]

theorem Owned.partitionOf?_of_perm {loads' : Nat} (hm : m.Owned s loads) (hm' : m'.Owned s loads')
    (h : m'.residents.Perm m.residents) (pid : Pid) : m'.partitionOf? pid = m.partitionOf? pid := by
  by_cases hpid : pid ∈ m.pids
  · obtain ⟨r, hr, rfl⟩ := exists_resident_of_mem_pids hpid
    rw [hm.partitionOf?_eq hr, hm'.partitionOf?_eq (h.symm.subset hr)]
  · have hpid' : pid ∉ m'.pids := fun hin => hpid <| by
      obtain ⟨r, hr, rfl⟩ := exists_resident_of_mem_pids hin
      exact mem_pids_of_mem_residents (h.subset hr)
    rw [partitionOf?_of_notMem hpid, partitionOf?_of_notMem hpid']

theorem saidFor_congr (hmemory : m'.memory = m.memory)
    (hpartition : ∀ pid, m'.partitionOf? pid = m.partitionOf? pid) (i : Interrupt) :
    m'.saidFor i = m.saidFor i := by
  cases i with
  | sysCall pid accumulator x y =>
    simp only [saidFor, systemCall, callText?, hmemory, hpartition]
  | _ => rfl

theorem Ahead.saidFor_eq (hm : m.Cruising s loads) (h : Ahead m m') (i : Interrupt) :
    m'.saidFor i = m.saidFor i := by
  obtain ⟨m₁, hlevel, hm₁, hmemory, hresidents⟩ := h.exists_level hm
  refine saidFor_congr ?_ (fun pid => ?_) i
  · obtain ⟨r, rfl⟩ := hlevel
    exact hmemory
  · rw [hlevel.partitionOf?_eq, hm.owned.partitionOf?_of_perm hm₁.owned hresidents]

/-! ## Ticks -/

theorem Ahead.service (hm : m.Cruising s loads) (h : Ahead m m') (i : Interrupt) :
    Ahead (m.service i).value (m'.service i).value := by
  have hmode : m'.singleStep = false := by
    obtain ⟨m₁, ⟨r, rfl⟩, hm₁, -⟩ := h.exists_level hm
    exact hm₁.singleStep_eq
  rw [value_service hm.singleStep_eq, value_service hmode]
  cases i with
  | timer => exact h.timed hm
  | unknownOpcode pid opcode counter => exact h.without hm pid
  | memoryFault pid address => exact h.without hm pid
  | cpuBreak pid => exact h.without hm pid
  | kill pid => exact h.without hm pid
  | _ => exact h.attended hm _

theorem Ahead.serviceAll (hm : m.Cruising s loads) (h : Ahead m m') (batch : List Interrupt) :
    Ahead (m.serviceAll batch).value (m'.serviceAll batch).value ∧
      m'.saidIn batch = m.saidIn batch := by
  induction batch generalizing m m' with
  | nil => exact ⟨h, rfl⟩
  | cons i batch ih =>
    obtain ⟨hrest, hsaid⟩ := ih (hm.service i) (h.service hm i)
    rw [serviceAll_cons, serviceAll_cons, saidIn, saidIn, h.saidFor_eq hm, hsaid]
    exact ⟨hrest, rfl⟩

theorem value_cycle_of_wantsSwitch_eq_false (hw : m.wantsSwitch = false) :
    m.cycle.value = m.turnNow.value := by
  cases hc : m.current with
  | none => rw [cycle, turnNow, hc]
  | some p =>
    rw [cycle_eq hc, hw]
    rfl

/-- The switch that is due comes before the cycle. -/
theorem value_cycle_of_wantsSwitch (hc : m.current = some p) (hw : m.wantsSwitch = true) :
    m.cycle.value = m.switch.value.turnNow.value := by
  rw [cycle_eq hc, hw]
  rfl

theorem Ahead.cycle (hm : m.Cruising s loads) (h : Ahead m m') :
    m.cycle.value.Level m'.cycle.value := by
  cases h with
  | level h =>
    cases hw : m.wantsSwitch with
    | false =>
      rw [value_cycle_of_wantsSwitch_eq_false hw,
        value_cycle_of_wantsSwitch_eq_false (h.wantsSwitch_eq.trans hw)]
      exact h.turnNow
    | true =>
      cases hc : m.current with
      | none =>
        have hc' : m'.current = none := by
          obtain ⟨r, rfl⟩ := h
          rw [hc]
          rfl
        rw [Machine.cycle, Machine.cycle, hc, hc']
        exact h
      | some p =>
        obtain ⟨r, hc'⟩ := h.current_eq hc
        rw [value_cycle_of_wantsSwitch hc hw,
          value_cycle_of_wantsSwitch hc' (h.wantsSwitch_eq.trans hw)]
        exact (h.switch hc (hm.isTerminated_eq hc)).turnNow
  | switched hc hw h =>
    rw [value_cycle_of_wantsSwitch hc hw,
      value_cycle_of_wantsSwitch_eq_false (h.wantsSwitch_eq.trans (hm.switch hc hw).2)]
    exact h.turnNow

/-- Outside of single-step mode every tick ends with a cycle. -/
theorem Cruising.value_tick (hm : m.awake.Cruising s loads) :
    m.tick.value = (m.awake.serviceAll m.interrupts.pending.toList).value.cycle.value := by
  have hlast := hm.serviceAll m.interrupts.pending.toList
  rw [tick_eq]
  simp only [value_bind]
  rw [hlast.coherent.inGear.cycle_eq hlast.singleStep_eq]

theorem saidIn_append (m : Machine) (batch batch' : List Interrupt) :
    m.saidIn (batch ++ batch') = m.saidIn batch ++ (m.serviceAll batch).value.saidIn batch' := by
  induction batch generalizing m with
  | nil => rfl
  | cons i batch ih =>
    rw [List.cons_append, saidIn, saidIn, ih, serviceAll_cons, List.append_assoc]
    rfl

end

/-- **Timer interrupts are redundant.** Outside of single-step mode, a timer anywhere among the
pending interrupts changes nothing in the machine after the next tick but the snapshot of the
process that is current then, and nothing in what is printed. -/
theorem timer_redundant {s : Settings} {booted : Traced Machine} (hboot : boot s = .ok booted)
    (ops : List Operation) (hloads : booted.value.loadsIn ops < UInt32.size)
    (hmode : (booted.value.afterAll ops).value.singleStep = false)
    (before after : List Interrupt) :
    let pending (batch : List Interrupt) : Machine :=
      { (booted.value.afterAll ops).value with interrupts := ⟨batch.toArray⟩ }
    let plain := (pending (before ++ after)).tick
    let timed := (pending (before ++ .timer :: after)).tick
    (∃ r, timed.value =
      { plain.value with current := plain.value.current.map (·.save r) }) ∧
      timed.texts = plain.texts := by
  intro pending plain timed
  have hbooted := boot_eq_ok hboot
  let m : Machine := (booted.value.afterAll ops).value.awake
  have hm : m.Cruising s (booted.value.loadsIn ops) := by
    have howned := hbooted.owned_afterAll ops hloads
    have hawake : Act (fun _ _ => True) (booted.value.afterAll ops).value [] m := .aside rfl
    exact ⟨howned.move (.aside (beside_awake _)), hawake.coherent (hbooted.coherent_afterAll ops),
      hbooted.alive_afterAll ops, hmode⟩
  have hvalue (batch : List Interrupt) :
      (pending batch).tick.value = (m.serviceAll batch).value.cycle.value :=
    Cruising.value_tick (m := pending batch) hm
  let m₁ : Machine := (m.serviceAll before).value
  have hm₁ : m₁.Cruising s (booted.value.loadsIn ops) := hm.serviceAll before
  have htimer : (m₁.service .timer).value = m₁.timed := value_service hm₁.singleStep_eq .timer
  obtain ⟨hahead, hsaid⟩ := (ahead_timed m₁).serviceAll hm₁ after
  refine ⟨?_, ?_⟩
  · have hplain : plain.value = (m₁.serviceAll after).value.cycle.value := by
      refine (hvalue (before ++ after)).trans ?_
      rw [serviceAll_append]
      rfl
    have htimed : timed.value = (m₁.timed.serviceAll after).value.cycle.value := by
      refine (hvalue (before ++ .timer :: after)).trans ?_
      rw [serviceAll_append, ← htimer]
      simp only [serviceAll_cons]
      rfl
    rw [hplain, htimed]
    exact hahead.cycle (hm₁.serviceAll after)
  · have hplain : (pending (before ++ after)).saidInTick = m.saidIn before ++ m₁.saidIn after :=
      m.saidIn_append before after
    have htimed : (pending (before ++ .timer :: after)).saidInTick =
        m.saidIn before ++ m₁.timed.saidIn after := by
      refine (m.saidIn_append before (.timer :: after)).trans ?_
      rw [← htimer]
      rfl
    rw [texts_tick, texts_tick, hplain, htimed, hsaid]

/-- A switch is due, and the process to switch to is killed. With a timer in front of the kill the
first process comes back with a new snapshot. -/
theorem timer_redundant_small :
    let m := (small.value.afterAll sharing).value
    let plain := ({ m with interrupts := ⟨[.kill 1].toArray⟩ } : Machine).tick
    let timed := ({ m with interrupts := ⟨[.timer, .kill 1].toArray⟩ } : Machine).tick
    small.value.loadsIn sharing < UInt32.size ∧ m.singleStep = false ∧
      plain.value.current.map (·.registers.counter) = some 0 ∧
      timed.value.current.map (·.registers.counter) = some 1 ∧
      (∃ r, timed.value =
        { plain.value with current := plain.value.current.map (·.save r) }) ∧
      timed.texts = plain.texts := by
  intro m plain timed
  have hloads : small.value.loadsIn sharing < UInt32.size := by decide +kernel
  have hmode : m.singleStep = false := by decide +kernel
  have hplain : plain.value.current.map (·.registers.counter) = some 0 := by decide +kernel
  have htimed : timed.value.current.map (·.registers.counter) = some 1 := by decide +kernel
  exact ⟨hloads, hmode, hplain, htimed,
    timer_redundant boot_small sharing hloads hmode [] [.kill 1]⟩

end Machine

end Timeshare
