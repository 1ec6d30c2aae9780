import Mathlib.Data.List.Rotate
import Timeshare.Proofs.Ownership
import Timeshare.Proofs.Raises

/-!
# Departures

Who leaves in a tick is settled before the tick: the pending interrupts name them. Everything else
that a tick does to the processes is to pass the processor on, which turns the list of processes
around. Interrupts that the cycles of a tick raise are pending when the tick is over.
-/
namespace Timeshare

/-- The process that an interrupt ends. -/
def Interrupt.victim? : Interrupt → Option Pid
  | .unknownOpcode pid _ _ => some pid
  | .memoryFault pid _ => some pid
  | .cpuBreak pid => some pid
  | .kill pid => some pid
  | _ => none

/-- A rotation stays one when both sides are filtered. -/
theorem isRotated_filter {α : Type} {l l' : List α} (h : l.IsRotated l') (p : α → Bool) :
    (l.filter p).IsRotated (l'.filter p) := by
  obtain ⟨n, rfl⟩ := h
  have hl : l.filter p = (l.take (n % l.length)).filter p ++ (l.drop (n % l.length)).filter p := by
    rw [← List.filter_append, List.take_append_drop]
  rw [List.rotate_eq_drop_append_take_mod, List.filter_append, hl]
  exact List.isRotated_append

/-- Taking out a key that occurs once takes out one element. -/
theorem filter_ne_of_nodup {α : Type} (key : α → Pid) {before after : List α} {a : α}
    (h : ((before ++ a :: after).map key).Nodup) :
    (before ++ a :: after).filter (key · ≠ key a) = before ++ after := by
  rw [List.map_append, List.map_cons, List.nodup_append, List.nodup_cons] at h
  obtain ⟨-, ⟨hafter, -⟩, hbefore⟩ := h
  have hb : before.filter (key · ≠ key a) = before := by
    rw [List.filter_eq_self]
    intro x hx
    simpa using hbefore _ (List.mem_map_of_mem hx) _ List.mem_cons_self
  have ha : after.filter (key · ≠ key a) = after := by
    rw [List.filter_eq_self]
    intro x hx
    simpa using fun he : key x = key a => hafter (he ▸ List.mem_map_of_mem hx)
  rw [List.filter_append, List.filter_cons_of_neg (by simp), hb, ha]

/-- Taking out an id that occurs once. -/
theorem filter_notMem_singleton {before after : List Pid} {pid : Pid}
    (h : (before ++ pid :: after).Nodup) :
    (before ++ pid :: after).filter (· ∉ [pid]) = before ++ after := by
  have hne := filter_ne_of_nodup id (by simpa using h)
  simpa only [List.mem_singleton, id] using hne

namespace Machine

/-- The ids of the resident processes in order. -/
def pids (m : Machine) : List Pid := m.processes.map Process.pid

theorem pids_eq (m : Machine) :
    m.pids = m.currentPid?.toList ++ m.ready.toList.map Process.pid := by
  rw [pids, Kernel.processes, List.map_append, Kernel.currentPid?]
  cases m.current <;> rfl

theorem pids_of_current {m : Machine} {p : Process} (hc : m.current = some p) :
    m.pids = p.pid :: m.ready.toList.map Process.pid := by
  rw [pids_eq, Kernel.currentPid?, hc]
  rfl

theorem pids_of_idle {m : Machine} (hc : m.current = none) :
    m.pids = m.ready.toList.map Process.pid := by
  rw [pids_eq, Kernel.currentPid?, hc]
  rfl

theorem mem_pids_of_currentPid? {m : Machine} {pid : Pid} (h : m.currentPid? = some pid) :
    pid ∈ m.pids := by
  rw [pids_eq, h]
  exact List.mem_cons_self

/-- From `m` the computation goes on with the same processes less those in `gone`, in the same order
but perhaps from another one on. It services no interrupt that its cycles raise. -/
structure Departs (m : Machine) (gone : List Pid) (t : Traced Machine) : Prop where
  rotated : t.value.pids.IsRotated (m.pids.filter (· ∉ gone))
  pending_eq : t.value.interrupts.pending.toList =
    m.interrupts.pending.toList ++ t.turns.filterMap Turn.raised

section

variable {m : Machine} {gone : List Pid} {t : Traced Machine}

/-- Nobody leaves, and no cycle is run. -/
theorem Departs.nobody (hpids : t.value.pids.IsRotated m.pids)
    (hpending : t.value.interrupts = m.interrupts) (hturns : t.turns = []) : m.Departs [] t where
  rotated := by simpa using hpids
  pending_eq := raises_nothing hpending hturns

theorem departs_pure (m : Machine) : m.Departs [] (pure m) := .nobody (.refl _) rfl rfl

theorem Departs.bind {f : Machine → Traced Machine} {gone' : List Pid} (h : m.Departs gone t)
    (h' : t.value.Departs gone' (f t.value)) : m.Departs (gone ++ gone') (t >>= f) where
  rotated := by
    have hfilter := isRotated_filter h.rotated (· ∉ gone')
    rw [List.filter_filter] at hfilter
    have hboth : (m.pids.filter fun pid => decide (pid ∉ gone') && decide (pid ∉ gone)) =
        m.pids.filter (· ∉ gone ++ gone') := by
      congr 1
      funext pid
      simp [Bool.and_comm]
    exact h'.rotated.trans (hboth ▸ hfilter)
  pending_eq := Raises.bind h.pending_eq h'.pending_eq

theorem Departs.behind {α : Type} {x : Traced α} {f : α → Traced Machine} (hx : x.turns = [])
    (h : m.Departs gone (f x.value)) : m.Departs gone (x >>= f) where
  rotated := h.rotated
  pending_eq := Raises.behind hx h.pending_eq

end

/-! ## The processor is passed on -/

section

variable {m : Machine} {p : Process}

/-- A switch sends a process that goes on to the end of the queue. -/
theorem departs_switchAndShow (hc : m.current = some p) (ht : p.isTerminated = false) :
    m.Departs [] m.switchAndShow := by
  have hct : m.currentTerminated = false := (currentTerminated_of_current hc).trans ht
  have hrotated : m.switchAndShow.value.pids.IsRotated m.pids := by
    rw [value_switchAndShow]
    cases hr : m.ready.toList with
    | nil =>
      rw [switch_alone hct hr]
      exact .refl _
    | cons next rest =>
      rw [switch_rotate hc ht hr, pids_eq, pids_eq, Kernel.currentPid?, Kernel.currentPid?, hc, hr]
      show (next.pid :: (rest ++ [_]).map Process.pid).IsRotated (p.pid :: next.pid :: _)
      rw [List.map_append, ← List.cons_append]
      exact List.isRotated_append
  exact ⟨by simpa using hrotated, raises_switchAndShow hc⟩

/-- A cycle leaves everybody where they are. -/
theorem pids_turned (hc : m.current = some p) :
    (m.turned (m.processor.cycle p m.memory).value).pids = m.pids := by
  rw [pids_of_current hc, pids_of_current rfl, pid_process_cycle]
  rfl

theorem departs_turnNow (m : Machine) : m.Departs [] m.turnNow := by
  cases hc : m.current with
  | none =>
    rw [turnNow, hc]
    exact departs_pure m
  | some p =>
    refine ⟨?_, raises_turnNow m⟩
    rw [value_turnNow hc, pids_turned hc]
    simpa using List.IsRotated.refl m.pids

theorem departs_cycle (halive : m.currentTerminated = false) : m.Departs [] m.cycle := by
  cases hc : m.current with
  | none =>
    rw [cycle, hc]
    exact departs_pure m
  | some p =>
    have ht : p.isTerminated = false := (currentTerminated_of_current hc).symm.trans halive
    rw [cycle_eq hc]
    split
    · exact (departs_switchAndShow hc ht).bind (departs_turnNow _)
    · exact (departs_pure m).bind (departs_turnNow m)

end

/-! ## A process leaves -/

/-- Where the process with an id is. -/
inductive Seat (m : Machine) (pid : Pid) : Prop
  | front {p : Process} (hc : m.current = some p) (hpid : p.pid = pid)
  | queue {p : Process} {before after : List Process} (hc : ∀ x ∈ m.current, x.pid ≠ pid)
      (hr : m.ready.toList = before ++ p :: after) (hpid : p.pid = pid)
      (hbefore : ∀ x ∈ before, x.pid ≠ pid)
  | nowhere (hc : ∀ x ∈ m.current, x.pid ≠ pid) (hr : ∀ x ∈ m.ready.toList, x.pid ≠ pid)

/-- The machine without the process, if it is resident. -/
def without (m : Machine) (pid : Pid) : Machine :=
  match m.terminate pid with
  | .ok ended => ended.value
  | .error _ => m

section

variable {m : Machine} {pid : Pid} {t : Traced Machine}

theorem seat (m : Machine) (pid : Pid) : m.Seat pid := by
  cases hend : m.terminate pid with
  | ok t =>
    rcases terminate_eq_ok hend with ⟨p, hc, hpid, -⟩ | ⟨p, before, after, hc, hr, hpid, hbefore, -⟩
    · exact .front hc hpid
    · exact .queue hc hr hpid hbefore
  | error reason =>
    obtain ⟨hc, hr⟩ := terminate_eq_error hend
    exact .nowhere hc hr

theorem without_front {p : Process} (hc : m.current = some p) :
    m.without p.pid = match m.ready.toList with
      | [] => (m.freed p).stopped
      | next :: rest => (m.freed p).handTo next rest := by
  rw [without, terminate_of_current hc]
  exact value_terminateCurrent m p

theorem without_queue {p : Process} {before after : List Process}
    (hc : ∀ x ∈ m.current, x.pid ≠ p.pid) (hr : m.ready.toList = before ++ p :: after)
    (hbefore : ∀ x ∈ before, x.pid ≠ p.pid) :
    m.without p.pid = { m.freed p with ready := ⟨before ++ after⟩ } := by
  have hfilter : m.current.filter (·.pid = p.pid) = none := by
    rw [Option.filter_eq_none_iff]
    exact fun x hx => by simpa using hc x hx
  simp only [without, terminate, hfilter, ReadyQueue.remove?_of_toList_eq hr hbefore]
  rfl

theorem without_nowhere (hc : ∀ x ∈ m.current, x.pid ≠ pid)
    (hr : ∀ x ∈ m.ready.toList, x.pid ≠ pid) : m.without pid = m := by
  unfold without
  cases hend : m.terminate pid with
  | error reason => rfl
  | ok t =>
    rcases terminate_eq_ok hend with ⟨p, hp, he, -⟩ | ⟨p, before, after, -, hlist, he, -⟩
    · exact absurd he (hc p hp)
    · exact absurd he (hr p (hlist ▸ List.mem_append_right _ List.mem_cons_self))

theorem value_terminateRaiser (m : Machine) (pid : Pid) (kind : String) :
    (m.terminateRaiser pid kind).value = m.without pid := by
  unfold terminateRaiser without
  cases m.terminate pid <;> rfl

theorem pids_terminateCurrent (m : Machine) (p : Process) :
    (m.terminateCurrent p).value.pids = m.ready.toList.map Process.pid := by
  rw [value_terminateCurrent]
  cases hr : m.ready.toList with
  | nil =>
    show m.ready.toList.map Process.pid = []
    rw [hr]
    rfl
  | cons next rest => rfl

/-- Whoever has the id leaves, and there is only one. -/
theorem departs_terminate (hpids : m.pids.Nodup) (h : m.terminate pid = .ok t) :
    m.Departs [pid] t := by
  refine ⟨?_, raises_terminate h⟩
  rcases terminate_eq_ok h with ⟨p, hc, rfl, rfl⟩ | ⟨p, before, after, -, hr, rfl, -, hvalue, -⟩
  · have hsplit : m.pids = [] ++ p.pid :: m.ready.toList.map Process.pid := pids_of_current hc
    rw [hsplit] at hpids ⊢
    rw [filter_notMem_singleton hpids, pids_terminateCurrent]
    exact .refl _
  · have hsplit : m.pids = (m.currentPid?.toList ++ before.map Process.pid) ++
        p.pid :: after.map Process.pid := by
      rw [pids_eq, hr, List.map_append, List.map_cons, List.append_assoc]
    have hleft : t.value.pids = (m.currentPid?.toList ++ before.map Process.pid) ++
        after.map Process.pid := by
      rw [hvalue, pids_eq, List.append_assoc, ← List.map_append]
      rfl
    rw [hsplit] at hpids ⊢
    rw [filter_notMem_singleton hpids, hleft]

/-- If nobody has the id, nobody leaves. -/
theorem departs_of_terminate_eq_error {reason : Error} (h : m.terminate pid = .error reason) :
    m.Departs [pid] (pure m) := by
  obtain ⟨hcurrent, hready⟩ := terminate_eq_error h
  have hnone : ∀ x ∈ m.pids, x ≠ pid := by
    intro x hx
    obtain ⟨p, hp, rfl⟩ := List.mem_map.1 hx
    rw [Kernel.processes, List.mem_append, Option.mem_toList] at hp
    rcases hp with hp | hp
    · exact hcurrent p hp
    · exact hready p hp
  have hself : m.pids.filter (· ∉ [pid]) = m.pids := by
    rw [List.filter_eq_self]
    intro x hx
    simpa using hnone x hx
  refine ⟨?_, (List.append_nil _).symm⟩
  rw [hself]
  exact .refl _

theorem departs_terminateRaiser (hpids : m.pids.Nodup) (pid : Pid) (kind : String) :
    m.Departs [pid] (m.terminateRaiser pid kind) := by
  unfold terminateRaiser
  split
  · rename_i hend
    exact departs_terminate hpids hend
  · rename_i hend
    exact .behind rfl (departs_of_terminate_eq_error hend)

theorem departs_kill (hpids : m.pids.Nodup) (h : m.kill pid = .ok t) : m.Departs [pid] t := by
  obtain ⟨ended, hend, rfl⟩ := kill_eq_ok h
  exact (departs_terminate hpids hend).bind (.behind rfl (departs_pure _))

/-- An interrupt ends the process that it names and nobody else. -/
theorem departs_service (hpids : m.pids.Nodup) (halive : m.currentTerminated = false)
    (i : Interrupt) : m.Departs i.victim?.toList (m.service i) := by
  unfold service
  refine .behind rfl ?_
  cases i with
  | timer =>
    cases hc : m.current with
    | none => exact departs_pure m
    | some p =>
      have ht : p.isTerminated = false := (currentTerminated_of_current hc).symm.trans halive
      simp only [Option.isSome_some, Bool.true_and]
      split
      · exact departs_switchAndShow hc ht
      · exact departs_pure m
  | keyboard key => exact .behind (turns_keyboardService _ _) (.nobody (.refl _) rfl rfl)
  | sysCall pid accumulator x y => exact .behind (turns_systemCall m _ _ _ _) (departs_pure m)
  | step =>
    simp only
    split
    · exact departs_cycle halive
    · exact .behind rfl (departs_pure m)
  | unknownOpcode pid opcode counter => exact .behind rfl (departs_terminateRaiser hpids pid _)
  | memoryFault pid address => exact .behind rfl (departs_terminateRaiser hpids pid _)
  | cpuBreak pid => exact .behind rfl (departs_terminateRaiser hpids pid _)
  | disk request => exact .behind (turns_storageService _ _) (.nobody (.refl _) rfl rfl)
  | kill pid =>
    simp only
    split
    · rename_i hkill
      exact departs_kill hpids hkill
    · rename_i hkill
      exact .behind rfl (departs_of_terminate_eq_error (kill_eq_error hkill))

end

/-! ## Ticks -/

/-- No process that has ended stays on the processor. -/
theorem alive_of_move {m m' : Machine} {ts : List Turn} (h : Move m ts m')
    (halive : m.currentTerminated = false) : m'.currentTerminated = false := by
  cases h with
  | aside h =>
    rw [Kernel.currentTerminated, h.current_eq]
    exact halive
  | start => rfl
  | rotate => rfl
  | retire => rfl
  | halt => rfl
  | drop => exact halive
  | turn hc =>
    rename_i p
    have ht : p.isTerminated = false := (currentTerminated_of_current hc).symm.trans halive
    exact (isTerminated_process_cycle m.processor p m.memory).trans ht

theorem alive_of_moves {m m' : Machine} {ts : List Turn} (h : Moves m ts m')
    (halive : m.currentTerminated = false) : m'.currentTerminated = false :=
  h.keep alive_of_move halive

theorem alive_afterAll {m : Machine} (halive : m.currentTerminated = false)
    (ops : List Operation) : (m.afterAll ops).value.currentTerminated = false := by
  refine keep_afterAll (fun hmoves halive => alive_of_moves hmoves halive) ?_ ops halive
  intro m m' program partition hloaded halive
  rw [hloaded.machine_eq]
  exact halive

theorem Booted.alive_afterAll {s : Settings} {m : Machine} (h : Booted s m)
    (ops : List Operation) : (m.afterAll ops).value.currentTerminated = false := by
  refine Machine.alive_afterAll ?_ ops
  rw [h.machine_eq]
  rfl

section

variable {s : Settings} {loads : Nat} {m : Machine}

theorem Owned.nodup_pids (hm : m.Owned s loads) : m.pids.Nodup := by
  rw [pids, ← map_pid_residents]
  exact hm.pids_nodup

/-- A batch ends whomever it names, each interrupt on what the ones before it left. -/
theorem Owned.departs_serviceAll (hm : m.Owned s loads) (halive : m.currentTerminated = false)
    (batch : List Interrupt) :
    m.Departs (batch.filterMap Interrupt.victim?) (m.serviceAll batch) := by
  induction batch generalizing m with
  | nil => exact departs_pure m
  | cons i batch ih =>
    have hone := movesTo_service m i
    have hgone : (i :: batch).filterMap Interrupt.victim? =
        i.victim?.toList ++ batch.filterMap Interrupt.victim? := by
      rw [List.filterMap_cons]
      cases i.victim? <;> rfl
    rw [serviceAll_cons, hgone]
    exact (departs_service hm.nodup_pids halive i).bind
      (ih (hm.moves hone) (alive_of_moves hone halive))

theorem Owned.departs_tick (hm : m.Owned s loads) (halive : m.currentTerminated = false) :
    m.awake.Departs (m.interrupts.pending.toList.filterMap Interrupt.victim?) m.tick := by
  have hawake : m.awake.Owned s loads := hm.move (.aside m.beside_awake)
  have hbatch := hawake.departs_serviceAll halive m.interrupts.pending.toList
  have hmoves := movesTo_serviceAll m.awake m.interrupts.pending.toList
  rw [tick_eq, ← List.append_nil (List.filterMap _ _)]
  refine .behind rfl (hbatch.bind ?_)
  split
  · exact departs_cycle (alive_of_moves hmoves halive)
  · exact departs_pure _

end

/-- **A tick takes out whom the pending interrupts name.** Whatever is pending in a machine that was
used in any way, after a tick the other processes are resident in the same order, perhaps from
another one on, and what the cycles of the tick raised is pending. -/
theorem tick_departures {s : Settings} {booted : Traced Machine} (hboot : boot s = .ok booted)
    (ops : List Operation) (hloads : booted.value.loadsIn ops < UInt32.size)
    (queue : InterruptQueue) :
    let m : Machine := { (booted.value.afterAll ops).value with interrupts := queue }
    (m.tick.value.processes.map Process.pid).IsRotated
        ((m.processes.map Process.pid).filter fun pid =>
          pid ∉ queue.pending.toList.filterMap Interrupt.victim?) ∧
      m.tick.value.interrupts.pending.toList = m.tick.turns.filterMap Turn.raised := by
  intro m
  have hbooted := boot_eq_ok hboot
  have hstart : booted.value.currentTerminated = false := by
    rw [hbooted.machine_eq]
    rfl
  have hreached : (booted.value.afterAll ops).value.Owned s (booted.value.loadsIn ops) := by
    have hrun := hbooted.owned.afterAll ops (by rwa [Nat.zero_add])
    rwa [Nat.zero_add] at hrun
  have hm : m.Owned s (booted.value.loadsIn ops) :=
    hreached.move (.aside ⟨rfl, rfl, rfl, rfl, rfl, rfl⟩)
  have halive : m.currentTerminated = false := alive_afterAll hstart ops
  obtain ⟨hrotated, hpending⟩ := hm.departs_tick halive
  exact ⟨hrotated, hpending⟩

/-- A timer, a break, a late kill of the same process, and a fault of a process that never was. -/
theorem tick_departures_small :
    let queue : InterruptQueue := ⟨#[.timer, .cpuBreak 0, .kill 0, .memoryFault 9 0]⟩
    let m : Machine := { (small.value.afterAll sharing).value with interrupts := queue }
    small.value.loadsIn sharing < UInt32.size ∧
      (m.tick.value.processes.map Process.pid).IsRotated [1] := by
  intro queue m
  have hloads : small.value.loadsIn sharing < UInt32.size := by decide +kernel
  obtain ⟨hrotated, -⟩ := tick_departures boot_small sharing hloads queue
  have hleft : (m.processes.map Process.pid).filter (fun pid =>
      pid ∉ queue.pending.toList.filterMap Interrupt.victim?) = [1] := by decide +kernel
  exact ⟨hloads, hleft ▸ hrotated⟩

end Machine

end Timeshare
