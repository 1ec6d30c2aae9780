import Timeshare.Proofs.Runs

/-!
# What operations leave alone

Policy, quantum and single-step mode are only ever changed by the requests that set them. Everything
else that a machine does is steady: it keeps these settings, counts no more cycles than it runs, and
keeps the processor in gear. A processor is in gear if it executes on its own exactly while a
process is current and single-step mode is off.
-/
namespace Timeshare

namespace Machine

open Traced

/-- The processor executes on its own exactly while it has a process and may do so. -/
def InGear (m : Machine) : Prop :=
  m.processor.executing = (!m.singleStep && m.current.isSome)

theorem InGear.singleStep_eq {m : Machine} (h : m.InGear) (he : m.processor.executing = true) :
    m.singleStep = false := by
  rw [h, Bool.and_eq_true, Bool.not_eq_true'] at he
  exact he.1

/-- On the way from `m` to `m'`, running the cycles `ts`, nobody touches the settings. -/
structure Steady (m : Machine) (ts : List Turn) (m' : Machine) : Prop where
  singleStep_eq : m'.singleStep = m.singleStep
  policy_eq : m'.scheduler.policy = m.scheduler.policy
  quantum_eq : m'.scheduler.quantum = m.scheduler.quantum
  cycles_le : m'.scheduler.cycles ≤ m.scheduler.cycles + ts.length
  inGear : m.InGear → m'.InGear

theorem Steady.refl (m : Machine) : m.Steady [] m := ⟨rfl, rfl, rfl, Nat.le_refl _, id⟩

theorem Steady.trans {m m₁ m₂ : Machine} {ts us : List Turn} (h : m.Steady ts m₁)
    (h' : m₁.Steady us m₂) : m.Steady (ts ++ us) m₂ where
  singleStep_eq := h'.singleStep_eq.trans h.singleStep_eq
  policy_eq := h'.policy_eq.trans h.policy_eq
  quantum_eq := h'.quantum_eq.trans h.quantum_eq
  cycles_le := by
    have hfirst := h.cycles_le
    have hsecond := h'.cycles_le
    rw [List.length_append]
    omega
  inGear hm := h'.inGear (h.inGear hm)

section

variable {m : Machine} {t : Traced Machine}

theorem Steady.bind {f : Machine → Traced Machine} (h : m.Steady t.turns t.value)
    (hf : t.value.Steady (f t.value).turns (f t.value).value) :
    m.Steady (t >>= f).turns (t >>= f).value := h.trans hf

/-- Reports and frames before a computation touch nothing. -/
theorem Steady.behind {α : Type} {x : Traced α} {f : α → Traced Machine} (hx : x.turns = [])
    (h : m.Steady (f x.value).turns (f x.value).value) :
    m.Steady (x >>= f).turns (x >>= f).value := by
  rw [turns_bind, hx]
  exact h

end

/-! ## Changes of the processor -/

theorem steady_handTo (m : Machine) (next : Process) (ready : List Process) :
    m.Steady [] (m.handTo next ready) :=
  ⟨rfl, rfl, rfl, Nat.zero_le _, fun _ => (Bool.and_true _).symm⟩

theorem steady_stopped (m : Machine) : m.Steady [] m.stopped :=
  ⟨rfl, rfl, rfl, Nat.zero_le _, fun _ => (Bool.and_false _).symm⟩

theorem steady_freed (m : Machine) (p : Process) : m.Steady [] (m.freed p) :=
  ⟨rfl, rfl, rfl, Nat.le_refl _, id⟩

theorem steady_resetCycles (m : Machine) : m.Steady [] m.resetCycles :=
  ⟨rfl, rfl, rfl, Nat.zero_le _, id⟩

theorem executing_cycle (c : Processor) (p : Process) (memory : Memory) :
    (c.cycle p memory).value.processor.executing = c.executing := by
  unfold Processor.cycle
  simp only
  split
  · rfl
  · split <;> rfl

theorem steady_turned {m : Machine} {p : Process} (hc : m.current = some p) :
    m.Steady [⟨p.pid, (m.processor.cycle p m.memory).value.raised⟩]
      (m.turned (m.processor.cycle p m.memory).value) where
  singleStep_eq := rfl
  policy_eq := rfl
  quantum_eq := rfl
  cycles_le := Nat.min_le_left _ _
  inGear hm := by
    rw [InGear, hc] at hm
    exact (executing_cycle m.processor p m.memory).trans hm

/-! ## Operations -/

section

variable {m : Machine} {t : Traced Machine}

theorem steady_switchAndShow {p : Process} (hc : m.current = some p) :
    m.Steady m.switchAndShow.turns m.switchAndShow.value := by
  rw [turns_switchAndShow, value_switchAndShow]
  cases switched hc with
  | alone _ _ h =>
    rw [h]
    exact steady_resetCycles m
  | rotate _ _ h =>
    rw [h]
    exact steady_handTo m _ _
  | halt _ _ h =>
    rw [h]
    exact (steady_freed m p).trans (steady_stopped _)
  | retire _ _ h =>
    rw [h]
    exact (steady_freed m p).trans (steady_handTo _ _ _)

theorem steady_terminateCurrent (m : Machine) (p : Process) :
    m.Steady (m.terminateCurrent p).turns (m.terminateCurrent p).value := by
  rw [value_terminateCurrent, terminateCurrent, turns_switchAndShow]
  cases m.ready.toList with
  | nil => exact (steady_freed m p).trans (steady_stopped _)
  | cons next rest => exact (steady_freed m p).trans (steady_handTo _ next rest)

theorem steady_terminate {pid : Pid} (h : m.terminate pid = .ok t) :
    m.Steady t.turns t.value := by
  rcases terminate_eq_ok h with ⟨p, -, -, rfl⟩ | ⟨p, before, after, -, -, -, -, hv, ht⟩
  · exact steady_terminateCurrent m p
  · rw [hv, ht]
    exact ⟨rfl, rfl, rfl, Nat.le_refl _, id⟩

theorem steady_kill {pid : Pid} (h : m.kill pid = .ok t) : m.Steady t.turns t.value := by
  obtain ⟨ended, hend, rfl⟩ := kill_eq_ok h
  exact (steady_terminate hend).bind (.behind rfl (.refl _))

theorem steady_terminateRaiser (m : Machine) (pid : Pid) (kind : String) :
    m.Steady (m.terminateRaiser pid kind).turns (m.terminateRaiser pid kind).value := by
  unfold terminateRaiser
  split
  · rename_i hend
    exact steady_terminate hend
  · exact .behind rfl (.refl m)

theorem steady_turnNow (m : Machine) : m.Steady m.turnNow.turns m.turnNow.value := by
  cases hc : m.current with
  | none =>
    rw [turnNow, hc]
    exact .refl m
  | some p =>
    rw [value_turnNow hc, turns_turnNow hc]
    exact steady_turned hc

theorem steady_cycle (m : Machine) : m.Steady m.cycle.turns m.cycle.value := by
  cases hc : m.current with
  | none =>
    rw [cycle, hc]
    exact .refl m
  | some p =>
    rw [cycle_eq hc]
    split
    · exact (steady_switchAndShow hc).bind (steady_turnNow _)
    · exact steady_turnNow m

theorem steady_service (m : Machine) (i : Interrupt) :
    m.Steady (m.service i).turns (m.service i).value := by
  unfold service
  refine .behind rfl ?_
  cases i with
  | timer =>
    cases hc : m.current with
    | none => exact .refl m
    | some p =>
      simp only [Option.isSome_some, Bool.true_and]
      split
      · exact steady_switchAndShow hc
      · exact .refl m
  | keyboard key =>
    exact .behind (turns_keyboardService _ _) ⟨rfl, rfl, rfl, Nat.le_refl _, id⟩
  | sysCall pid accumulator x y => exact .behind (turns_systemCall m _ _ _ _) (.refl m)
  | step =>
    simp only
    split
    · exact steady_cycle m
    · exact .behind rfl (.refl m)
  | unknownOpcode pid opcode counter => exact .behind rfl (steady_terminateRaiser m pid _)
  | memoryFault pid address => exact .behind rfl (steady_terminateRaiser m pid _)
  | cpuBreak pid => exact .behind rfl (steady_terminateRaiser m pid _)
  | disk request =>
    exact .behind (turns_storageService _ _) ⟨rfl, rfl, rfl, Nat.le_refl _, id⟩
  | kill pid =>
    simp only
    split
    · rename_i hkill
      exact steady_kill hkill
    · exact .behind rfl (.refl m)

theorem steady_serviceAll (m : Machine) (batch : List Interrupt) :
    m.Steady (m.serviceAll batch).turns (m.serviceAll batch).value := by
  induction batch generalizing m with
  | nil => exact .refl m
  | cons i batch ih =>
    rw [serviceAll_cons]
    exact (steady_service m i).bind (ih _)

theorem steady_tick (m : Machine) : m.Steady m.tick.turns m.tick.value := by
  have hawake : m.Steady [] m.awake := ⟨rfl, rfl, rfl, Nat.le_refl _, id⟩
  have hrest : m.awake.Steady m.tick.turns m.tick.value := by
    rw [tick_eq]
    refine .behind rfl ((steady_serviceAll _ _).bind ?_)
    split
    · exact steady_cycle _
    · exact .refl _
  exact hawake.trans hrest

theorem steady_step (m : Machine) : m.Steady m.step.turns m.step.value := by
  have hraised : m.Steady [] (m.interrupt .step) := ⟨rfl, rfl, rfl, Nat.le_refl _, id⟩
  exact hraised.trans (steady_tick _)

theorem steady_settle (n : Nat) (m : Machine) :
    m.Steady (m.settle n).turns (m.settle n).value.2 := by
  induction n generalizing m with
  | zero => exact .refl m
  | succ n ih =>
    rw [settle]
    split
    · exact .refl m
    · have hticked := (steady_tick m).trans (ih m.tick.value)
      simpa using hticked

theorem steady_run {pid : Pid} (h : m.run pid = .ok t) : m.Steady t.turns t.value := by
  unfold run at h
  split at h
  · obtain rfl := Except.ok.inj h
    exact .refl m
  · split at h
    · cases h
    · rename_i p ready hremove
      split at h
      · obtain rfl := Except.ok.inj h
        exact .refl m
      · obtain rfl := Except.ok.inj h
        exact steady_handTo m p ready.toList

theorem steady_runAll (m : Machine) : m.Steady m.runAll.turns m.runAll.value := by
  unfold runAll
  split
  · exact .refl m
  · simp only
    split
    · rename_i p ready hnext
      exact steady_handTo m p ready.toList
    · exact .refl m

end

end Machine

/-! ## Requests -/

/-- The request is made to change a setting. -/
def Request.sets : Request → Bool
  | .setQuantum _ => true
  | .setPolicy _ => true
  | .setSingleStep _ => true
  | _ => false

namespace Machine

open Traced

theorem steady_perform {m : Machine} {r : Request} {t : Traced (Reply × Machine)}
    (hr : r.sets = false) (h : m.perform r = .ok t) : m.Steady t.turns t.value.2 := by
  cases performed h with
  | load hload =>
    obtain ⟨hturns, -, partition, hloaded⟩ := load_eq_ok hload
    rw [turns_map, value_map, hturns, hloaded.machine_eq]
    exact ⟨rfl, rfl, rfl, Nat.le_refl _, id⟩
  | run hrun =>
    rw [turns_map, value_map]
    exact steady_run hrun
  | runAll =>
    rw [turns_map, value_map]
    exact steady_runAll m
  | step =>
    rw [turns_map, value_map]
    exact steady_step m
  | tick =>
    rw [turns_map, value_map]
    exact steady_tick m
  | setQuantum _ => cases hr
  | setPolicy => cases hr
  | setSingleStep => cases hr
  | kill hkill =>
    rw [turns_map, value_map]
    exact steady_kill hkill
  | requestKill _ => exact ⟨rfl, rfl, rfl, Nat.le_refl _, id⟩
  | interrupt => exact ⟨rfl, rfl, rfl, Nat.le_refl _, id⟩
  | takeInput => exact ⟨rfl, rfl, rfl, Nat.le_refl _, id⟩

/-- Changing a setting keeps the processor in gear, too. -/
theorem inGear_perform {m : Machine} {r : Request} {t : Traced (Reply × Machine)}
    (h : m.perform r = .ok t) (hm : m.InGear) : t.value.2.InGear := by
  cases hr : r.sets with
  | false => exact (steady_perform hr h).inGear hm
  | true =>
    cases performed h with
    | setQuantum _ => exact hm
    | setPolicy => exact hm
    | setSingleStep => rfl
    | _ => cases hr

theorem Booted.inGear {s : Settings} {m : Machine} (h : Booted s m) : m.InGear := by
  rw [h.machine_eq]
  exact (Bool.and_false _).symm

end Machine

end Timeshare
