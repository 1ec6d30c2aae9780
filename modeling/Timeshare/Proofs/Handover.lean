import Timeshare.Proofs.Coherence

/-!
# Handing the processor over

Whoever leaves the processor hands it to the next in line, so that once somebody has it, it is idle
only when nobody is left. A cycle is run in two places, for a step interrupt and at the end of a
tick, and both are counted here exactly: a cycle that is due is never lost, and no other is run.
-/
namespace Timeshare

namespace Machine

open Traced

/-- Nobody waits for an idle processor. -/
def Manned (m : Machine) : Prop := m.current = none → m.ready.toList = []

section

variable {m m' : Machine} {ts : List Turn}

theorem Manned.of_current {p : Process} (hc : m.current = some p) : m.Manned := fun hnone => by
  rw [hc] at hnone
  cases hnone

theorem Manned.current_or (hm : m.Manned) : m.current.isSome = true ∨ m.processes = [] := by
  cases hc : m.current with
  | some p => exact .inl rfl
  | none =>
    right
    rw [Kernel.processes, hc, hm hc]
    rfl

/-- Who leaves the processor hands it over, or nobody waits. -/
theorem Manned.move (hm : m.Manned) (h : Move m ts m') : m'.Manned := by
  cases h with
  | aside h =>
    intro hnone
    rw [h.current_eq] at hnone
    rw [h.ready_eq]
    exact hm hnone
  | halt hc hr => exact fun _ => hr
  | drop hr =>
    -- somebody waited, so somebody has the processor and keeps it
    intro hnone
    have hempty := hm hnone
    rw [hr] at hempty
    exact absurd hempty (by simp)
  | start => exact .of_current rfl
  | rotate => exact .of_current rfl
  | retire => exact .of_current rfl
  | turn => exact .of_current rfl

theorem Manned.after (hc : m.current.isSome = true) (op : Operation) :
    (m.after op).value.Manned := by
  obtain ⟨p, hp⟩ := Option.isSome_iff_exists.1 hc
  cases hgrant : m.grantsLoad op with
  | false => exact (moves_after hgrant).keep (fun hmove hm => hm.move hmove) (.of_current hp)
  | true =>
    obtain ⟨program, t, rfl, hload⟩ := exists_load_of_grantsLoad hgrant
    obtain ⟨-, -, partition, hloaded⟩ := load_eq_ok hload
    rw [(after_load hload).2.1, hloaded.machine_eq]
    exact .of_current hp

/-! ## The cycles of a tick -/

/-- A process that has not ended keeps the processor or passes it on. -/
theorem isSome_current_switch {p : Process} (hc : m.current = some p)
    (ht : p.isTerminated = false) : m.switch.value.current.isSome = true := by
  have hct := currentTerminated_of_current hc
  cases hr : m.ready.toList with
  | nil =>
    rw [switch_alone (hct.trans ht) hr]
    show m.current.isSome = true
    rw [hc]
    rfl
  | cons next rest =>
    rw [switch_rotate hc ht hr]
    rfl

theorem length_turns_turnNow_eq (m : Machine) :
    m.turnNow.turns.length = m.current.isSome.toNat := by
  cases hc : m.current with
  | none =>
    rw [turnNow, hc]
    rfl
  | some p =>
    rw [turns_turnNow hc]
    rfl

/-- The switch in front of a cycle does not cost the cycle. -/
theorem length_turns_cycle_eq (halive : m.currentTerminated = false) :
    m.cycle.turns.length = m.current.isSome.toNat := by
  cases hc : m.current with
  | none =>
    rw [cycle, hc]
    rfl
  | some p =>
    have ht : p.isTerminated = false := (currentTerminated_of_current hc).symm.trans halive
    rw [cycle_eq hc]
    split
    · rw [turns_bind, turns_switchAndShow, List.nil_append, length_turns_turnNow_eq,
        value_switchAndShow, isSome_current_switch hc ht]
      rfl
    · rw [pure_bind, length_turns_turnNow_eq, hc]

/-- A service runs a cycle if it is that of a step interrupt in single-step mode and somebody has
the processor. -/
theorem length_turns_service_eq (halive : m.currentTerminated = false) (i : Interrupt) :
    (m.service i).turns.length =
      (m.singleStep && decide (i = .step) && m.current.isSome).toNat := by
  by_cases hi : i = .step
  · subst hi
    unfold service
    rw [turns_bind]
    cases hs : m.singleStep with
    | false => simp
    | true => simpa using length_turns_cycle_eq halive
  · rw [turns_service m hi, decide_eq_false hi, Bool.and_false, Bool.false_and]
    rfl

/-- At the end of a tick a cycle is run if somebody has the processor, but not in single-step
mode. -/
theorem length_turns_lastBeat_eq (hgear : m.InGear) (halive : m.currentTerminated = false) :
    m.lastBeat.turns.length = (!m.singleStep && m.current.isSome).toNat := by
  rw [lastBeat, hgear]
  split
  · rename_i hexecuting
    obtain ⟨-, hcurrent⟩ := Bool.and_eq_true_iff.1 hexecuting
    rw [length_turns_cycle_eq halive, hexecuting, hcurrent]
  · rename_i hidle
    rw [Bool.eq_false_of_not_eq_true hidle]
    rfl

/-- The step interrupt at a place of the batch finds somebody on the processor. -/
def stepFinds (m : Machine) (batch : List Interrupt) (n : Nat) : Bool :=
  decide (batch[n]? = some .step) && (m.serviceAll (batch.take n)).value.current.isSome

theorem stepFinds_cons_succ (m : Machine) (i : Interrupt) (batch : List Interrupt) (n : Nat) :
    m.stepFinds (i :: batch) (n + 1) = (m.service i).value.stepFinds batch n := by
  rw [stepFinds, stepFinds, List.getElem?_cons_succ, List.take_succ_cons, serviceAll_cons,
    value_bind]

/-- In single-step mode a batch runs a cycle for each step interrupt that finds somebody. -/
theorem length_turns_serviceAll_eq (halive : m.currentTerminated = false)
    (batch : List Interrupt) :
    (m.serviceAll batch).turns.length =
      if m.singleStep then (List.range batch.length).countP (m.stepFinds batch) else 0 := by
  induction batch generalizing m with
  | nil => split <;> rfl
  | cons i batch ih =>
    have hrest := ih (alive_of_moves (movesTo_service m i) halive)
    have hmode := (steady_service m i).singleStep_eq
    have hhead : m.stepFinds (i :: batch) 0 = (decide (i = .step) && m.current.isSome) := by
      simp only [stepFinds, List.getElem?_cons_zero, Option.some.injEq, List.take_zero]
      rfl
    rw [serviceAll_cons, turns_bind, List.length_append, length_turns_service_eq halive, hrest,
      hmode]
    cases hs : m.singleStep with
    | false => rfl
    | true =>
      rw [if_pos rfl, if_pos rfl, Bool.true_and, List.length_cons, List.range_succ_eq_map,
        List.countP_cons, List.countP_map, hhead, Nat.add_comm]
      congr 1
      · exact List.countP_congr fun n _ => by
          rw [Function.comp, Nat.succ_eq_add_one, stepFinds_cons_succ]
      · cases decide (i = Interrupt.step) && m.current.isSome <;> rfl

end

/-- **The processor is never idle while work remains.** If somebody has the processor of a machine
that was used in any way, somebody has it after any operation, or nobody is resident any more. A
tick outside of single-step mode runs one cycle if somebody has the processor when the batch is
serviced, and none otherwise; in single-step mode it runs one for each step interrupt that is
serviced while somebody has it, in that service, and no other. -/
theorem never_idle {s : Settings} {booted : Traced Machine} (hboot : boot s = .ok booted)
    (ops : List Operation) :
    let m := (booted.value.afterAll ops).value
    let batch := m.interrupts.pending.toList
    (m.current.isSome = true → ∀ op,
      (m.after op).value.current.isSome = true ∨ (m.after op).value.processes = []) ∧
    (m.singleStep = false →
      m.tick.turns.length = (m.awake.serviceAll batch).value.current.isSome.toNat) ∧
    (m.singleStep = true →
      m.tick.turns.length = (List.range batch.length).countP (m.awake.stepFinds batch) ∧
      ∀ before i after, batch = before ++ i :: after →
        let reached := (m.awake.serviceAll before).value
        (reached.service i).turns.length =
          (decide (i = .step) && reached.current.isSome).toNat) := by
  intro m batch
  have hbooted := boot_eq_ok hboot
  have hgear : m.awake.InGear := (hbooted.coherent_afterAll ops).inGear
  have halive : m.awake.currentTerminated = false := hbooted.alive_afterAll ops
  have hsteady (before : List Interrupt) := steady_serviceAll m.awake before
  have hkept (before : List Interrupt) :
      (m.awake.serviceAll before).value.currentTerminated = false :=
    alive_of_moves (movesTo_serviceAll m.awake before) halive
  have hmode (before : List Interrupt) :
      (m.awake.serviceAll before).value.singleStep = m.singleStep :=
    (hsteady before).singleStep_eq
  have htick : m.tick.turns.length = (m.awake.serviceAll batch).turns.length +
      (m.awake.serviceAll batch).value.lastBeat.turns.length := by
    rw [← List.length_append]
    rfl
  rw [length_turns_serviceAll_eq halive,
    length_turns_lastBeat_eq ((hsteady batch).inGear hgear) (hkept batch), hmode] at htick
  refine ⟨fun hc op => (Manned.after hc op).current_or, fun hs => ?_, fun hs => ⟨?_, ?_⟩⟩
  · have hawake : m.awake.singleStep = false := hs
    rw [htick, hawake, hs, if_neg (by simp), Nat.zero_add, Bool.not_false, Bool.true_and]
  · have hawake : m.awake.singleStep = true := hs
    rw [htick, hawake, hs, if_pos rfl, Bool.not_true, Bool.false_and]
    rfl
  · intro before i after _ reached
    rw [length_turns_service_eq (hkept before), hmode, hs, Bool.true_and]

/-- Two processes end between three steps, and the last step finds nobody. -/
theorem never_idle_small :
    let ops := sharing ++ [.ask (.setSingleStep true), .ask (.interrupt .step),
      .ask (.interrupt (.kill 0)), .ask (.interrupt .step), .ask (.interrupt (.kill 1)),
      .ask (.interrupt .step)]
    let m := (small.value.afterAll ops).value
    m.current.isSome = true ∧ m.singleStep = true ∧ m.tick.turns.length = 2 ∧
      m.tick.value.processes = [] := by
  intro ops m
  obtain ⟨hmanned, -, hstepping⟩ := never_idle boot_small ops
  have hcurrent : m.current.isSome = true := by decide +kernel
  have hmode : m.singleStep = true := by decide +kernel
  have htwo : (List.range m.interrupts.pending.toList.length).countP
      (m.awake.stepFinds m.interrupts.pending.toList) = 2 := by decide +kernel
  have hnone : (m.after (.ask .tick)).value.current = none := by decide +kernel
  have hempty : (m.after (.ask .tick)).value.processes = [] :=
    (hmanned hcurrent (.ask .tick)).resolve_left (by rw [hnone]; simp)
  exact ⟨hcurrent, hmode, (hstepping hmode).1.trans htwo, hempty⟩

end Machine

end Timeshare
