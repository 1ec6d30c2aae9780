import Timeshare.Proofs.Guise

/-!
# First come, first served

Under first come, first served a switch is due when the current process has ended. But a process
that ends on the processor is replaced at once, so none that has ended is ever found there, and no
switch ever is due. Under round robin a switch is due when the count of cycles reaches the quantum.
As long as it does not, the two policies cannot be told apart.
-/
namespace Timeshare

/-- Round robin with a quantum of its own, whatever is set. -/
def Guise.roundRobin (quantum : Nat) : Guise where
  scheduler s := { s with policy := .roundRobin, quantum }

namespace Machine

open Traced

/-- First come, first served, with nobody on the processor who has ended. -/
structure Patient (m : Machine) : Prop where
  policy_eq : m.scheduler.policy = .firstCome
  alive : m.currentTerminated = false

/-- The computation is mirrored under round robin, from a patient machine on, provided that on one
side it does not run as many cycles as are missing to the quantum. -/
def MirroredBelow (quantum : Nat) (m : Machine) {α : Type} (on : α → α) (t t' : Traced α) : Prop :=
  m.Patient →
    m.scheduler.cycles + t.turns.length < quantum ∨
      m.scheduler.cycles + t'.turns.length < quantum →
    (Guise.roundRobin quantum).Mirrors on t t'

section

variable {quantum : Nat} {m m' : Machine}

theorem Patient.wantsSwitch_eq_false (hm : m.Patient) : m.wantsSwitch = false := by
  rw [wantsSwitch, Scheduler.wantsSwitch, hm.policy_eq]
  exact hm.alive

/-- Below the quantum no switch is due under either policy. -/
theorem Patient.wantsSwitch_on (hm : m.Patient) (h : m.scheduler.cycles < quantum) :
    ((Guise.roundRobin quantum).on m).wantsSwitch = m.wantsSwitch := by
  rw [hm.wantsSwitch_eq_false]
  exact decide_eq_false (Nat.not_le_of_lt h)

theorem Patient.moves {ts : List Turn} (hm : m.Patient) (hsteady : m.Steady ts m')
    (hmoves : Moves m ts m') : m'.Patient :=
  ⟨hsteady.policy_eq.trans hm.policy_eq, alive_of_moves hmoves hm.alive⟩

/-- What the first part leaves of the cycles below the quantum is there for the second. -/
theorem MirroredBelow.bind {α : Type} {on : α → α} {t t' : Traced Machine}
    {f f' : Machine → Traced α} (hsteady : m.Steady t.turns t.value) (hmoves : m.MovesTo t)
    (h : MirroredBelow quantum m (Guise.roundRobin quantum).on t t')
    (hf : MirroredBelow quantum t.value on (f t.value)
      (f' ((Guise.roundRobin quantum).on t.value))) :
    MirroredBelow quantum m on (t >>= f) (t' >>= f') := by
  intro hm hshort
  rw [turns_bind, turns_bind, List.length_append, List.length_append] at hshort
  have hfirst := h hm (by omega)
  have hcycles := hsteady.cycles_le
  rw [hfirst.value_eq, hfirst.turns_eq] at hshort
  exact hfirst.bind (hf (hm.moves hsteady hmoves) (by omega))

/-! ## Ticks -/

theorem mirroredBelow_cycle (m : Machine) :
    MirroredBelow quantum m (Guise.roundRobin quantum).on m.cycle
      ((Guise.roundRobin quantum).on m).cycle :=
  fun hm hshort => Guise.mirrors_cycle (hm.wantsSwitch_on (by omega))

theorem mirroredBelow_service (m : Machine) (i : Interrupt) :
    MirroredBelow quantum m (Guise.roundRobin quantum).on (m.service i)
      (((Guise.roundRobin quantum).on m).service i) :=
  fun hm hshort => Guise.mirrors_service (hm.wantsSwitch_on (by omega)) fun _ => rfl

theorem mirroredBelow_serviceAll (m : Machine) (batch : List Interrupt) :
    MirroredBelow quantum m (Guise.roundRobin quantum).on (m.serviceAll batch)
      (((Guise.roundRobin quantum).on m).serviceAll batch) := by
  induction batch generalizing m with
  | nil => exact fun _ _ => Guise.mirrors_pure rfl
  | cons i batch ih =>
    rw [serviceAll_cons, serviceAll_cons]
    exact (mirroredBelow_service m i).bind (steady_service m i) (movesTo_service m i) (ih _)

theorem mirroredBelow_tick (m : Machine) :
    MirroredBelow quantum m (Guise.roundRobin quantum).on m.tick
      ((Guise.roundRobin quantum).on m).tick := by
  intro hm hshort
  rw [tick_eq, tick_eq] at hshort ⊢
  refine .behind_report ?_
  let batch := m.interrupts.pending.toList
  have hall : MirroredBelow quantum m.awake (Guise.roundRobin quantum).on
      (m.awake.serviceAll batch >>= fun m => if m.processor.executing then m.cycle else pure m)
      (((Guise.roundRobin quantum).on m.awake).serviceAll batch >>= fun m =>
        if m.processor.executing then m.cycle else pure m) := by
    refine (mirroredBelow_serviceAll m.awake batch).bind (steady_serviceAll _ _)
      (movesTo_serviceAll _ _) ?_
    have hexecuting : ∀ m : Machine,
        ((Guise.roundRobin quantum).on m).processor.executing = m.processor.executing :=
      fun _ => rfl
    rw [hexecuting]
    split
    · exact mirroredBelow_cycle _
    · exact fun _ _ => Guise.mirrors_pure rfl
  exact hall ⟨hm.policy_eq, hm.alive⟩ hshort

theorem mirroredBelow_settle (n : Nat) (m : Machine) :
    MirroredBelow quantum m (Prod.map id (Guise.roundRobin quantum).on) (m.settle n)
      (((Guise.roundRobin quantum).on m).settle n) := by
  induction n generalizing m with
  | zero => exact fun _ _ => Guise.mirrors_pure rfl
  | succ n ih =>
    have hidle : ((Guise.roundRobin quantum).on m).isIdle = m.isIdle := rfl
    rw [settle, settle, hidle]
    split
    · exact fun _ _ => Guise.mirrors_pure rfl
    · refine (mirroredBelow_tick m).bind (steady_tick m) (movesTo_tick m) fun hm hshort => ?_
      rw [turns_bind, turns_bind, turns_pure, turns_pure, List.append_nil, List.append_nil]
        at hshort
      exact (ih _ hm hshort).bind (Guise.mirrors_pure rfl)

/-! ## Runs -/

/-- A request that sets neither policy nor quantum is mirrored. -/
theorem Patient.mirrors_perform (hm : m.Patient) {r : Request}
    (hpolicy : ∀ policy, r ≠ .setPolicy policy) (hquantum : ∀ quantum, r ≠ .setQuantum quantum)
    (hshort : m.scheduler.cycles + (m.after (.ask r)).turns.length < quantum ∨
      m.scheduler.cycles +
        (((Guise.roundRobin quantum).on m).after (.ask r)).turns.length < quantum) :
    (Guise.roundRobin quantum).MirrorsOutcome (Prod.map id (Guise.roundRobin quantum).on)
      (m.perform r) (((Guise.roundRobin quantum).on m).perform r) := by
  cases r with
  | tick =>
    have hturns : ∀ m : Machine, (m.after (.ask .tick)).turns = m.tick.turns := fun m =>
      (turns_map _ _).trans (turns_map _ _)
    rw [hturns, hturns] at hshort
    exact .granted ((mirroredBelow_tick m hm hshort).map fun _ => rfl)
  | step =>
    have hturns : ∀ m : Machine, (m.after (.ask .step)).turns = (m.interrupt .step).tick.turns :=
      fun m => (turns_map _ _).trans (turns_map _ _)
    rw [hturns, hturns] at hshort
    have hraised : (m.interrupt .step).Patient := ⟨hm.policy_eq, hm.alive⟩
    exact .granted ((mirroredBelow_tick (m.interrupt .step) hraised hshort).map fun _ => rfl)
  | setQuantum quantum => exact absurd rfl (hquantum quantum)
  | setPolicy policy => exact absurd rfl (hpolicy policy)
  | setSingleStep enabled => exact .granted (Guise.mirrors_pure rfl)
  | _ => exact Guise.mirrors_perform _ m rfl rfl

theorem Patient.observe (hm : m.Patient) {op : Operation}
    (hpolicy : ∀ policy, op ≠ .ask (.setPolicy policy))
    (hquantum : ∀ quantum, op ≠ .ask (.setQuantum quantum))
    (hshort : m.scheduler.cycles + (m.after op).turns.length < quantum ∨
      m.scheduler.cycles + (((Guise.roundRobin quantum).on m).after op).turns.length < quantum) :
    ((Guise.roundRobin quantum).on m).observe op = (Guise.roundRobin quantum).see (m.observe op) ∧
      (((Guise.roundRobin quantum).on m).after op).turns = (m.after op).turns := by
  cases op with
  | ask r =>
    exact (hm.mirrors_perform (fun policy hr => hpolicy policy (hr ▸ rfl))
      (fun quantum hr => hquantum quantum (hr ▸ rfl)) hshort).see
  | settle limit =>
    rw [after, after, turns_map, turns_map] at hshort ⊢
    have hsettled := mirroredBelow_settle limit m hm hshort
    refine ⟨?_, hsettled.turns_eq⟩
    simp only [Machine.observe, Guise.see, hsettled.value_eq, hsettled.frames_eq]
    rfl

/-- An operation that sets neither policy nor quantum keeps the policy, and counts no more cycles
than it runs. -/
theorem after_keeps {op : Operation} (hpolicy : ∀ policy, op ≠ .ask (.setPolicy policy))
    (hquantum : ∀ quantum, op ≠ .ask (.setQuantum quantum)) :
    (m.after op).value.scheduler.policy = m.scheduler.policy ∧
      (m.after op).value.scheduler.cycles ≤
        m.scheduler.cycles + (m.after op).turns.length := by
  cases op with
  | settle limit =>
    rw [after, turns_map, value_map]
    have hsteady := steady_settle limit m
    exact ⟨hsteady.policy_eq, hsteady.cycles_le⟩
  | ask r =>
    rw [after]
    cases hp : m.perform r with
    | error reason => exact ⟨rfl, Nat.le_refl _⟩
    | ok outcome =>
      simp only [turns_map, value_map]
      cases hr : r.sets with
      | false =>
        have hsteady := steady_perform hr hp
        exact ⟨hsteady.policy_eq, hsteady.cycles_le⟩
      | true =>
        cases performed hp with
        | setQuantum _ => exact absurd rfl (hquantum _)
        | setPolicy => exact absurd rfl (hpolicy _)
        | setSingleStep => exact ⟨rfl, Nat.le_refl _⟩
        | _ => cases hr

theorem Patient.observeAll (hm : m.Patient) {ops : List Operation}
    (hpolicy : ∀ policy, .ask (.setPolicy policy) ∉ ops)
    (hquantum : ∀ quantum, .ask (.setQuantum quantum) ∉ ops)
    (hshort : m.scheduler.cycles + (m.afterAll ops).turns.length < quantum ∨
      m.scheduler.cycles + (((Guise.roundRobin quantum).on m).afterAll ops).turns.length
        < quantum) :
    ((Guise.roundRobin quantum).on m).observeAll ops =
      (m.observeAll ops).map (Guise.roundRobin quantum).see := by
  induction ops generalizing m with
  | nil => rfl
  | cons op ops ih =>
    have hpolicy' : ∀ policy, op ≠ .ask (.setPolicy policy) := fun policy he =>
      hpolicy policy (he ▸ List.mem_cons_self)
    have hquantum' : ∀ quantum, op ≠ .ask (.setQuantum quantum) := fun quantum he =>
      hquantum quantum (he ▸ List.mem_cons_self)
    rw [afterAll_cons, afterAll_cons, turns_bind, turns_bind, List.length_append,
      List.length_append] at hshort
    have hfirst : m.scheduler.cycles + (m.after op).turns.length < quantum ∨
        m.scheduler.cycles + (((Guise.roundRobin quantum).on m).after op).turns.length
          < quantum := by omega
    obtain ⟨hsame, hturns⟩ := hm.observe hpolicy' hquantum' hfirst
    obtain ⟨hkept, hcycles⟩ := m.after_keeps hpolicy' hquantum'
    have hlater : (m.after op).value.Patient :=
      ⟨hkept.trans hm.policy_eq, alive_afterAll hm.alive [op]⟩
    have hmachine : (((Guise.roundRobin quantum).on m).after op).value =
        (Guise.roundRobin quantum).on (m.after op).value := by
      rw [← machine_observe, hsame, ← machine_observe]
      rfl
    rw [hturns, hmachine] at hshort
    have hrest := ih hlater (fun policy h => hpolicy policy (List.mem_cons_of_mem _ h))
      (fun quantum h => hquantum quantum (List.mem_cons_of_mem _ h)) (by omega)
    rw [Machine.observeAll, Machine.observeAll, List.map_cons, hsame, machine_observe m op, ← hrest]
    show _ :: ((Guise.roundRobin quantum).on (m.observe op).machine).observeAll ops = _
    rw [machine_observe]

theorem see_roundRobin (o : Observation) :
    (Guise.roundRobin quantum).see o =
      { o with machine := { o.machine with
          scheduler := { o.machine.scheduler with policy := .roundRobin, quantum } } } := by
  have hframe : ∀ f : Frame, (Guise.roundRobin quantum).frame f = f := fun f => by
    cases f <;> rfl
  rw [Guise.see, List.map_congr_left fun f _ => hframe f, List.map_id']
  rfl

end

/-- **First come, first served is round robin with a quantum that is never reached.** -/
theorem firstCome_eq_roundRobin {s : Settings} {quantum : Nat} {waiting turning : Traced Machine}
    (hwaiting : boot { s with policy := .firstCome } = .ok waiting)
    (hturning : boot { s with policy := .roundRobin, quantum } = .ok turning)
    (ops : List Operation) (hpolicy : ∀ policy, .ask (.setPolicy policy) ∉ ops)
    (hquantum : ∀ quantum, .ask (.setQuantum quantum) ∉ ops)
    (hshort : (waiting.value.afterAll ops).turns.length < quantum ∨
      (turning.value.afterAll ops).turns.length < quantum) :
    turning.value.observeAll ops = (waiting.value.observeAll ops).map fun o =>
      { o with machine := { o.machine with
          scheduler := { o.machine.scheduler with policy := .roundRobin, quantum } } } := by
  have hbooted := boot_eq_ok hwaiting
  have hmemory : turning.value.memory = waiting.value.memory :=
    memory_eq_of_boot hwaiting hturning rfl rfl
  have hguise : turning.value = (Guise.roundRobin quantum).on waiting.value := by
    rw [(boot_eq_ok hturning).machine_eq, hbooted.machine_eq, hmemory]
    rfl
  have hpatient : waiting.value.Patient := by
    rw [hbooted.machine_eq]
    exact ⟨rfl, rfl⟩
  have hfresh : waiting.value.scheduler.cycles = 0 := by
    rw [hbooted.machine_eq]
  rw [hguise] at hshort ⊢
  rw [hpatient.observeAll hpolicy hquantum (by omega)]
  exact List.map_congr_left fun o _ => see_roundRobin o

/-- Two programs, a timer, a step and a kill. -/
def errands : List Operation :=
  [.ask (.load [0xEA, 0xEA, 0x00]), .ask (.load [0xA9, 0x05, 0xEA, 0xEA]), .ask .runAll,
    .ask .tick, .ask (.interrupt .timer), .settle 4, .ask (.setSingleStep true), .ask .step,
    .ask (.kill 1)]

/-- Six cycles are fewer than seven. -/
theorem firstCome_eq_roundRobin_small :
    ∃ waiting turning,
      boot { smallSettings with policy := .firstCome } = .ok waiting ∧
      boot { smallSettings with policy := .roundRobin, quantum := 7 } = .ok turning ∧
      (∀ policy, .ask (.setPolicy policy) ∉ errands) ∧
      (∀ quantum, .ask (.setQuantum quantum) ∉ errands) ∧
      (waiting.value.afterAll errands).turns.length = 6 ∧
      turning.value.observeAll errands = (waiting.value.observeAll errands).map fun o =>
        { o with machine := { o.machine with
            scheduler := { o.machine.scheduler with policy := .roundRobin, quantum := 7 } } } := by
  let waiting : Traced Machine :=
    (boot { smallSettings with policy := .firstCome }).toOption.get rfl
  let turning : Traced Machine :=
    (boot { smallSettings with policy := .roundRobin, quantum := 7 }).toOption.get rfl
  have hwaiting : boot { smallSettings with policy := .firstCome } = .ok waiting := rfl
  have hturning :
      boot { smallSettings with policy := .roundRobin, quantum := 7 } = .ok turning := rfl
  have hpolicy : ∀ policy, .ask (.setPolicy policy) ∉ errands := by simp [errands]
  have hquantum : ∀ quantum, .ask (.setQuantum quantum) ∉ errands := by simp [errands]
  have hsix : (waiting.value.afterAll errands).turns.length = 6 := by decide +kernel
  have hshort : (waiting.value.afterAll errands).turns.length < 7 := by
    rw [hsix]
    decide
  exact ⟨waiting, turning, hwaiting, hturning, hpolicy, hquantum, hsix,
    firstCome_eq_roundRobin hwaiting hturning errands hpolicy hquantum (.inl hshort)⟩

end Machine

end Timeshare
