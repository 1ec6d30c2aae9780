import Timeshare.Proofs.Guise

/-!
# Single-stepping

In single-step mode the processor does not execute on its own, and a step does what a tick does
outside of it: the step interrupt waits behind everything else, so the cycle that is run for it
comes at the end of the batch, where the processor would have run one on its own.
-/
namespace Timeshare

/-- Single-step mode, whatever is set. -/
def Guise.stepping : Guise where
  stepped := true

/-- In single-step mode a step takes the place of a tick. -/
def Request.stepwise : Request → Request
  | .tick => .step
  | r => r

namespace Machine

open Traced Guise

/-- Outside of single-step mode, with no step interrupt waiting. -/
structure Automatic (m : Machine) : Prop where
  inGear : m.InGear
  singleStep_eq : m.singleStep = false
  calm : .step ∉ m.interrupts.pending.toList

section

variable {m : Machine}

/-! ## A tick and a step -/

theorem serviceAll_append (m : Machine) (batch batch' : List Interrupt) :
    m.serviceAll (batch ++ batch') = m.serviceAll batch >>= (serviceAll · batch') := by
  induction batch generalizing m with
  | nil => exact (pure_bind m (serviceAll · batch')).symm
  | cons i batch ih => simp only [List.cons_append, serviceAll_cons, ih, bind_assoc]

theorem mirrors_serviceAll (m : Machine) {batch : List Interrupt} (h : .step ∉ batch) :
    stepping.Mirrors stepping.on (m.serviceAll batch) ((stepping.on m).serviceAll batch) := by
  induction batch generalizing m with
  | nil => exact mirrors_pure rfl
  | cons i batch ih =>
    rw [List.mem_cons, not_or] at h
    rw [serviceAll_cons, serviceAll_cons]
    exact (mirrors_service rfl fun hi => absurd hi.symm h.1).bind (ih _ h.2)

/-- In gear the processor executes on its own whenever there is something to execute. -/
theorem InGear.cycle_eq (hm : m.InGear) (hs : m.singleStep = false) :
    (if m.processor.executing then m.cycle else pure m) = m.cycle := by
  split
  · rfl
  · rename_i hidle
    have hnone : m.current = none := by
      rw [hm, hs] at hidle
      simpa using hidle
    rw [cycle, hnone]

/-- The service of the step interrupt runs the cycle that the processor runs on its own outside of
single-step mode. -/
theorem InGear.mirrors_lastCycle (hm : m.InGear) (hs : m.singleStep = false) :
    stepping.Mirrors stepping.on (if m.processor.executing then m.cycle else pure m)
      ((stepping.on m).serviceAll [.step]) := by
  have hservice : (stepping.on m).serviceAll [.step] =
      report (.servicing Interrupt.step.name) >>= fun _ => (stepping.on m).cycle := by
    rw [serviceAll_cons]
    exact bind_pure _
  have hcycle : stepping.Mirrors stepping.on m.cycle ((stepping.on m).cycle) := mirrors_cycle rfl
  rw [hm.cycle_eq hs, hservice]
  refine ⟨hcycle.value_eq, ?_, hcycle.turns_eq⟩
  rw [frames_bind]
  exact hcycle.frames_eq

/-- A step of the machine in single-step mode mirrors a tick outside of it. -/
theorem Automatic.mirrors_step (hm : m.Automatic) :
    stepping.Mirrors stepping.on m.tick (stepping.on m).step := by
  let batch := m.interrupts.pending.toList
  let last : Machine → Traced Machine := fun m =>
    if m.processor.executing then m.cycle else pure m
  -- the step interrupt is the last of its batch, and after it nothing executes on its own
  have hstep : (stepping.on m).step =
      report (.ticking (m.clock + 1) ((stepping.on m).interrupt .step).interrupts.length) >>=
        fun _ => (stepping.on m.awake).serviceAll batch >>= fun m =>
          m.serviceAll [.step] >>= last := by
    have hpushed : ((stepping.on m).interrupt .step).interrupts.pending.toList =
        batch ++ [.step] := Array.toList_push
    rw [step, tick_eq, hpushed]
    simp only [serviceAll_append, bind_assoc]
    rfl
  rw [tick_eq, hstep]
  refine .behind_report ((mirrors_serviceAll m.awake hm.calm).bind ?_)
  have hsteady := steady_serviceAll m.awake batch
  have hgear : (m.awake.serviceAll batch).value.InGear := hsteady.inGear hm.inGear
  have hmode : (m.awake.serviceAll batch).value.singleStep = false :=
    hsteady.singleStep_eq.trans hm.singleStep_eq
  have hlast := hgear.mirrors_lastCycle hmode
  rw [← bind_pure (if (m.awake.serviceAll batch).value.processor.executing then _ else _)]
  exact hlast.bind (mirrors_pure rfl)

theorem Automatic.tick (hm : m.Automatic) : m.tick.value.Automatic where
  inGear := (steady_tick m).inGear hm.inGear
  singleStep_eq := (steady_tick m).singleStep_eq.trans hm.singleStep_eq
  calm hstep := by
    have hpending := raises_tick m
    rw [Raises] at hpending
    rw [hpending] at hstep
    rcases List.mem_append.1 hstep with hstep | hstep
    · cases hstep
    · obtain ⟨turn, hturn, hraised⟩ := List.mem_filterMap.1 hstep
      obtain ⟨trap, htrap⟩ := traps_of_moves (movesTo_tick m) turn hturn _ hraised
      cases trap <;> cases htrap

/-! ## Runs -/

theorem Automatic.mirrors_perform (hm : m.Automatic) {r : Request} (hstep : r ≠ .step)
    (hmode : ∀ enabled, r ≠ .setSingleStep enabled) :
    stepping.MirrorsOutcome (Prod.map id stepping.on) (m.perform r)
      ((stepping.on m).perform r.stepwise) := by
  cases r with
  | tick => exact .granted (hm.mirrors_step.map fun _ => rfl)
  | step => exact absurd rfl hstep
  | setSingleStep enabled => exact absurd rfl (hmode enabled)
  | setQuantum quantum =>
    have hscheduler : (stepping.on m).scheduler = m.scheduler := rfl
    simp only [Request.stepwise, perform, setQuantum, hscheduler]
    cases m.scheduler.setQuantum quantum with
    | error reason => exact .refused reason
    | ok scheduler => exact .granted (mirrors_pure rfl)
  | setPolicy policy => exact .granted ⟨rfl, rfl, rfl⟩
  | _ => exact Guise.mirrors_perform _ m rfl rfl

/-- Without a step interrupt and a change of mode, a machine stays out of single-step mode. -/
theorem Automatic.after (hm : m.Automatic) {r : Request} (hstep : r ≠ .step)
    (hmode : ∀ enabled, r ≠ .setSingleStep enabled) (hraise : r ≠ .interrupt .step) :
    (m.after (.ask r)).value.Automatic := by
  cases htick : r.takesTick with
  | true =>
    cases r with
    | tick => exact hm.tick
    | step => exact absurd rfl hstep
    | _ => cases htick
  | false =>
    rw [Machine.after]
    cases hp : m.perform r with
    | error reason => exact hm
    | ok outcome =>
      refine ⟨inGear_perform hp hm.inGear, ?_, fun hcalm => ?_⟩
      · cases hsets : r.sets with
        | false => exact (steady_perform hsets hp).singleStep_eq.trans hm.singleStep_eq
        | true =>
          cases performed hp with
          | setQuantum _ => exact hm.singleStep_eq
          | setPolicy => exact hm.singleStep_eq
          | setSingleStep => exact absurd rfl (hmode _)
          | _ => cases hsets
      · simp only [value_map, (perform_between htick hp).2, List.mem_append] at hcalm
        rcases hcalm with hcalm | hcalm
        · exact hm.calm hcalm
        · cases r with
          | interrupt i =>
            obtain rfl := List.mem_singleton.1 hcalm
            exact hraise rfl
          | requestKill pid => cases List.mem_singleton.1 hcalm
          | _ => cases hcalm

theorem Automatic.observeAll (hm : m.Automatic) {rs : List Request} (hstep : .step ∉ rs)
    (hmode : ∀ enabled, .setSingleStep enabled ∉ rs) (hraise : .interrupt .step ∉ rs) :
    (stepping.on m).observeAll (rs.map fun r => .ask r.stepwise) =
      (m.observeAll (rs.map .ask)).map stepping.see := by
  induction rs generalizing m with
  | nil => rfl
  | cons r rs ih =>
    rw [List.mem_cons, not_or] at hstep hraise
    have hmode' : ∀ enabled, r ≠ .setSingleStep enabled := fun enabled he =>
      hmode enabled (he ▸ List.mem_cons_self)
    obtain ⟨hsame, -⟩ := (hm.mirrors_perform (Ne.symm hstep.1) hmode').see
    have hrest := ih (hm.after (Ne.symm hstep.1) hmode' (Ne.symm hraise.1)) hstep.2
      (fun enabled h => hmode enabled (List.mem_cons_of_mem _ h)) hraise.2
    rw [List.map_cons, List.map_cons, Machine.observeAll, Machine.observeAll, List.map_cons, hsame,
      machine_observe m (.ask r), ← hrest]
    show _ :: (stepping.on (m.observe (.ask r)).machine).observeAll _ = _
    rw [machine_observe]

end

end Machine

/-- The frame as a processor shows it that does not execute on its own. -/
def Frame.resting : Frame → Frame
  | .registers live _ => .registers live false
  | f => f

namespace Machine

theorem see_stepping (o : Observation) :
    Guise.stepping.see o = { o with
      frames := o.frames.map Frame.resting
      machine := { o.machine with
        singleStep := true
        processor := { o.machine.processor with executing := false } } } := by
  have hframe : ∀ f : Frame, Guise.stepping.frame f = f.resting := fun f => by cases f <;> rfl
  rw [Guise.see, List.map_congr_left fun f _ => hframe f]
  rfl

/-- **Single-stepping runs the same machine.** A step in single-step mode answers, shows and leaves
what a tick does outside of it, apart from the mode itself and from whether the processor executes
on its own. -/
theorem stepping_eq_ticking {s : Settings} {ticking stepping : Traced Machine}
    (hticking : boot { s with singleStep := false } = .ok ticking)
    (hstepping : boot { s with singleStep := true } = .ok stepping)
    (rs : List Request) (hstep : .step ∉ rs) (hmode : ∀ enabled, .setSingleStep enabled ∉ rs)
    (hraise : .interrupt .step ∉ rs) :
    stepping.value.observeAll (rs.map fun r => .ask r.stepwise) =
      (ticking.value.observeAll (rs.map .ask)).map fun o => { o with
        frames := o.frames.map Frame.resting
        machine := { o.machine with
          singleStep := true
          processor := { o.machine.processor with executing := false } } } := by
  have hbooted := boot_eq_ok hticking
  have hmemory : stepping.value.memory = ticking.value.memory :=
    memory_eq_of_boot hticking hstepping rfl rfl
  have hguise : stepping.value = Guise.stepping.on ticking.value := by
    rw [(boot_eq_ok hstepping).machine_eq, hbooted.machine_eq, hmemory]
    rfl
  have hautomatic : ticking.value.Automatic := by
    refine ⟨hbooted.inGear, ?_, ?_⟩
    · rw [hbooted.machine_eq]
    · rw [hbooted.machine_eq]
      exact List.not_mem_nil
  rw [hguise, hautomatic.observeAll hstep hmode hraise]
  exact List.map_congr_left fun o _ => see_stepping o

/-- Two programs in turns, a timer, and a kill of the current process on the way to a tick. -/
def rounds : List Request :=
  [.load [0xEA, 0xEA, 0xEA, 0xEA], .load [0xA9, 0x05, 0x00], .setQuantum 2, .runAll, .tick, .tick,
    .tick, .interrupt .timer, .tick, .requestKill 1, .tick, .setPolicy .firstCome, .tick]

/-- Six ticks that run six cycles, and six steps. -/
theorem stepping_eq_ticking_small :
    ∃ ticking stepping,
      boot { smallSettings with singleStep := false } = .ok ticking ∧
      boot { smallSettings with singleStep := true } = .ok stepping ∧
      .step ∉ rounds ∧ (∀ enabled, .setSingleStep enabled ∉ rounds) ∧
      .interrupt .step ∉ rounds ∧
      (ticking.value.afterAll (rounds.map .ask)).turns.length = 6 ∧
      stepping.value.observeAll (rounds.map fun r => .ask r.stepwise) =
        (ticking.value.observeAll (rounds.map .ask)).map fun o => { o with
          frames := o.frames.map Frame.resting
          machine := { o.machine with
            singleStep := true
            processor := { o.machine.processor with executing := false } } } := by
  let ticking : Traced Machine :=
    (boot { smallSettings with singleStep := false }).toOption.get rfl
  let stepping : Traced Machine :=
    (boot { smallSettings with singleStep := true }).toOption.get rfl
  have hticking : boot { smallSettings with singleStep := false } = .ok ticking := rfl
  have hstepping : boot { smallSettings with singleStep := true } = .ok stepping := rfl
  have hstep : .step ∉ rounds := by simp [rounds]
  have hmode : ∀ enabled, .setSingleStep enabled ∉ rounds := by simp [rounds]
  have hraise : .interrupt .step ∉ rounds := by simp [rounds]
  have hsix : (ticking.value.afterAll (rounds.map .ask)).turns.length = 6 := by decide +kernel
  exact ⟨ticking, stepping, hticking, hstepping, hstep, hmode, hraise, hsix,
    stepping_eq_ticking hticking hstepping rounds hstep hmode hraise⟩

end Machine

end Timeshare
