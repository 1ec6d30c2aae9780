import Timeshare.Proofs.Observation
import Timeshare.Proofs.Ticks

/-!
# Machines in another guise

Two machines may differ in nothing but how they are set: in the settings of the scheduler, or in
single-step mode. A guise sets every machine in such a way. One computation mirrors another in a
guise if it comes to the same outcome in the guise, shows the same frames, and runs the same cycles.

What a guise changes is looked at in two places only: where the scheduler says whether a switch is
due, and where a step interrupt is serviced or the processor executes on its own. Everything else
mirrors itself in every guise.
-/
namespace Timeshare

/-- A way to set a machine: other settings of the scheduler, and single-step mode or not. The
scheduler goes on counting as before. -/
structure Guise where
  scheduler : Scheduler → Scheduler := id
  stepped : Bool := false
  reset_eq (s : Scheduler) : scheduler s.reset = (scheduler s).reset := by intros; rfl
  recordCycle_eq (s : Scheduler) : scheduler s.recordCycle = (scheduler s).recordCycle := by
    intros; rfl

namespace Guise

/-- The machine in the guise. In single-step mode the processor does not execute on its own. -/
def on (g : Guise) (m : Machine) : Machine :=
  { m with
    scheduler := g.scheduler m.scheduler
    singleStep := g.stepped || m.singleStep
    processor := { m.processor with executing := !g.stepped && m.processor.executing } }

/-- What the display shows of a machine in the guise. -/
def frame (g : Guise) : Frame → Frame
  | .registers registers executing => .registers registers (!g.stepped && executing)
  | f => f

/-- What is seen of an operation on a machine in the guise. -/
def see (g : Guise) (o : Observation) : Observation :=
  ⟨o.answer, o.frames.map g.frame, g.on o.machine⟩

section

variable (g : Guise) (m : Machine)

@[simp]
theorem current_on : (g.on m).current = m.current := rfl

@[simp]
theorem ready_on : (g.on m).ready = m.ready := rfl

@[simp]
theorem memory_on : (g.on m).memory = m.memory := rfl

/-! ## The guise of the next machine -/

theorem on_resetCycles : (g.on m).resetCycles = g.on m.resetCycles := by
  simp [Machine.resetCycles, on, g.reset_eq]

theorem on_handTo (next : Process) (ready : List Process) :
    (g.on m).handTo next ready = g.on (m.handTo next ready) := by
  simp [Machine.handTo, Machine.resetCycles, Kernel.dispatch, Processor.bind, on, g.reset_eq]

theorem on_stopped : (g.on m).stopped = g.on m.stopped := by
  simp [Machine.stopped, Machine.resetCycles, on, g.reset_eq]

/-- A cycle does not ask whether the processor executes on its own. -/
theorem cycle_with_executing (c : Processor) (executing : Bool) (p : Process) (memory : Memory) :
    (({ c with executing } : Processor).cycle p memory).value =
      { (c.cycle p memory).value with
        processor := { (c.cycle p memory).value.processor with executing } } := by
  unfold Processor.cycle
  simp only
  cases memory.load? p.partition c.registers.counter with
  | none => rfl
  | some byte =>
    simp only
    cases Opcode.decode? byte <;> rfl

theorem cycle_on (p : Process) :
    ((g.on m).processor.cycle p m.memory).value =
      { (m.processor.cycle p m.memory).value with
        processor := { (m.processor.cycle p m.memory).value.processor with
          executing := !g.stepped && m.processor.executing } } :=
  cycle_with_executing m.processor _ p m.memory

theorem on_turned (p : Process) :
    (g.on m).turned ((g.on m).processor.cycle p m.memory).value =
      g.on (m.turned (m.processor.cycle p m.memory).value) := by
  rw [cycle_on]
  simp [Machine.turned, on, g.recordCycle_eq, Machine.executing_cycle]

end

/-! ## Mirroring -/

/-- The computation `t'` comes to what `t` comes to, in the guise, and does the same on the way. -/
structure Mirrors (g : Guise) {α : Type} (on : α → α) (t t' : Traced α) : Prop where
  value_eq : t'.value = on t.value
  frames_eq : t'.frames = t.frames.map g.frame
  turns_eq : t'.turns = t.turns

/-- Both requests are refused for the same reason, or granted with outcomes that mirror each
other. -/
inductive MirrorsOutcome (g : Guise) {α : Type} (on : α → α) :
    Except Error (Traced α) → Except Error (Traced α) → Prop
  | granted {t t' : Traced α} (h : g.Mirrors on t t') : MirrorsOutcome g on (.ok t) (.ok t')
  | refused (reason : Error) : MirrorsOutcome g on (.error reason) (.error reason)

section

open Traced Machine

variable {g : Guise} {α β : Type} {onα : α → α} {onβ : β → β}

theorem mirrors_pure {a a' : α} (h : a' = onα a) : g.Mirrors onα (pure a) (pure a') := ⟨h, rfl, rfl⟩

theorem Mirrors.bind {t t' : Traced α} {f f' : α → Traced β} (h : g.Mirrors onα t t')
    (hf : g.Mirrors onβ (f t.value) (f' (onα t.value))) :
    g.Mirrors onβ (t >>= f) (t' >>= f') where
  value_eq := by
    rw [value_bind, h.value_eq]
    exact hf.value_eq
  frames_eq := by
    rw [frames_bind, frames_bind, h.value_eq, h.frames_eq, hf.frames_eq, List.map_append]
  turns_eq := by
    rw [turns_bind, turns_bind, h.value_eq, h.turns_eq, hf.turns_eq]

theorem Mirrors.map {t t' : Traced α} {f : α → β} (h : g.Mirrors onα t t')
    (hf : ∀ a, f (onα a) = onβ (f a)) : g.Mirrors onβ (f <$> t) (f <$> t') where
  value_eq := by rw [value_map, value_map, h.value_eq, hf]
  frames_eq := by rw [frames_map, frames_map, h.frames_eq]
  turns_eq := by rw [turns_map, turns_map, h.turns_eq]

/-- Whatever is only reported may differ. -/
theorem Mirrors.behind_report {n n' : Notice} {f f' : Unit → Traced β}
    (hf : g.Mirrors onβ (f ()) (f' ())) :
    g.Mirrors onβ (report n >>= f) (report n' >>= f') := by
  have hreport : g.Mirrors id (report n) (report n') := ⟨rfl, rfl, rfl⟩
  exact hreport.bind hf

theorem mirrors_quiet {t : Traced α} (h : t.frames = []) : g.Mirrors id t t :=
  ⟨rfl, by rw [h]; rfl, rfl⟩

theorem MirrorsOutcome.bind {x x' : Except Error (Traced α)} {f f' : Traced α → Traced β}
    (h : g.MirrorsOutcome onα x x')
    (hf : ∀ {t t'}, g.Mirrors onα t t' → g.Mirrors onβ (f t) (f' t')) :
    g.MirrorsOutcome onβ (do return f (← x)) (do return f' (← x')) := by
  cases h with
  | granted h => exact .granted (hf h)
  | refused reason => exact .refused reason

/-! ## Leaving the processor -/

variable {m : Machine}

theorem mirrors_showAll (g : Guise) (m : Machine) : g.Mirrors id m.showAll (g.on m).showAll :=
  ⟨rfl, rfl, rfl⟩

theorem mirrors_switchAndShow {p : Process} (hc : m.current = some p) :
    g.Mirrors g.on m.switchAndShow (g.on m).switchAndShow := by
  have hc' : (g.on m).current = some p := hc
  have hct := currentTerminated_of_current hc
  have hct' := currentTerminated_of_current hc'
  have hvalue : (g.on m).switch.value = g.on m.switch.value := by
    cases ht : p.isTerminated with
    | false =>
      cases hr : m.ready.toList with
      | nil =>
        rw [switch_alone (hct.trans ht) hr, switch_alone (hct'.trans ht) hr]
        exact g.on_resetCycles m
      | cons next rest =>
        rw [switch_rotate hc ht hr, switch_rotate hc' ht hr]
        exact g.on_handTo m next _
    | true =>
      cases hr : m.ready.toList with
      | nil =>
        rw [switch_halt hc ht hr, switch_halt hc' ht hr]
        exact g.on_stopped (m.freed p)
      | cons next rest =>
        rw [switch_retire hc ht hr, switch_retire hc' ht hr]
        exact g.on_handTo (m.freed p) next rest
  refine ⟨hvalue, ?_, ?_⟩
  · rw [frames_switchAndShow, frames_switchAndShow, value_switchAndShow, value_switchAndShow,
      hvalue]
    exact (g.mirrors_showAll m.switch.value).frames_eq
  · rw [turns_switchAndShow, turns_switchAndShow]

theorem mirrors_terminate (g : Guise) (m : Machine) (pid : Pid) :
    g.MirrorsOutcome g.on (m.terminate pid) ((g.on m).terminate pid) := by
  unfold terminate
  rw [current_on, ready_on]
  split
  · rename_i p _
    let ended : Process := { p.save m.processor.registers with status := .terminated }
    exact .granted (mirrors_switchAndShow (m := { m with current := some ended }) rfl)
  · split
    · exact .refused _
    · exact .granted ⟨rfl, rfl, rfl⟩

theorem mirrors_kill (g : Guise) (m : Machine) (pid : Pid) :
    g.MirrorsOutcome g.on (m.kill pid) ((g.on m).kill pid) :=
  (g.mirrors_terminate m pid).bind fun h => h.bind (.behind_report (mirrors_pure rfl))

theorem mirrors_terminateRaiser (g : Guise) (m : Machine) (pid : Pid) (kind : String) :
    g.Mirrors g.on (m.terminateRaiser pid kind) ((g.on m).terminateRaiser pid kind) := by
  have hend := g.mirrors_terminate m pid
  unfold terminateRaiser
  generalize m.terminate pid = x, (g.on m).terminate pid = x' at hend
  cases hend with
  | granted h => exact h
  | refused reason => exact .behind_report (mirrors_pure rfl)

/-! ## Cycles and interrupts -/

theorem mirrors_turnNow (g : Guise) (m : Machine) : g.Mirrors g.on m.turnNow (g.on m).turnNow := by
  cases hc : m.current with
  | none =>
    rw [turnNow, turnNow, current_on, hc]
    exact mirrors_pure rfl
  | some p =>
    have hc' : (g.on m).current = some p := hc
    have hvalue : (g.on m).turnNow.value = g.on m.turnNow.value := by
      rw [value_turnNow hc, value_turnNow hc', memory_on]
      exact g.on_turned m p
    refine ⟨hvalue, ?_, ?_⟩
    · rw [frames_turnNow hc, frames_turnNow hc', hvalue]
      rfl
    · rw [turns_turnNow hc, turns_turnNow hc', memory_on, cycle_on]

/-- A cycle asks the scheduler whether a switch is due. -/
theorem mirrors_cycle (hw : (g.on m).wantsSwitch = m.wantsSwitch) :
    g.Mirrors g.on m.cycle (g.on m).cycle := by
  cases hc : m.current with
  | none =>
    rw [cycle, cycle, current_on, hc]
    exact mirrors_pure rfl
  | some p =>
    have hc' : (g.on m).current = some p := hc
    rw [cycle_eq hc, cycle_eq hc', hw]
    refine .bind ?_ (g.mirrors_turnNow _)
    split
    · exact mirrors_switchAndShow hc
    · exact mirrors_pure rfl

theorem mirrors_systemCall (g : Guise) (m : Machine) (pid : Pid) (accumulator x y : UInt8) :
    g.Mirrors id (m.systemCall pid accumulator x y) ((g.on m).systemCall pid accumulator x y) := by
  have hsame : (g.on m).systemCall pid accumulator x y = m.systemCall pid accumulator x y := rfl
  rw [hsame]
  refine ⟨rfl, ?_, rfl⟩
  unfold systemCall
  split
  · rfl
  · split <;> rfl

/-- The service of an interrupt mirrors itself if it answers alike whether a switch is due, except
for a step in another mode. -/
theorem mirrors_service (hw : (g.on m).wantsSwitch = m.wantsSwitch) {i : Interrupt}
    (hi : i = .step → (g.on m).singleStep = m.singleStep) :
    g.Mirrors g.on (m.service i) ((g.on m).service i) := by
  unfold service
  refine .behind_report ?_
  cases i with
  | timer =>
    simp only [current_on, hw]
    cases hc : m.current with
    | none => exact mirrors_pure rfl
    | some p =>
      simp only [Option.isSome_some, Bool.true_and]
      split
      · exact mirrors_switchAndShow hc
      · exact mirrors_pure rfl
  | keyboard key =>
    exact (mirrors_quiet (frames_keyboardService m.keyboard _)).bind (mirrors_pure rfl)
  | sysCall pid accumulator x y =>
    exact (g.mirrors_systemCall m pid accumulator x y).bind (mirrors_pure rfl)
  | step =>
    simp only [hi rfl]
    split
    · exact mirrors_cycle hw
    · exact .behind_report (mirrors_pure rfl)
  | unknownOpcode pid opcode counter => exact .behind_report (g.mirrors_terminateRaiser m pid _)
  | memoryFault pid address => exact .behind_report (g.mirrors_terminateRaiser m pid _)
  | cpuBreak pid => exact .behind_report (g.mirrors_terminateRaiser m pid _)
  | disk request =>
    exact (mirrors_quiet (frames_storageService m.storage _)).bind (mirrors_pure rfl)
  | kill pid =>
    have hkill := g.mirrors_kill m pid
    simp only
    generalize m.kill pid = x, (g.on m).kill pid = x' at hkill
    cases hkill with
    | granted h => exact h
    | refused reason => exact .behind_report (mirrors_pure rfl)

/-! ## Requests -/

theorem mirrors_start (g : Guise) (m : Machine) (p : Process) :
    g.Mirrors g.on (m.start p) ((g.on m).start p) :=
  .behind_report (mirrors_pure (g.on_handTo m p m.ready.toList))

theorem mirrors_run (g : Guise) (m : Machine) (pid : Pid) :
    g.MirrorsOutcome g.on (m.run pid) ((g.on m).run pid) := by
  unfold run
  have hid : (g.on m).currentPid? = m.currentPid? := rfl
  rw [hid, current_on, ready_on]
  split
  · exact .granted (mirrors_pure rfl)
  · split
    · exact .refused _
    · rename_i p ready _
      split
      · exact .granted (mirrors_pure rfl)
      · exact .granted ((g.mirrors_start { m with ready } p).bind
          ((g.mirrors_showAll _).bind (mirrors_pure rfl)))

theorem mirrors_runAll (g : Guise) (m : Machine) : g.Mirrors g.on m.runAll (g.on m).runAll := by
  unfold runAll
  rw [current_on, ready_on]
  split
  · exact mirrors_pure rfl
  · simp only
    split
    · rename_i p ready _
      exact (g.mirrors_start { m with ready } p).bind
        ((g.mirrors_showAll _).bind (mirrors_pure rfl))
    · exact (mirrors_pure rfl).bind ((g.mirrors_showAll m).bind (mirrors_pure rfl))

theorem accept_on (g : Guise) (m : Machine) (program : List UInt8) :
    (g.on m).accept program = (m.accept program).map (Prod.map id g.on) := by
  unfold accept
  rw [memory_on]
  split
  · rfl
  · cases m.memory.allocate with
    | error reason => rfl
    | ok claimed =>
      obtain ⟨partition, memory⟩ := claimed
      simp only [bind, Except.bind, pure, Except.pure]
      cases memory.writeBlock (memory.base partition) program <;> rfl

theorem mirrors_load (g : Guise) (m : Machine) (program : List UInt8) :
    g.MirrorsOutcome (Prod.map id g.on) (m.load program) ((g.on m).load program) := by
  unfold load
  rw [accept_on]
  cases m.accept program with
  | error reason => exact .refused reason
  | ok accepted => exact .granted (.behind_report ⟨rfl, rfl, rfl⟩)

/-- A request that neither ticks nor sets anything mirrors itself in every guise. -/
theorem mirrors_perform (g : Guise) (m : Machine) {r : Request} (htick : r.takesTick = false)
    (hsets : r.sets = false) :
    g.MirrorsOutcome (Prod.map id g.on) (m.perform r) ((g.on m).perform r) := by
  cases r with
  | load program => exact (g.mirrors_load m program).bind fun h => h.map fun _ => rfl
  | run pid => exact (g.mirrors_run m pid).bind fun h => h.map fun _ => rfl
  | runAll => exact .granted ((g.mirrors_runAll m).map fun _ => rfl)
  | step => cases htick
  | tick => cases htick
  | setQuantum quantum => cases hsets
  | setPolicy policy => cases hsets
  | setSingleStep enabled => cases hsets
  | kill pid => exact (g.mirrors_kill m pid).bind fun h => h.map fun _ => rfl
  | requestKill pid =>
    have hpartition : (g.on m).partitionOf? pid = m.partitionOf? pid := rfl
    simp only [perform, requestKill, hpartition]
    split
    · exact .granted (mirrors_pure rfl)
    · exact .refused _
  | interrupt i => exact .granted (mirrors_pure rfl)
  | takeInput => exact .granted (mirrors_pure rfl)

/-- Who sees the machine in the guise sees what there is to see, in the guise. -/
theorem MirrorsOutcome.see {r r' : Request}
    (h : g.MirrorsOutcome (Prod.map id g.on) (m.perform r) ((g.on m).perform r')) :
    (g.on m).observe (.ask r') = g.see (m.observe (.ask r)) ∧
      ((g.on m).after (.ask r')).turns = (m.after (.ask r)).turns := by
  simp only [observe, after]
  generalize m.perform r = x, (g.on m).perform r' = x' at h
  cases h with
  | granted h =>
    rename_i t t'
    refine ⟨?_, ?_⟩
    · simp only [Guise.see, h.value_eq, h.frames_eq]
      rfl
    · rw [turns_map, turns_map, h.turns_eq]
  | refused reason => exact ⟨rfl, rfl⟩

end

end Guise

/-- The settings of scheduler and mode have no part in the layout of memory. -/
theorem Machine.memory_eq_of_boot {s s' : Settings} {t t' : Traced Machine}
    (h : Machine.boot s = .ok t) (h' : Machine.boot s' = .ok t')
    (hsize : s'.partitionSize = s.partitionSize) (hcount : s'.partitions = s.partitions) :
    t'.value.memory = t.value.memory := by
  unfold Machine.boot at h h'
  rw [hsize, hcount] at h'
  cases hmemory : Memory.ofLayout s.partitionSize s.partitions with
  | error reason =>
    rw [hmemory] at h
    cases h
  | ok memory =>
    rw [hmemory] at h h'
    simp only [bind, Except.bind] at h h'
    split at h
    · cases h
    · split at h'
      · cases h'
      · obtain rfl := Except.ok.inj h
        obtain rfl := Except.ok.inj h'
        rfl

end Timeshare
