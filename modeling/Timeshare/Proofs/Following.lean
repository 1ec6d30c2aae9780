import Timeshare.Proofs.InPlace
import Timeshare.Proofs.Observation

/-!
# Following the traced machine

The operations in place end as a session does that follows the traced machine. `InPlace.Follows`
says so of work that leads somewhere, and `InPlace.Refuses` of work that is refused: then the
session is what it was, since every error comes before the first write. `InPlace.Tracks` puts both
together for what may fail. The three are closed under what work is made of, and so each operation
is carried over by the steps of its own definition.

`InPlace.outcome_perform` is the result for the requests of a session, and `InPlace.outcome_call`
for all calls of the machine.
-/
namespace Timeshare

namespace Machine

/-- What a call answers and where it leads, or why it is refused. -/
def call (m : Machine) : Call → Except Error (Traced (Call.Answer × Machine))
  | .ask r => return (fun (reply, m) => (.reply reply, m)) <$> (← m.perform r)
  | .policyNamed name => return (.reply .done, ·) <$> m.setPolicy (← Policy.parse name)
  | .settle limit => return (fun (count, m) => (.ticks count, m)) <$> m.settle limit

/-- What calls answer one after the other, each with the machine that it leaves. A refused one
leaves the machine as it is. -/
def callAll (m : Machine) : List Call → List (Except Error Call.Answer × Machine)
  | [] => []
  | k :: calls =>
    match m.call k with
    | .ok t => (.ok t.value.1, t.value.2) :: t.value.2.callAll calls
    | .error reason => (.error reason, m) :: m.callAll calls

end Machine

/-- The answer of a computation, and the computation without it. -/
def Traced.parted {α : Type} (t : Traced (α × Machine)) : α × Traced Machine :=
  (t.value.1, Prod.snd <$> t)

namespace Session

variable {σ : Type} (c : Console σ)

/-- What is shown and recorded does not depend on the machine. -/
theorem record_with (s : Session σ) (m : Machine) (n : Notice) :
    ({ s with machine := m } : Session σ).record n = { s.record n with machine := m } := by
  simp only [record]
  split
  · split <;> rfl
  · rfl

theorem playEvent_with (s : Session σ) (m : Machine) (event : Event) :
    ({ s with machine := m } : Session σ).playEvent c event =
      { s.playEvent c event with machine := m } := by
  cases event with
  | notice n => exact s.record_with m n
  | frame f =>
    simp only [playEvent]
    split
    · rfl
    · rename_i reason screen _
      exact ({ s with screen } : Session σ).record_with m _

theorem play_with (s : Session σ) (m : Machine) (events : Array Event) :
    ({ s with machine := m } : Session σ).play c events =
      { s.play c events with machine := m } := by
  rw [play, play, ← Array.foldl_toList, ← Array.foldl_toList]
  induction events.toList generalizing s with
  | nil => rfl
  | cons event events ih => rw [List.foldl_cons, playEvent_with, ih, List.foldl_cons]

/-- Following a computation is showing what comes first and following the rest. -/
theorem follow_bind {α : Type} (s : Session σ) (t : Traced α) (f : α → Traced Machine) :
    s.follow c (t >>= f) = (s.play c t.events).follow c (f t.value) := by
  rw [follow, follow, Traced.events_bind, Traced.value_bind, ← play_with]
  exact Array.foldl_append

theorem follow_follow (s : Session σ) (t : Traced Machine) (f : Machine → Traced Machine) :
    (s.follow c t).follow c (f t.value) = s.follow c (t >>= f) := by
  rw [follow_bind, follow.eq_def c s t, play_with]
  rfl

theorem follow_pure {s : Session σ} {m : Machine} (h : s.machine = m) :
    s.follow c (pure m) = s := by
  rw [← h]
  rfl

/-- A computation that shows nothing has nothing but its notices played. -/
theorem foldl_note {α : Type} {t : Traced α} (h : t.frames = []) (s : Session σ) :
    t.events.toList.foldl note s = s.play c t.events := by
  rw [play, ← Array.foldl_toList]
  rw [Traced.frames, List.filterMap_eq_nil_iff] at h
  revert h
  induction t.events.toList generalizing s with
  | nil => exact fun _ => rfl
  | cons event events ih =>
    intro h
    rw [List.foldl_cons, List.foldl_cons, ← ih _ fun e he => h e (List.mem_cons_of_mem _ he)]
    cases event with
    | notice n => rfl
    | frame f => cases h (.frame f) List.mem_cons_self

end Session

namespace InPlace

variable {σ α β : Type} {c : Console σ} {m m' : Machine}

/-- Where the machine is `m`, the work answers `a` and leaves the session that follows `t`. -/
def Follows (c : Console σ) (m : Machine) (x : Work σ α) (a : α) (t : Traced Machine) : Prop :=
  ∀ s : Session σ, s.machine = m → x.run s = .ok a (s.follow c t)

/-- Where the machine is `m`, the work ends in an error and the session is what it was. -/
def Refuses (m : Machine) (x : Work σ α) (reason : Error) : Prop :=
  ∀ s : Session σ, s.machine = m → x.run s = .error reason s

/-- Work does what a computation says that may fail: it follows it, or is refused for the same
reason. -/
def Tracks (c : Console σ) (m : Machine) (x : Work σ α) : Except Error (α × Traced Machine) → Prop
  | .ok (a, t) => Follows c m x a t
  | .error reason => Refuses m x reason

theorem Tracks.follows {δ : Type} {x : Work σ α} {e : Except Error δ}
    {f : δ → α × Traced Machine} {d : δ} (h : Tracks c m x (f <$> e)) (he : e = .ok d) :
    Follows c m x (f d).1 (f d).2 := by
  rw [he] at h
  exact h

theorem Tracks.refuses {δ : Type} {x : Work σ α} {e : Except Error δ}
    {f : δ → α × Traced Machine} {reason : Error} (h : Tracks c m x (f <$> e))
    (he : e = .error reason) : Refuses m x reason := by
  rw [he] at h
  exact h

/-! ## What work is made of -/

theorem follows_pure (a : α) : Follows c m (pure a : Work σ α) a (pure m) := fun s hs => by
  rw [Session.follow_pure c hs, EStateM.run_pure]

theorem run_bind_ok {x : Work σ α} {k : α → Work σ β} {s s' : Session σ} {a : α}
    (h : x.run s = .ok a s') : (x >>= k).run s = (k a).run s' := by
  rw [EStateM.run_bind, h]

/-- Work after work follows computation after computation. -/
theorem Follows.bind {x : Work σ α} {a : α} {t : Traced Machine} {k : α → Work σ β} {b : β}
    {f : Machine → Traced Machine} (h : Follows c m x a t)
    (h' : Follows c t.value (k a) b (f t.value)) : Follows c m (x >>= k) b (t >>= f) :=
  fun s hs => by
    rw [run_bind_ok (h s hs), h' _ (s.machine_follow c t), Session.follow_follow]

/-- Work that writes the machine and shows nothing. -/
theorem Follows.moved {x : Work σ α} {a : α} {k : α → Work σ β} {b : β} {u : Traced Machine}
    (h : Follows c m x a (pure m')) (h' : Follows c m' (k a) b u) :
    Follows c m (x >>= k) b u := by
  have hboth := h.bind (f := fun _ => u) h'
  rwa [pure_bind] at hboth

/-- Work that leads to a machine by a computation of something else. -/
theorem Follows.onward {δ : Type} {x : Work σ α} {a : α} {t : Traced δ} {g : δ → Machine}
    {k : α → Work σ β} {b : β} {f : δ → Traced Machine}
    (h : Follows c m x a (t >>= fun d => pure (g d)))
    (h' : Follows c (g t.value) (k a) b (f t.value)) : Follows c m (x >>= k) b (t >>= f) := by
  have hboth := h.bind (f := fun _ => f t.value) h'
  simp only [bind_assoc, pure_bind] at hboth
  exact hboth

/-- An answer at the end. -/
theorem Follows.last {x : Work σ α} {a : α} {t : Traced Machine} (h : Follows c m x a t)
    (g : α → β) : Follows c m (x >>= fun a => pure (g a)) (g a) t := by
  have hboth : Follows c m (x >>= fun a => pure (g a)) (g a) (t >>= pure) :=
    h.bind (follows_pure (g a))
  rwa [bind_pure] at hboth

/-- Work that logs the notices of a computation which shows nothing. -/
theorem Follows.reported {t : Traced α} (ht : t.frames = []) {k : α → Work σ β} {b : β}
    {f : α → Traced Machine} (h : Follows c m (k t.value) b (f t.value)) :
    Follows c m (reporting t >>= k) b (t >>= f) := fun s hs => by
  have hrun : (reporting t).run s = .ok t.value (s.play c t.events) := by
    rw [← Session.foldl_note c ht]
    rfl
  have hsame : (s.play c t.events).machine = m := by rw [Session.machine_play, hs]
  rw [run_bind_ok hrun, h _ hsame, Session.follow_bind]

theorem refuses_throw (reason : Error) : Refuses m (throw reason : Work σ α) reason :=
  fun _ _ => rfl

theorem Refuses.bind {x : Work σ α} {reason : Error} (h : Refuses m x reason)
    (k : α → Work σ β) : Refuses m (x >>= k) reason := fun s hs => by
  rw [EStateM.run_bind, h s hs]

/-- Work that only looked at the machine before it is refused. -/
theorem Follows.refused {x : Work σ α} {a : α} {k : α → Work σ β} {reason : Error}
    (h : Follows c m x a (pure m)) (h' : Refuses m (k a) reason) :
    Refuses m (x >>= k) reason := fun s hs => by
  have hrun := h s hs
  rw [Session.follow_pure c hs] at hrun
  rw [run_bind_ok hrun, h' s hs]

theorem Follows.tryCatch {x : Work σ α} {a : α} {t : Traced Machine} (h : Follows c m x a t)
    (handle : Error → Work σ α) : Follows c m (tryCatch x handle) a t := fun s hs => by
  show EStateM.tryCatch x handle s = _
  rw [EStateM.tryCatch, show x s = .ok a (s.follow c t) from h s hs]

theorem Refuses.handled {x : Work σ α} {reason : Error} {handle : Error → Work σ α} {a : α}
    {t : Traced Machine} (h : Refuses m x reason) (h' : Follows c m (handle reason) a t) :
    Follows c m (tryCatch x handle) a t := fun s hs => by
  show EStateM.tryCatch x handle s = _
  rw [EStateM.tryCatch, show x s = .error reason s from h s hs]
  exact h' s hs

/-! ## Parts -/

theorem follows_machine : Follows c m (machine : Work σ Machine) m (pure m) := fun s hs => by
  rw [Session.follow_pure c hs, ← hs]
  rfl

/-- Work that looks at the machine before it may fail. -/
theorem Tracks.looked {k : Machine → Work σ α} {e : Except Error (α × Traced Machine)}
    (h : Tracks c m (k m) e) : Tracks c m (machine >>= k) e := by
  cases e with
  | ok next => exact follows_machine.moved h
  | error reason => exact Follows.refused (c := c) follows_machine h

theorem follows_change (f : Machine → Machine) :
    Follows c m (change f : Work σ Unit) () (pure (f m)) := fun s hs => by
  rw [← hs]
  rfl

theorem follows_log (n : Notice) :
    Follows c m (log n : Work σ Unit) () (Traced.report n >>= fun _ => pure m) := fun s hs => by
  have hsame : (s.record n).machine = m := by rw [Session.machine_record, hs]
  rw [Session.follow_bind]
  exact congrArg _ (Session.follow_pure c hsame).symm

/-- Whatever the display answers, the work goes on. -/
theorem follows_display (f : Frame) :
    Follows c m (swallow (display c f)) () (Traced.present f >>= fun _ => pure m) := fun s hs => by
  have hsame : (s.playEvent c (.frame f)).machine = m := by rw [Session.machine_playEvent, hs]
  have hfollow : s.follow c (Traced.present f >>= fun _ => pure m) = s.playEvent c (.frame f) := by
    rw [Session.follow_bind]
    exact Session.follow_pure c hsame
  rw [hfollow]
  cases hdraw : c.draw s.screen f with
  | mk failure screen =>
    have hcall : (display c f).run s = .ok failure { s with screen } := by
      show EStateM.Result.ok (c.draw s.screen f).1 { s with screen := (c.draw s.screen f).2 } = _
      rw [hdraw]
    rw [swallow, run_bind_ok hcall, Session.playEvent, hdraw]
    cases failure <;> rfl

theorem follows_takeCurrent :
    Follows c m (takeCurrent : Work σ (Option Process)) m.current
      (pure { m with current := none }) := by
  refine follows_machine.moved ?_
  exact (follows_change _).last _

section

variable {f : ReadyQueue → Option (Process × ReadyQueue)}

theorem follows_takeOut_none (h : f m.ready = none) :
    Follows c m (takeOut f : Work σ (Option Process)) none (pure m) := by
  refine follows_machine.moved ?_
  rw [h]
  exact follows_pure none

theorem follows_takeOut_some {p : Process} {ready : ReadyQueue}
    (h : f m.ready = some (p, ready)) :
    Follows c m (takeOut f : Work σ (Option Process)) (some p) (pure { m with ready }) := by
  refine follows_machine.moved ?_
  rw [h]
  exact (follows_change _).last _

end

theorem follows_retire (p : Process) :
    Follows c m (retire p : Work σ Unit) ()
      (m.toKernel.release p >>= fun kernel => pure { m with toKernel := kernel }) := by
  refine (follows_change _).moved ?_
  refine follows_machine.moved ?_
  exact follows_log _

theorem follows_showRegisters :
    Follows c m (showRegisters c) () (m.showRegisters >>= fun _ => pure m) :=
  follows_machine.moved (follows_display _)

theorem follows_showProcesses :
    Follows c m (showProcesses c) () (m.showProcesses >>= fun _ => pure m) :=
  follows_machine.moved (follows_display _)

theorem follows_showAll : Follows c m (showAll c) () (m.showAll >>= fun _ => pure m) := by
  rw [Machine.showAll, bind_assoc]
  exact follows_showRegisters.onward follows_showProcesses

/-! ## Scheduling -/

/-- A processor that nobody is on has nobody taken off it. -/
theorem with_current_none (h : m.current = none) : { m with current := none } = m := by
  rw [← h]

theorem follows_displace (next : Pid) :
    Follows c m (displace next : Work σ Unit) () (m.displace next) := by
  unfold displace Machine.displace
  refine (follows_change _).moved ?_
  refine follows_takeCurrent.moved ?_
  cases hc : m.current with
  | none =>
    have hsaved : m.toKernel.saveCurrent.current = none := by rw [Kernel.saveCurrent, hc]; rfl
    have hsame : { m with toKernel := { m.toKernel.saveCurrent with current := none } } = m :=
      with_current_none hc
    simp only [hsaved]
    -- nobody was saved and nobody taken off
    rw [hsame]
    exact follows_pure ()
  | some p =>
    have hsaved : m.toKernel.saveCurrent.current = some (p.save m.processor.registers) := by
      rw [Kernel.saveCurrent, hc]
      rfl
    simp only [hsaved]
    refine follows_machine.moved ?_
    refine (follows_log _).onward ?_
    split
    · exact follows_retire _
    · exact follows_change _

theorem follows_halt : Follows c m (halt : Work σ Unit) () m.halt := by
  unfold halt Machine.halt
  refine (follows_log _).onward ?_
  refine (follows_change _).moved ((follows_change _).moved (follows_takeCurrent.moved ?_))
  cases m.current with
  | none => exact follows_change _
  | some p =>
    refine (follows_retire p).onward ?_
    exact follows_change _

/-- A processor that was given back has a fresh count of cycles. -/
theorem halt_resetCycles (m : Machine) : (m.halt >>= fun m => pure m.resetCycles) = m.halt := by
  unfold Machine.halt
  cases m.current <;> rfl

theorem follows_switch : Follows c m (switch : Work σ Unit) () m.switch := by
  unfold switch Machine.switch
  cases hr : m.ready.dequeue? with
  | none =>
    refine (follows_takeOut_none hr).moved ?_
    refine follows_machine.moved ?_
    split
    · -- a halt sets the count back, and so does the switch around it
      rw [← halt_resetCycles]
      refine follows_halt.bind ?_
      exact follows_change _
    · exact follows_change _
  | some found =>
    obtain ⟨next, ready⟩ := found
    refine (follows_takeOut_some hr).moved ?_
    refine (follows_displace next.pid).bind ?_
    exact (follows_change _).moved (follows_change _)

theorem follows_switchAndShow : Follows c m (switchAndShow c) () m.switchAndShow := by
  unfold switchAndShow Machine.switchAndShow
  exact follows_switch.bind follows_showAll

/-! ## Cycles -/

/-- A cycle that was run is no news for a session. -/
theorem Follows.ran {x : Work σ α} {a : α} {f : Unit → Traced Machine} (t : Turn)
    (h : Follows c m x a (f ())) : Follows c m x a (Traced.ran t >>= f) := fun s hs => by
  rw [h s hs, Session.follow_bind]
  rfl

theorem follows_turnNow : Follows c m (turnNow c) () m.turnNow := by
  refine follows_takeCurrent.moved ?_
  unfold Machine.turnNow
  cases hc : m.current with
  | none =>
    rw [with_current_none hc]
    exact follows_pure ()
  | some p =>
    rw [Kernel.cycle, hc]
    simp only [turn, bind_assoc]
    refine follows_machine.moved ?_
    refine .reported (Machine.frames_processorCycle _ _ _) ?_
    refine .ran _ ?_
    exact (follows_change _).moved ((follows_change _).moved follows_showRegisters)

theorem follows_cycle : Follows c m (cycle c) () m.cycle := by
  refine follows_machine.moved ?_
  cases hc : m.current with
  | none =>
    rw [Machine.cycle, hc]
    exact follows_pure ()
  | some p =>
    have hnot : ¬ (some p).isNone = true := by simp
    rw [Machine.cycle_eq hc, if_neg hnot]
    split
    · exact follows_switchAndShow.bind follows_turnNow
    · rw [pure_bind]
      exact follows_turnNow

/-! ## Ends -/

theorem follows_terminateCurrent {p : Process} (hc : m.current = some p) :
    Follows c m (terminateCurrent c) () (m.terminateCurrent p) := by
  refine (follows_change _).moved (follows_machine.moved ?_)
  have hsaved : m.toKernel.saveCurrent.current = some (p.save m.processor.registers) := by
    rw [Kernel.saveCurrent, hc]
    rfl
  simp only [hsaved]
  exact (follows_change _).moved follows_switchAndShow

theorem filter_current_eq_none {pid : Pid} (h : m.currentPid? ≠ some pid) :
    m.current.filter (·.pid = pid) = none := by
  rw [Option.filter_eq_none_iff]
  intro p hc hpid
  rw [Kernel.currentPid?, hc, Option.map_some, of_decide_eq_true hpid] at h
  exact h rfl

theorem tracks_terminate (pid : Pid) :
    Tracks c m (terminate c pid) (((), ·) <$> m.terminate pid) := by
  apply Tracks.looked
  by_cases hcurrent : m.currentPid? = some pid
  · obtain ⟨p, hc, rfl⟩ := Option.map_eq_some_iff.1 hcurrent
    rw [if_pos hcurrent, Machine.terminate_of_current hc]
    exact follows_terminateCurrent hc
  · rw [if_neg hcurrent, Machine.terminate, filter_current_eq_none hcurrent]
    cases hr : m.ready.remove? pid with
    | none => exact Follows.refused (c := c) (follows_takeOut_none hr) (refuses_throw _)
    | some found =>
      refine (follows_takeOut_some hr).moved ?_
      refine (follows_retire found.1).onward ?_
      exact follows_showProcesses

theorem tracks_kill (pid : Pid) : Tracks c m (kill c pid) (((), ·) <$> m.kill pid) := by
  unfold kill Machine.kill
  cases hend : m.terminate pid with
  | ok ended => exact ((tracks_terminate pid).follows hend).bind (follows_log _)
  | error reason => exact ((tracks_terminate pid).refuses hend).bind _

theorem follows_terminateRaiser (pid : Pid) (kind : String) :
    Follows c m (terminateRaiser c pid kind) () (m.terminateRaiser pid kind) := by
  unfold terminateRaiser Machine.terminateRaiser
  cases hend : m.terminate pid with
  | ok ended => exact ((tracks_terminate pid).follows hend).tryCatch _
  | error reason => exact ((tracks_terminate pid).refuses hend).handled (follows_log _)

/-! ## Interrupts and ticks -/

theorem follows_systemCall (pid : Pid) (accumulator x y : UInt8) :
    Follows c m (systemCall c pid accumulator x y) ()
      (m.systemCall pid accumulator x y >>= fun _ => pure m) := by
  refine follows_machine.moved ?_
  unfold Machine.systemCall
  cases m.partitionOf? pid with
  | none => exact follows_log _
  | some partition =>
    cases hcall : m.callText? partition x y with
    | none =>
      simp only [hcall]
      exact follows_log _
    | some text =>
      simp only [hcall]
      exact follows_display _

theorem follows_service (i : Interrupt) : Follows c m (service c i) () (m.service i) := by
  refine (follows_log _).onward ?_
  cases i with
  | timer =>
    refine follows_machine.moved ?_
    split
    · exact follows_switchAndShow
    · exact follows_pure ()
  | keyboard key =>
    refine follows_machine.moved ?_
    exact .reported (Machine.frames_keyboardService _ _) (follows_change _)
  | sysCall pid accumulator x y => exact follows_systemCall pid accumulator x y
  | step =>
    refine follows_machine.moved ?_
    split
    · exact follows_cycle
    · exact follows_log _
  | unknownOpcode pid opcode counter => exact (follows_log _).onward (follows_terminateRaiser _ _)
  | memoryFault pid address => exact (follows_log _).onward (follows_terminateRaiser _ _)
  | cpuBreak pid => exact (follows_log _).onward (follows_terminateRaiser _ _)
  | disk request =>
    refine follows_machine.moved ?_
    exact .reported (Machine.frames_storageService _ _) (follows_change _)
  | kill pid =>
    cases hkill : m.kill pid with
    | ok killed =>
      simp only [hkill]
      exact ((tracks_kill pid).follows hkill).tryCatch _
    | error reason =>
      simp only [hkill]
      exact ((tracks_kill pid).refuses hkill).handled (follows_log _)

theorem follows_serviceAll (batch : List Interrupt) :
    Follows c m (serviceAll c batch) () (m.serviceAll batch) := by
  induction batch generalizing m with
  | nil => exact follows_pure ()
  | cons i batch ih =>
    rw [Machine.serviceAll_cons]
    exact (follows_service i).bind ih

theorem follows_tick : Follows c m (tick c) () m.tick := by
  rw [Machine.tick_eq]
  refine (follows_change _).moved (follows_machine.moved ?_)
  refine (follows_log _).onward ?_
  refine (follows_change _).moved ?_
  refine (follows_serviceAll _).bind ?_
  refine follows_machine.moved ?_
  split
  · exact follows_cycle
  · exact follows_pure ()

theorem follows_settleFrom (n taken : Nat) :
    Follows c m (settleFrom c taken n) (taken + (m.settle n).value.1)
      (Prod.snd <$> m.settle n) := by
  induction n generalizing m taken with
  | zero => exact follows_pure taken
  | succ n ih =>
    refine follows_machine.moved ?_
    rw [Machine.settle]
    split
    · exact follows_pure taken
    · rw [Traced.value_bind, Traced.value_bind, Traced.value_pure, ← Nat.add_assoc,
        Nat.add_right_comm, map_bind]
      refine follows_tick.bind ?_
      rw [map_bind]
      exact ih (taken + 1)

/-! ## Requests -/

theorem follows_launch (p : Process) :
    Follows c m (launch p : Work σ Unit) () (m.start p) := by
  refine (follows_log _).onward ?_
  exact (follows_change _).moved (follows_change _)

theorem tracks_claim :
    Tracks c m (claim : Work σ Nat)
      ((fun claimed => (claimed.1, pure { m with memory := claimed.2 })) <$>
        m.memory.allocate) := by
  apply Tracks.looked
  unfold Memory.allocate
  cases m.memory.inUse.findFinIdx? (!·) with
  | none => exact refuses_throw _
  | some partition => exact (follows_change _).last _

theorem follows_copy {address : Nat} {bytes : List UInt8} {memory : Memory}
    (h : m.memory.writeBlock address bytes = .ok memory) :
    Follows c m (copy address bytes : Work σ Unit) () (pure { m with memory }) := by
  refine follows_machine.moved ?_
  unfold Memory.writeBlock at h
  split at h
  · rename_i hfits
    cases h
    rw [dif_pos hfits]
    exact follows_change _
  · cases h

/-- The program is copied into a partition that holds it, so no claim is taken back. -/
theorem tracks_accept (program : List UInt8) :
    Tracks c m (accept program : Work σ Process)
      ((fun accepted => (accepted.1,
        Traced.report (.loaded accepted.1.pid program.length accepted.1.partition) >>= fun _ =>
          pure accepted.2)) <$> m.accept program) := by
  apply Tracks.looked
  by_cases hl : m.memory.partitionSize < program.length
  · rw [if_pos hl, Machine.accept, if_pos hl]
    exact refuses_throw _
  · rw [if_neg hl]
    cases ha : m.memory.allocate with
    | error reason =>
      rw [Machine.accept, if_neg hl, ha]
      exact ((tracks_claim (c := c)).refuses ha).bind _
    | ok claimed =>
      obtain ⟨memory, hwrite, haccept⟩ := Machine.accept_eq_ok (Nat.le_of_not_lt hl) ha
      rw [haccept]
      refine (tracks_claim.follows ha).moved (follows_machine.moved ?_)
      refine ((follows_copy hwrite).tryCatch _).moved ?_
      exact (follows_change _).moved ((follows_log _).last _)

theorem tracks_load (program : List UInt8) :
    Tracks c m (load c program) (Traced.parted <$> m.load program) := by
  unfold load Machine.load
  cases haccept : m.accept program with
  | error reason => exact ((tracks_accept (c := c) program).refuses haccept).bind _
  | ok accepted =>
    show Follows c m _ _ (Prod.snd <$> (_ >>= _))
    rw [map_bind]
    refine ((tracks_accept program).follows haccept).onward ?_
    refine (follows_change _).moved ?_
    rw [map_bind]
    exact follows_showProcesses.last _

theorem contains_of_remove {q ready : ReadyQueue} {pid : Pid} {p : Process}
    (h : q.remove? pid = some (p, ready)) : q.contains pid = true := by
  obtain ⟨before, after, hr, -, he, -⟩ := ReadyQueue.remove?_eq_some h
  rw [ReadyQueue.contains, hr]
  simp [he]

theorem not_contains_of_remove {q : ReadyQueue} {pid : Pid} (h : q.remove? pid = none) :
    q.contains pid = false := by
  simpa [ReadyQueue.contains] using (ReadyQueue.remove?_eq_none_iff q pid).1 h

theorem tracks_run (pid : Pid) : Tracks c m (run c pid) (((), ·) <$> m.run pid) := by
  apply Tracks.looked
  unfold Machine.run
  by_cases hcurrent : m.currentPid? = some pid
  · rw [if_pos hcurrent, if_pos hcurrent]
    exact follows_pure ()
  · rw [if_neg hcurrent, if_neg hcurrent]
    cases hr : m.ready.remove? pid with
    | none =>
      rw [not_contains_of_remove hr]
      exact refuses_throw _
    | some found =>
      rw [contains_of_remove hr]
      cases m.current with
      | none =>
        have hstart : Follows c m (startWith pid) () _ :=
          (follows_takeOut_some hr).moved (follows_launch found.1)
        exact hstart.bind follows_showAll
      | some q => exact follows_pure ()

theorem follows_runAll : Follows c m (runAll c) () m.runAll := by
  refine follows_machine.moved ?_
  unfold Machine.runAll
  cases m.current with
  | some p => exact follows_pure ()
  | none =>
    cases hr : m.ready.dequeue? with
    | none =>
      have hstart : Follows c m start () (pure m) :=
        (follows_takeOut_none hr).moved (follows_pure ())
      exact hstart.moved follows_showAll
    | some found =>
      have hstart : Follows c m start () _ :=
        (follows_takeOut_some hr).moved (follows_launch found.1)
      exact hstart.bind follows_showAll

theorem follows_step : Follows c m (step c) () m.step := (follows_change _).moved follows_tick

theorem tracks_setQuantum (quantum : Nat) :
    Tracks c m (setQuantum quantum : Work σ Unit)
      ((fun m => ((), pure m)) <$> m.setQuantum quantum) := by
  unfold setQuantum Machine.setQuantum Scheduler.setQuantum
  by_cases hq : quantum = 0
  · rw [if_pos hq, if_pos hq]
    exact refuses_throw _
  · rw [if_neg hq, if_neg hq]
    exact follows_change _

theorem follows_setPolicy (policy : Policy) :
    Follows c m (setPolicy policy : Work σ Unit) () (m.setPolicy policy) :=
  (follows_log _).onward (follows_change _)

theorem tracks_setPolicyNamed (name : String) :
    Tracks c m (setPolicyNamed name : Work σ Unit)
      ((fun policy => ((), m.setPolicy policy)) <$> Policy.parse name) := by
  unfold setPolicyNamed
  cases Policy.parse name with
  | ok policy => exact follows_setPolicy policy
  | error reason => exact refuses_throw reason

theorem follows_setSingleStep (enabled : Bool) :
    Follows c m (setSingleStep enabled : Work σ Unit) () (pure (m.setSingleStep enabled)) :=
  (follows_change _).moved (follows_change _)

theorem tracks_requestKill (pid : Pid) :
    Tracks c m (requestKill pid : Work σ Unit) ((fun m => ((), pure m)) <$> m.requestKill pid) := by
  apply Tracks.looked
  unfold Machine.requestKill
  cases m.partitionOf? pid with
  | none => exact refuses_throw _
  | some partition => exact follows_change (·.interrupt (.kill pid))

theorem follows_takeInput :
    Follows c m (takeInput : Work σ String) m.takeInput.1 (pure m.takeInput.2) :=
  follows_machine.moved ((follows_change _).last _)

/-- An answer beside the machine that the work leads to. -/
theorem Follows.answered {x : Work σ Unit} {t : Traced Machine} (h : Follows c m x () t) (b : β) :
    Follows c m (x >>= fun _ => pure b) b (Prod.snd <$> (b, ·) <$> t) := by
  have hsame : Prod.snd <$> (b, ·) <$> t = t := by
    rw [← comp_map]
    exact id_map t
  rw [hsame]
  exact h.last fun _ => b

theorem Tracks.answered {δ : Type} {x : Work σ Unit} {e : Except Error δ}
    {f : δ → Traced Machine} (h : Tracks c m x ((fun d => ((), f d)) <$> e)) (b : β) :
    Tracks c m (x >>= fun _ => pure b)
      (Traced.parted <$> (e >>= fun d => pure ((b, ·) <$> f d))) := by
  cases he : e with
  | ok d => exact (h.follows he).answered b
  | error reason => exact (h.refuses he).bind _

/-- An answer that is made of the answer before. -/
theorem Tracks.last {x : Work σ α} {e : Except Error (Traced (α × Machine))}
    (h : Tracks c m x (Traced.parted <$> e)) (g : α → β) :
    Tracks c m (x >>= fun a => pure (g a))
      (Traced.parted <$> (e >>= fun t => pure ((fun r => (g r.1, r.2)) <$> t))) := by
  cases he : e with
  | ok t =>
    show Follows c m _ (g t.value.1) (Prod.snd <$> (fun r => (g r.1, r.2)) <$> t)
    rw [← comp_map]
    exact (h.follows he).last g
  | error reason => exact (h.refuses he).bind _

theorem tracks_perform (r : Request) :
    Tracks c m (perform c r) (Traced.parted <$> m.perform r) := by
  cases r with
  | load program => exact (tracks_load program).last Reply.pid
  | run pid => exact (tracks_run pid).answered Reply.done
  | runAll => exact follows_runAll.answered Reply.done
  | step => exact follows_step.answered Reply.done
  | tick => exact follows_tick.answered Reply.done
  | setQuantum quantum => exact (tracks_setQuantum quantum).answered Reply.done
  | setPolicy policy => exact (follows_setPolicy policy).answered Reply.done
  | setSingleStep enabled => exact (follows_setSingleStep enabled).answered Reply.done
  | kill pid => exact (tracks_kill pid).answered Reply.done
  | requestKill pid => exact (tracks_requestKill pid).answered Reply.done
  | interrupt i => exact (follows_change _).answered Reply.done
  | takeInput => exact follows_takeInput.moved (follows_pure _)

/-- What a session does at once is what it does in place, errors included. -/
theorem outcome_perform (c : Console σ) (s : Session σ) (r : Request) :
    (perform c r).outcome s = s.perform c r := by
  unfold Work.outcome Session.perform
  cases hperform : s.machine.perform r with
  | error reason => rw [(tracks_perform r).refuses hperform s rfl]
  | ok t => rw [(tracks_perform r).follows hperform s rfl, Traced.parted]

/-! ## Calls -/

theorem tracks_call (k : Call) : Tracks c m (call c k) (Traced.parted <$> m.call k) := by
  cases k with
  | ask r => exact (tracks_perform r).last Call.Answer.reply
  | policyNamed name =>
    exact (tracks_setPolicyNamed name).answered (Call.Answer.reply .done)
  | settle limit =>
    have hsettled := (follows_settleFrom (c := c) (m := m) limit 0).last Call.Answer.ticks
    rw [Nat.zero_add] at hsettled
    exact hsettled

/-- A call that is made in place ends as the traced machine says, errors included. -/
theorem outcome_call (c : Console σ) (s : Session σ) (k : Call) :
    (call c k).outcome s =
      match s.machine.call k with
      | .ok t => (.ok t.value.1, s.follow c (Prod.snd <$> t))
      | .error reason => (.error reason, s) := by
  unfold Work.outcome
  cases hcall : s.machine.call k with
  | error reason => rw [(tracks_call k).refuses hcall s rfl]
  | ok t => rw [(tracks_call k).follows hcall s rfl, Traced.parted]

/-- All that calls answer is the machine's doing. -/
theorem callAll_eq (c : Console σ) (s : Session σ) (calls : List Call) :
    callAll c s calls = s.machine.callAll calls := by
  induction calls generalizing s with
  | nil => rfl
  | cons k calls ih =>
    rw [callAll, Machine.callAll, outcome_call]
    cases s.machine.call k with
    | error reason => exact congrArg _ (ih s)
    | ok t =>
      simp only [ih, Session.machine_follow, Traced.value_map]

end InPlace

end Timeshare
