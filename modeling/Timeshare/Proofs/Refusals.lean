import Timeshare.Proofs.Departures
import Timeshare.Proofs.Following
import Timeshare.Shell

/-!
# Refusals

`Machine.refusal?` says which requests a machine refuses and why. A refused call leaves the session
as it was: machine, screen and log. That is a fact about the operations in place, which write field
by field and take nothing back: a load claims a partition before it copies the program, a start
looks for the process twice, and a kill takes it out of the queue before it frees its partition.
-/
namespace Timeshare

namespace Machine

/-- Why a machine refuses a request, if it does. -/
def refusal? (m : Machine) : Request → Option Error
  | .load program =>
    if m.memory.partitionSize < program.length then
      some (.programTooLarge program.length m.memory.partitionSize)
    else if m.memory.freeCount = 0 then some .capacityExceeded
    else none
  | .run pid | .kill pid | .requestKill pid =>
    if pid ∈ m.pids then none else some (.noSuchProcess pid)
  | .setQuantum quantum => if quantum = 0 then some .invalidQuantum else none
  | _ => none

section

variable {m : Machine} {pid : Pid} {reason : Error}

/-! ## Programs -/

theorem accept_eq_error_iff (m : Machine) (program : List UInt8) (reason : Error) :
    m.accept program = .error reason ↔ m.refusal? (.load program) = some reason := by
  unfold refusal?
  by_cases hl : m.memory.partitionSize < program.length
  · have haccept : m.accept program =
        .error (.programTooLarge program.length m.memory.partitionSize) := by
      rw [accept, if_pos hl]
      rfl
    simp [haccept, hl]
  · cases ha : m.memory.allocate with
    | error other =>
      obtain ⟨hfull, rfl⟩ := (m.memory.allocate_eq_error_iff other).1 ha
      have haccept : m.accept program = .error .capacityExceeded := by
        rw [accept, if_neg hl, ha]
        rfl
      simp [haccept, hl, hfull]
    | ok claimed =>
      obtain ⟨memory, -, haccept⟩ := accept_eq_ok (Nat.le_of_not_lt hl) ha
      have hfree : m.memory.freeCount ≠ 0 := fun hzero => by
        rw [(m.memory.allocate_eq_error_iff _).2 ⟨hzero, rfl⟩] at ha
        cases ha
      simp [haccept, hl, hfree]

theorem load_eq_error_iff (program : List UInt8) :
    m.load program = .error reason ↔ m.refusal? (.load program) = some reason :=
  (bind_eq_error_iff fun _ => ⟨_, rfl⟩).trans (accept_eq_error_iff m program reason)

/-- A program that fits is loaded while a partition is free. -/
theorem exists_load {program : List UInt8} (hl : program.length ≤ m.memory.partitionSize)
    (hfree : m.memory.freeCount ≠ 0) : ∃ loaded, m.load program = .ok loaded := by
  have hgranted : m.refusal? (.load program) = none := by
    rw [refusal?, if_neg (Nat.not_lt.2 hl), if_neg hfree]
  cases hload : m.load program with
  | ok loaded => exact ⟨loaded, rfl⟩
  | error reason =>
    rw [(load_eq_error_iff program).1 hload] at hgranted
    cases hgranted

/-! ## Processes -/

theorem terminate_eq_error_iff :
    m.terminate pid = .error reason ↔ pid ∉ m.pids ∧ reason = .noSuchProcess pid := by
  have hmem : pid ∈ m.pids ↔ ∃ p ∈ m.processes, p.pid = pid := List.mem_map
  constructor
  · intro h
    obtain ⟨hcurrent, hready⟩ := terminate_eq_error h
    refine ⟨fun hpid => ?_, ?_⟩
    · obtain ⟨p, hp, he⟩ := hmem.1 hpid
      rw [Kernel.processes, List.mem_append, Option.mem_toList] at hp
      exact hp.elim (fun hp => hcurrent p hp he) fun hp => hready p hp he
    · unfold terminate at h
      split at h
      · cases h
      · split at h
        · exact (Except.error.inj h).symm
        · cases h
  · rintro ⟨hpid, rfl⟩
    unfold terminate
    split
    · rename_i p hp
      obtain ⟨hc, he⟩ := Option.filter_eq_some_iff.1 hp
      refine absurd (hmem.2 ⟨p, ?_, by simpa using he⟩) hpid
      rw [Kernel.processes, hc]
      exact List.mem_cons_self
    · split
      · rfl
      · rename_i p ready hremove
        obtain ⟨before, after, hr, -, he, -⟩ := ReadyQueue.remove?_eq_some hremove
        refine absurd (hmem.2 ⟨p, ?_, he⟩) hpid
        rw [Kernel.processes, hr]
        simp

theorem kill_eq_error_iff :
    m.kill pid = .error reason ↔ m.refusal? (.kill pid) = some reason := by
  have hsame : m.kill pid = .error reason ↔ m.terminate pid = .error reason :=
    bind_eq_error_iff fun _ => ⟨_, rfl⟩
  rw [hsame, terminate_eq_error_iff, refusal?]
  by_cases hpid : pid ∈ m.pids
  · simp [hpid]
  · simp [hpid, eq_comm]

theorem requestKill_eq_error_iff :
    m.requestKill pid = .error reason ↔ m.refusal? (.requestKill pid) = some reason := by
  have hsome : (m.partitionOf? pid).isSome = true ↔ pid ∈ m.pids := by
    simp [Kernel.partitionOf?, pids]
  rw [requestKill, refusal?]
  by_cases hpid : pid ∈ m.pids
  · rw [if_pos (hsome.2 hpid), if_pos hpid]
    simp only [reduceCtorEq]
  · rw [if_neg (mt hsome.1 hpid), if_neg hpid, Except.error.injEq, Option.some.injEq]

theorem run_eq_error_iff :
    m.run pid = .error reason ↔ m.refusal? (.run pid) = some reason := by
  have hmem : pid ∈ m.pids ↔ m.currentPid? = some pid ∨ ∃ p ∈ m.ready.toList, p.pid = pid := by
    rw [pids_eq, List.mem_append, Option.mem_toList, List.mem_map]
  rw [run, refusal?]
  split
  · rename_i hcurrent
    rw [if_pos (hmem.2 (.inl hcurrent))]
    exact ⟨nofun, nofun⟩
  · rename_i hcurrent
    split
    · rename_i hremove
      have hnone := (ReadyQueue.remove?_eq_none_iff m.ready pid).1 hremove
      have hpid : pid ∉ m.pids := fun hpid => by
        rcases hmem.1 hpid with h | ⟨p, hp, he⟩
        · exact hcurrent h
        · exact hnone p hp he
      rw [if_neg hpid, Except.error.injEq, Option.some.injEq]
    · rename_i p ready hremove
      obtain ⟨before, after, hr, -, he, -⟩ := ReadyQueue.remove?_eq_some hremove
      have hpid : pid ∈ m.pids := hmem.2 (.inr ⟨p, by rw [hr]; simp, he⟩)
      rw [if_pos hpid]
      split <;> exact ⟨nofun, nofun⟩

/-! ## Requests -/

theorem setQuantum_eq_error_iff (quantum : Nat) :
    m.setQuantum quantum = .error reason ↔ m.refusal? (.setQuantum quantum) = some reason := by
  have hsame : m.setQuantum quantum = .error reason ↔
      m.scheduler.setQuantum quantum = .error reason :=
    bind_eq_error_iff fun _ => ⟨_, rfl⟩
  rw [hsame, Scheduler.setQuantum, refusal?]
  by_cases hq : quantum = 0
  · simp [hq]
  · simp [hq]

/-- `refusal?` says exactly which requests are refused. -/
theorem perform_eq_error_iff (m : Machine) (r : Request) (reason : Error) :
    m.perform r = .error reason ↔ m.refusal? r = some reason := by
  cases r with
  | load program => exact (bind_eq_error_iff fun _ => ⟨_, rfl⟩).trans (load_eq_error_iff program)
  | run pid => exact (bind_eq_error_iff fun _ => ⟨_, rfl⟩).trans run_eq_error_iff
  | setQuantum quantum =>
    exact (bind_eq_error_iff fun _ => ⟨_, rfl⟩).trans (setQuantum_eq_error_iff quantum)
  | kill pid => exact (bind_eq_error_iff fun _ => ⟨_, rfl⟩).trans kill_eq_error_iff
  | requestKill pid => exact (bind_eq_error_iff fun _ => ⟨_, rfl⟩).trans requestKill_eq_error_iff
  | _ => exact ⟨nofun, nofun⟩

end

end Machine

/-- Why a machine refuses a call, if it does. -/
def Call.refusal? (m : Machine) : Call → Option Error
  | .ask r => m.refusal? r
  | .policyNamed name =>
    match Policy.parse name with
    | .ok _ => none
    | .error reason => some reason
  | .settle _ => none

theorem Machine.call_eq_error_iff (m : Machine) (k : Call) (reason : Error) :
    m.call k = .error reason ↔ k.refusal? m = some reason := by
  cases k with
  | ask r => exact (bind_eq_error_iff fun _ => ⟨_, rfl⟩).trans (m.perform_eq_error_iff r reason)
  | policyNamed name =>
    refine (bind_eq_error_iff fun _ => ⟨_, rfl⟩).trans ?_
    rw [Call.refusal?]
    cases Policy.parse name with
    | ok policy => simp
    | error other => simp
  | settle limit => exact ⟨nofun, nofun⟩

namespace InPlace

/-- **A refused call changes nothing.** Whatever the machine of a session went through, a call that
is made in place is refused exactly for the reason that `Call.refusal?` names. It leaves machine,
screen and log then as they were, on every console, hence also on one that keeps each frame. What a
request leaves in place, refused or not, is what the session takes over from the machine; and the
shell answers the name of no policy with the reason alone. -/
theorem refused_changes_nothing {σ : Type} (c : Console σ) (s : Session σ) :
    (∀ k : Call, match k.refusal? s.machine with
      | some reason => (call c k).run s = .error reason s
      | none => ∃ answer s', (call c k).run s = .ok answer s') ∧
    (∀ r, (perform c r).outcome s = s.perform c r) ∧
    ∀ name reason, Policy.parse name = .error reason →
      (Command.policy name).execute c s = ({ text := s!"{reason.message}\n" }, s) := by
  refine ⟨fun k => ?_, outcome_perform c s, fun name reason h => ?_⟩
  · cases hrefusal : k.refusal? s.machine with
    | some reason =>
      have hcall := (s.machine.call_eq_error_iff k reason).2 hrefusal
      exact (tracks_call (c := c) k).refuses hcall s rfl
    | none =>
      cases hcall : s.machine.call k with
      | error reason =>
        rw [(s.machine.call_eq_error_iff k reason).1 hcall] at hrefusal
        cases hrefusal
      | ok t => exact ⟨_, _, (tracks_call k).follows hcall s rfl⟩
  · simp only [Command.execute, h]

/-- No partition is left for a third program. -/
example : (Machine.small.value.afterAll Machine.sharing).value.refusal? (.load []) =
    some .capacityExceeded := by decide +kernel

end InPlace

end Timeshare
