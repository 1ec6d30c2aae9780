import Timeshare.Proofs.Endings
import Timeshare.Proofs.Observation

/-!
# What programs print

A system call is serviced one tick after the instruction that asked for it, out of memory that other
processes had the use of in between, and for a process that may be gone by then. Even so a process
prints what its program prints alone, up to the last call before the process is killed.

`Solo.output` is what a program prints alone. `Machine.said` lists what the system calls of a run
print, each text with the process that it is printed for, and `Machine.texts_afterAll` says that
nothing else is printed.
-/
namespace Timeshare

/-! ## A program alone -/

/-- The text that starts at a place and ends before the first zero byte or behind the last byte, one
character for each byte. -/
def textFrom (bytes : List UInt8) (start : Nat) : String :=
  String.ofList (((bytes.drop start).takeWhile (· ≠ 0)).map fun b => Char.ofNat b.toNat)

/-- What a trap prints: a call with X = 1 the number in Y, one with X = 2 the text at Y. -/
def Trap.text? (bytes : List UInt8) : Trap → Option String
  | .call _ x y =>
    if x = 1 then some (toString y.toNat)
    else if x = 2 then some (textFrom bytes y.toNat)
    else none
  | _ => none

namespace Solo

/-- What the next cycle prints. -/
def text? (s : Solo) : Option String := s.trap?.bind (Trap.text? s.bytes)

/-- What a program prints in its first `n` cycles, or until it ends. -/
def output : Nat → Solo → List String
  | 0, _ => []
  | n + 1, s => s.text?.toList ++ if s.ending then [] else output n s.step

theorem text?_of_ending {s : Solo} (h : s.ending = true) : s.text? = none := by
  unfold text?
  unfold ending at h
  cases htrap : s.trap? with
  | none => rfl
  | some trap =>
    rw [htrap] at h
    cases trap with
    | call accumulator x y => cases h
    | _ => rfl

/-- One cycle more adds what that cycle prints. -/
theorem output_succ {s : Solo} {n : Nat} (h : ∀ j < n, (step^[j] s).ending = false) :
    s.output (n + 1) = s.output n ++ (step^[n] s).text?.toList := by
  induction n generalizing s with
  | zero =>
    rw [output, output]
    show s.text?.toList ++ (if s.ending then [] else []) = [] ++ s.text?.toList
    rw [ite_self, List.append_nil, List.nil_append]
  | succ n ih =>
    have hfirst : s.ending = false := h 0 (Nat.succ_pos n)
    have hlater : ∀ j < n, (step^[j] s.step).ending = false := fun j hj =>
      h (j + 1) (Nat.succ_lt_succ hj)
    rw [output, ih hlater, output, hfirst, List.append_assoc]
    rfl

/-- After its end a program prints nothing. -/
theorem output_of_ending {s : Solo} {j : Nat} (h : ∀ i < j, (step^[i] s).ending = false)
    (hend : (step^[j] s).ending = true) {n : Nat} (hn : j ≤ n) : s.output n = s.output j := by
  induction j generalizing s n with
  | zero =>
    cases n with
    | zero => rfl
    | succ n =>
      have hfirst : s.ending = true := hend
      rw [output, output, text?_of_ending hfirst, hfirst]
      rfl
  | succ j ih =>
    obtain ⟨n, rfl⟩ : ∃ k, n = k + 1 := ⟨n - 1, by omega⟩
    have hlater : ∀ i < j, (step^[i] s.step).ending = false := fun i hi =>
      h (i + 1) (Nat.succ_lt_succ hi)
    rw [output, output, ih hlater hend (Nat.le_of_succ_le_succ hn)]

/-- More cycles only add to what is printed. -/
theorem output_prefix {s : Solo} {j n : Nat} (h : j ≤ n) : s.output j <+: s.output n := by
  induction j generalizing s n with
  | zero => exact List.nil_prefix
  | succ j ih =>
    obtain ⟨n, rfl⟩ : ∃ k, n = k + 1 := ⟨n - 1, by omega⟩
    rw [output, output, List.prefix_append_right_inj]
    split
    · exact List.nil_prefix
    · exact ih (Nat.le_of_succ_le_succ h)

/-- A call leaves the bytes as they are. -/
theorem bytes_step_of_call {s : Solo} {accumulator x y : UInt8}
    (h : s.trap? = some (.call accumulator x y)) : s.step.bytes = s.bytes := by
  have hcell : ∀ next : UInt8 → Solo, (s.onCell next).2 ≠ some (.call accumulator x y) := by
    intro next
    unfold onCell
    cases s.bytes[s.address]? <;> simp
  unfold trap? at h
  unfold step
  unfold cycle at h ⊢
  cases hd : Opcode.decode? (s.ahead 0) with
  | none => rfl
  | some opcode =>
    simp only [hd] at h
    cases opcode with
    | systemCall => rfl
    | loadConstant target => cases h
    | noOperation => cases h
    | breakpoint => cases h
    | branch => cases h
    | load target => exact absurd h (hcell _)
    | store => exact absurd h (hcell _)
    | add => exact absurd h (hcell _)
    | compare => exact absurd h (hcell _)
    | increment => exact absurd h (hcell _)

end Solo

namespace Machine

open Traced

/-! ## Who prints what -/

/-- What the service of an interrupt prints, and for whom. -/
def saidFor (m : Machine) : Interrupt → List (Pid × String)
  | .sysCall pid accumulator x y => (m.systemCall pid accumulator x y).texts.map (pid, ·)
  | _ => []

/-- What the service of a batch prints. -/
def saidIn (m : Machine) : List Interrupt → List (Pid × String)
  | [] => []
  | i :: batch => m.saidFor i ++ (m.service i).value.saidIn batch

/-- What a tick prints. -/
def saidInTick (m : Machine) : List (Pid × String) :=
  m.awake.saidIn m.interrupts.pending.toList

/-- What the system calls of a run print, in order. -/
def said (m : Machine) (ops : List Operation) : List (Pid × String) :=
  (m.ticksIn ops).flatMap saidInTick

/-- The texts that are printed for one process. -/
def textsOf (pid : Pid) (said : List (Pid × String)) : List String :=
  (said.filter (·.1 = pid)).map Prod.snd

theorem textsOf_append (pid : Pid) (l l' : List (Pid × String)) :
    textsOf pid (l ++ l') = textsOf pid l ++ textsOf pid l' := by
  rw [textsOf, List.filter_append, List.map_append]
  rfl

/-! ## Nothing else is printed -/

@[simp]
theorem texts_showProcesses (m : Machine) : m.showProcesses.texts = [] := rfl

@[simp]
theorem texts_showAll (m : Machine) : m.showAll.texts = [] := rfl

@[simp]
theorem texts_switchAndShow (m : Machine) : m.switchAndShow.texts = [] := by
  rw [texts, frames_switchAndShow]
  rfl

theorem texts_terminate {m : Machine} {pid : Pid} {t : Traced Machine}
    (h : m.terminate pid = .ok t) : t.texts = [] := by
  unfold terminate at h
  split at h
  · obtain rfl := Except.ok.inj h
    exact texts_switchAndShow _
  · split at h
    · cases h
    · obtain rfl := Except.ok.inj h
      rfl

theorem texts_kill {m : Machine} {pid : Pid} {t : Traced Machine} (h : m.kill pid = .ok t) :
    t.texts = [] := by
  obtain ⟨ended, hend, rfl⟩ := kill_eq_ok h
  simp [texts_terminate hend]

@[simp]
theorem texts_terminateRaiser (m : Machine) (pid : Pid) (kind : String) :
    (m.terminateRaiser pid kind).texts = [] := by
  unfold terminateRaiser
  split
  · rename_i hend
    exact texts_terminate hend
  · rfl

@[simp]
theorem texts_turnNow (m : Machine) : m.turnNow.texts = [] := by
  cases hc : m.current with
  | none =>
    rw [turnNow, hc]
    rfl
  | some p =>
    rw [texts, frames_turnNow hc]
    rfl

@[simp]
theorem texts_cycle (m : Machine) : m.cycle.texts = [] := by
  cases hc : m.current with
  | none =>
    rw [cycle, hc]
    rfl
  | some p =>
    rw [cycle_eq hc]
    split <;> simp

/-- Only the service of a system call prints. -/
theorem texts_service (m : Machine) (i : Interrupt) :
    (m.service i).texts = (m.saidFor i).map Prod.snd := by
  unfold service
  rw [texts_bind, texts_report, List.nil_append]
  cases i with
  | timer =>
    simp only [saidFor]
    split <;> simp
  | keyboard key => simp [saidFor, texts]
  | sysCall pid accumulator x y => simp [saidFor, List.map_map]
  | step =>
    simp only [saidFor]
    split <;> simp
  | unknownOpcode pid opcode counter => simp [saidFor]
  | memoryFault pid address => simp [saidFor]
  | cpuBreak pid => simp [saidFor]
  | disk request => simp [saidFor, texts]
  | kill pid =>
    simp only [saidFor]
    split
    · rename_i hkill
      exact texts_kill hkill
    · rfl

theorem texts_serviceAll (m : Machine) (batch : List Interrupt) :
    (m.serviceAll batch).texts = (m.saidIn batch).map Prod.snd := by
  induction batch generalizing m with
  | nil => rfl
  | cons i batch ih =>
    rw [serviceAll_cons, texts_bind, texts_service, ih, saidIn, List.map_append]

theorem texts_tick (m : Machine) : m.tick.texts = m.saidInTick.map Prod.snd := by
  rw [tick_eq, texts_bind, texts_bind, texts_serviceAll]
  split <;> simp [saidInTick]

theorem texts_settle (n : Nat) (m : Machine) :
    (m.settle n).texts = ((m.settleTicks n).flatMap saidInTick).map Prod.snd := by
  induction n generalizing m with
  | zero => rfl
  | succ n ih =>
    rw [settle, settleTicks]
    split
    · rfl
    · simp [ih, texts_tick]

theorem texts_load {m : Machine} {program : List UInt8} {t : Traced (Pid × Machine)}
    (h : m.load program = .ok t) : t.texts = [] := by
  obtain ⟨accepted, -, ht⟩ := exists_of_bind_eq_ok h
  obtain rfl := Except.ok.inj ht
  simp

theorem texts_run {m : Machine} {pid : Pid} {t : Traced Machine} (h : m.run pid = .ok t) :
    t.texts = [] := by
  unfold run at h
  split at h
  · obtain rfl := Except.ok.inj h
    rfl
  · split at h
    · cases h
    · split at h
      · obtain rfl := Except.ok.inj h
        rfl
      · obtain rfl := Except.ok.inj h
        simp [start]

theorem texts_runAll (m : Machine) : m.runAll.texts = [] := by
  unfold runAll
  split
  · rfl
  · simp only
    split
    · simp [start]
    · rfl

theorem texts_perform {m : Machine} {r : Request} {t : Traced (Reply × Machine)}
    (hr : r.takesTick = false) (h : m.perform r = .ok t) : t.texts = [] := by
  cases performed h with
  | load hload => exact (texts_map _ _).trans (texts_load hload)
  | run hrun => exact (texts_map _ _).trans (texts_run hrun)
  | runAll => exact (texts_map _ _).trans m.texts_runAll
  | step => cases hr
  | tick => cases hr
  | kill hkill => exact (texts_map _ _).trans (texts_kill hkill)
  | _ => rfl

theorem texts_after (m : Machine) (op : Operation) :
    (m.after op).texts = ((m.ticksOf op).flatMap saidInTick).map Prod.snd := by
  cases op with
  | settle limit =>
    rw [after, texts_map]
    exact texts_settle limit m
  | ask r =>
    cases htick : r.takesTick with
    | true =>
      cases r with
      | tick =>
        show (Prod.snd <$> (Reply.done, ·) <$> m.tick).texts = (m.saidInTick ++ []).map Prod.snd
        rw [texts_map, texts_map, texts_tick, List.append_nil]
      | step =>
        show (Prod.snd <$> (Reply.done, ·) <$> (m.interrupt .step).tick).texts =
          ((m.interrupt .step).saidInTick ++ []).map Prod.snd
        rw [texts_map, texts_map, texts_tick, List.append_nil]
      | _ => cases htick
    | false =>
      rw [ticksOf_of_takesTick_eq_false htick, after]
      cases hp : m.perform r with
      | error reason => rfl
      | ok outcome => exact (texts_map _ _).trans (texts_perform htick hp)

/-- All that a run prints is printed by system calls. -/
theorem texts_afterAll (m : Machine) (ops : List Operation) :
    (m.afterAll ops).texts = (m.said ops).map Prod.snd := by
  induction ops generalizing m with
  | nil => rfl
  | cons op ops ih =>
    rw [afterAll_cons, texts_bind, texts_after, ih, said, said, ticksIn, List.flatMap_append,
      List.map_append]

end Machine

end Timeshare
