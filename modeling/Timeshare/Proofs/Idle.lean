import Timeshare.Proofs.Displays

/-!
# Idle machines

A machine is idle when no interrupt waits and no process executes on its own. A tick of it has
nothing to do but advance the clock. So it makes no difference to anything else whether ticks stop
once the machine is idle or go on to a given number. Settling is the former: it stops at the first
tick after which the machine is idle, and may as well be done in parts.
-/
namespace Timeshare

namespace Machine

open Traced

/-- A tick of an idle machine advances the clock and shows nothing. -/
theorem tick_of_isIdle {m : Machine} (h : m.isIdle = true) :
    m.tick = (do
      report (.ticking (m.clock + 1) 0)
      pure { m with clock := m.clock + 1 }) := by
  simp only [isIdle, Bool.and_eq_true, Bool.not_eq_true'] at h
  obtain ⟨hempty, hstill⟩ := h
  have hpending : m.interrupts = {} := congrArg InterruptQueue.mk (Array.isEmpty_iff.1 hempty)
  have hnothing : m.interrupts.pending.toList = [] := by rw [hpending]
  have hlength : m.interrupts.length = 0 := by
    rw [hpending]
    rfl
  have hawake : m.awake = { m with clock := m.clock + 1 } := by
    rw [awake, ← hpending]
  rw [tick_eq, hnothing, hlength, hawake]
  refine congrArg (report (.ticking (m.clock + 1) 0) >>= ·) (funext fun _ => ?_)
  rw [serviceAll, List.foldl_nil, pure_bind]
  split
  · rename_i hexecuting
    -- the processor executes, but there is no process
    have hc : m.current = none := by
      rw [show m.processor.executing = true from hexecuting, Bool.true_and] at hstill
      simpa using hstill
    simp only [cycle, hc]
  · rfl

/-- Whether a machine is idle does not depend on the clock. -/
theorem isIdle_of_clock (m : Machine) (clock : Nat) : { m with clock }.isIdle = m.isIdle := rfl

end Machine

namespace Session

variable {σ : Type} (c : Console σ)

/-- A tick of an idle machine advances the clock and shows nothing. -/
theorem follow_tick_of_isIdle {s : Session σ} (h : s.machine.isIdle = true) :
    (s.follow c s.machine.tick).machine = { s.machine with clock := s.machine.clock + 1 } ∧
      (s.follow c s.machine.tick).screen = s.screen := by
  constructor
  · rw [machine_follow, Machine.tick_of_isIdle h]
    rfl
  · rw [Machine.tick_of_isIdle h]
    exact screen_record _ _

/-- An idle machine stays idle. -/
theorem isIdle_follow_tick {s : Session σ} (h : s.machine.isIdle = true) :
    (s.follow c s.machine.tick).machine.isIdle = true := by
  rw [(s.follow_tick_of_isIdle c h).1, Machine.isIdle_of_clock]
  exact h

/-- Ticks of an idle machine advance the clock and show nothing. -/
theorem ticks_of_isIdle {s : Session σ} (h : s.machine.isIdle = true) (n : Nat) :
    (s.ticks c n).machine = { s.machine with clock := s.machine.clock + n } ∧
      (s.ticks c n).screen = s.screen := by
  induction n generalizing s with
  | zero => exact ⟨rfl, rfl⟩
  | succ n ih =>
    obtain ⟨hticked, hshown⟩ := s.follow_tick_of_isIdle c h
    obtain ⟨hmachine, hscreen⟩ := ih (s.isIdle_follow_tick c h)
    constructor
    · rw [ticks, hmachine, hticked, Nat.add_assoc, Nat.add_comm 1]
    · exact hscreen.trans hshown

/-- Ticks up to a number do what ticks until the machine is idle do, apart from the clock. -/
theorem ticks_agree_with_settle (n : Nat) (s : Session σ) :
    (∃ clock, (s.ticks c n).machine = { (s.settle c n).2.machine with clock }) ∧
      (s.ticks c n).screen = (s.settle c n).2.screen := by
  induction n generalizing s with
  | zero => exact ⟨⟨_, rfl⟩, rfl⟩
  | succ n ih =>
    rw [settle_succ]
    split
    · rename_i hidle
      obtain ⟨hmachine, hscreen⟩ := s.ticks_of_isIdle c hidle (n + 1)
      exact ⟨⟨_, hmachine⟩, hscreen⟩
    · exact ih _

theorem settle_of_isIdle {s : Session σ} (h : s.machine.isIdle = true) (n : Nat) :
    s.settle c n = (0, s) := by
  cases n with
  | zero => rfl
  | succ n => rw [settle_succ, if_pos h]

/-- Settling takes the ticks up to the first one after which the machine is idle, or all of them if
it never is. -/
theorem exists_settle_eq (n : Nat) (s : Session σ) :
    ∃ k ≤ n, s.settle c n = (k, s.ticks c k) ∧
      (∀ j < k, (s.ticks c j).machine.isIdle = false) ∧
      (k < n → (s.ticks c k).machine.isIdle = true) := by
  induction n generalizing s with
  | zero => exact ⟨0, Nat.le_refl 0, rfl, fun _ hj => absurd hj (Nat.not_lt_zero _),
      fun h => absurd h (Nat.not_lt_zero _)⟩
  | succ n ih =>
    by_cases hidle : s.machine.isIdle = true
    · exact ⟨0, Nat.zero_le _, s.settle_of_isIdle c hidle _,
        fun _ hj => absurd hj (Nat.not_lt_zero _), fun _ => hidle⟩
    · obtain ⟨k, hk, hsettled, hbusy, hstop⟩ := ih (s.follow c s.machine.tick)
      refine ⟨k + 1, Nat.succ_le_succ hk, ?_, fun j hj => ?_,
        fun hlt => hstop (Nat.lt_of_succ_lt_succ hlt)⟩
      · rw [settle_succ, if_neg hidle, hsettled]
        rfl
      · cases j with
        | zero => exact Bool.eq_false_iff.2 hidle
        | succ j => exact hbusy j (Nat.lt_of_succ_lt_succ hj)

/-- Settling can be interrupted and taken up again. -/
theorem settle_add (a b : Nat) (s : Session σ) :
    s.settle c (a + b) =
      let first := s.settle c a
      let second := first.2.settle c b
      (first.1 + second.1, second.2) := by
  induction a generalizing s with
  | zero =>
    rw [Nat.zero_add]
    exact Prod.ext (Nat.zero_add _).symm rfl
  | succ a ih =>
    rw [Nat.add_right_comm]
    by_cases hidle : s.machine.isIdle = true
    · simp only [s.settle_of_isIdle c hidle, Nat.add_zero]
    · rw [settle_succ, settle_succ, if_neg hidle, if_neg hidle, ih]
      exact Prod.ext (Nat.add_right_comm _ _ _) rfl

/-- **Idleness is exact.** Whatever state a session is in: if the machine is idle, a tick advances
the clock and changes nothing else in the machine, nothing is shown, and the machine is still idle.
Settling in `n` ticks takes the fewest ticks after which the machine is idle, or `n` if there are
none, and answers their number. Settling twice is settling once in the sum of the ticks. -/
theorem settle_exact (s : Session σ) :
    (s.machine.isIdle = true →
      let s' := s.follow c s.machine.tick
      s'.machine = { s.machine with clock := s.machine.clock + 1 } ∧
        s.machine.tick.frames = [] ∧ s'.screen = s.screen ∧ s'.machine.isIdle = true) ∧
    (∀ n, ∃ k ≤ n, s.settle c n = (k, s.ticks c k) ∧
      (∀ j < k, (s.ticks c j).machine.isIdle = false) ∧
      (k < n → (s.ticks c k).machine.isIdle = true)) ∧
    ∀ a b,
      let first := s.settle c a
      let second := first.2.settle c b
      (first.1 + second.1, second.2) = s.settle c (a + b) := by
  refine ⟨fun hidle => ?_, fun n => s.exists_settle_eq c n, fun a b => (s.settle_add c a b).symm⟩
  obtain ⟨hmachine, hscreen⟩ := s.follow_tick_of_isIdle c hidle
  refine ⟨hmachine, ?_, hscreen, s.isIdle_follow_tick c hidle⟩
  rw [Machine.tick_of_isIdle hidle]
  rfl

/-- A program that breaks at once is over after two ticks, in one go or with a stop after the
first. -/
theorem settle_exact_small :
    let c : Console (List Frame) := {
      draw := fun shown frame => (none, shown ++ [frame])
      write := fun shown _ => (none, shown) }
    let s : Session (List Frame) := {
      machine := (Machine.small.value.afterAll [.ask (.load []), .ask .runAll]).value
      screen := [] }
    s.machine.isIdle = false ∧ s.settle c 9 = (2, s.ticks c 2) ∧
      (s.ticks c 2).machine.isIdle = true ∧
      let first := s.settle c 1
      let second := first.2.settle c 8
      first.1 = 1 ∧ (first.1 + second.1, second.2) = (2, s.ticks c 2) := by
  intro c s
  obtain ⟨-, hleast, hadd⟩ := s.settle_exact c
  obtain ⟨k, hk, hsettled, hbusy, hstop⟩ := hleast 9
  have hcount : (s.settle c 9).1 = 2 := by decide +kernel
  have htwo : k = 2 := (congrArg Prod.fst hsettled).symm.trans hcount
  subst htwo
  exact ⟨hbusy 0 (by decide), hsettled, hstop (by decide), by decide +kernel,
    (hadd 1 8).trans hsettled⟩

end Session

end Timeshare
