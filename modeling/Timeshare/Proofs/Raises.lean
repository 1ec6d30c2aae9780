import Timeshare.Proofs.Moves
import Timeshare.Proofs.Solo

/-!
# What cycles raise

A cycle raises at most one interrupt, and that is a trap of the process that ran the cycle. What is
raised waits behind everything that waited before: no service takes anything out of the queue, and
only cycles put something in.
-/
namespace Timeshare

namespace Effect

/-- The effect raises at most a trap of the process. -/
def Traps (pid : Pid) (e : Effect) : Prop := ∀ i ∈ e.raised, ∃ trap, i = Trap.interrupt pid trap

variable {p : Process} {m : Memory} {r : Registers}

theorem traps_quiet : Traps p.pid ⟨r, m, none⟩ := fun _ hi => nomatch hi

theorem traps_fault (address : Nat) : (fault p m r address).Traps p.pid := fun _ hi =>
  ⟨.badAddress address, (Option.some.inj hi).symm⟩

theorem traps_withOperand {next : Registers → UInt8 → Effect}
    (h : ∀ r byte, (next r byte).Traps p.pid) : (withOperand p m r next).Traps p.pid := by
  unfold withOperand
  simp only
  split
  · exact h _ _
  · exact traps_fault _

theorem traps_withAddress {next : Registers → Nat → Effect}
    (h : ∀ r address, (next r address).Traps p.pid) : (withAddress p m r next).Traps p.pid :=
  traps_withOperand fun _ _ => traps_withOperand fun _ _ => h _ _

theorem traps_withCell {next : Registers → Nat → UInt8 → Effect}
    (h : ∀ r address byte, (next r address byte).Traps p.pid) :
    (withCell p m r next).Traps p.pid := by
  refine traps_withAddress fun r address => ?_
  split
  · exact h _ _ _
  · exact traps_fault _

theorem traps_storing (address : Nat) (byte : UInt8) :
    (storing p m r address byte).Traps p.pid := by
  unfold storing
  split
  · exact traps_quiet
  · exact traps_fault _

/-- Whatever an instruction raises is a trap of its process. -/
theorem traps_ofOpcode (opcode : Opcode) : (ofOpcode p m r opcode).Traps p.pid := by
  cases opcode with
  | loadConstant target => exact traps_withOperand fun _ _ => traps_quiet
  | load target => exact traps_withCell fun _ _ _ => traps_quiet
  | store => exact traps_withAddress fun _ _ => traps_storing _ _
  | add => exact traps_withCell fun _ _ _ => traps_quiet
  | noOperation => exact traps_quiet
  | breakpoint => exact fun _ hi => ⟨.breakpoint, (Option.some.inj hi).symm⟩
  | compare => exact traps_withCell fun _ _ _ => traps_quiet
  | branch => exact traps_withOperand fun _ _ => traps_quiet
  | increment => exact traps_withCell fun _ _ _ => traps_storing _ _
  | systemCall => exact fun _ hi => ⟨.call r.accumulator r.x r.y, (Option.some.inj hi).symm⟩

end Effect

theorem Processor.traps_cycle (c : Processor) (p : Process) (m : Memory) :
    ∀ i ∈ (c.cycle p m).value.raised, ∃ trap, i = Trap.interrupt p.pid trap := by
  unfold cycle
  simp only
  split
  · exact Effect.traps_fault (m := m) (r := c.registers) _
  · rename_i byte _
    split
    · exact fun _ hi => ⟨.badOpcode byte c.registers.counter, (Option.some.inj hi).symm⟩
    · exact Effect.traps_ofOpcode _

namespace Machine

open Traced

/-- Every cycle of a run raises at most a trap of its process. -/
theorem traps_of_moves {m m' : Machine} {ts : List Turn} (h : Moves m ts m') :
    ∀ t ∈ ts, ∀ i ∈ t.raised, ∃ trap, i = Trap.interrupt t.pid trap := by
  induction h with
  | refl => exact fun t ht => absurd ht List.not_mem_nil
  | head hmove _ ih =>
    intro t ht i hi
    rcases List.mem_append.1 ht with ht | ht
    · cases hmove with
      | turn hc =>
        obtain rfl := List.mem_singleton.1 ht
        exact Processor.traps_cycle _ _ _ i hi
      | _ => cases ht
    · exact ih t ht i hi

/-- After the computation the same interrupts wait, and behind them those that its cycles raised. -/
def Raises (m : Machine) (t : Traced Machine) : Prop :=
  t.value.interrupts.pending.toList =
    m.interrupts.pending.toList ++ t.turns.filterMap Turn.raised

section

variable {m : Machine} {t : Traced Machine}

theorem raises_nothing (hvalue : t.value.interrupts = m.interrupts) (hturns : t.turns = []) :
    m.Raises t := by
  rw [Raises, hvalue, hturns, List.filterMap_nil, List.append_nil]

theorem raises_pure (m : Machine) : m.Raises (pure m) := raises_nothing rfl rfl

theorem Raises.bind {f : Machine → Traced Machine} (h : m.Raises t)
    (hf : t.value.Raises (f t.value)) : m.Raises (t >>= f) := by
  unfold Raises at h hf ⊢
  rw [value_bind, hf, h, turns_bind, List.filterMap_append, List.append_assoc]

theorem Raises.behind {α : Type} {x : Traced α} {f : α → Traced Machine} (hx : x.turns = [])
    (h : m.Raises (f x.value)) : m.Raises (x >>= f) := by
  unfold Raises
  rw [turns_bind, hx]
  exact h

theorem raises_switchAndShow {p : Process} (hc : m.current = some p) :
    m.Raises m.switchAndShow := by
  refine raises_nothing ?_ m.turns_switchAndShow
  rw [value_switchAndShow]
  cases switched hc with
  | alone _ _ h | rotate _ _ h | halt _ _ h | retire _ _ h =>
    rw [h]
    rfl

theorem interrupts_terminateCurrent (m : Machine) (p : Process) :
    (m.terminateCurrent p).value.interrupts = m.interrupts := by
  rw [value_terminateCurrent]
  cases m.ready.toList <;> rfl

theorem raises_terminate {pid : Pid} (h : m.terminate pid = .ok t) : m.Raises t := by
  rcases terminate_eq_ok h with ⟨p, -, -, rfl⟩ | ⟨p, before, after, -, -, -, -, hvalue, hturns⟩
  · exact raises_nothing (interrupts_terminateCurrent m p) (turns_switchAndShow _)
  · refine raises_nothing ?_ hturns
    rw [hvalue]
    rfl

theorem raises_kill {pid : Pid} (h : m.kill pid = .ok t) : m.Raises t := by
  obtain ⟨ended, hend, rfl⟩ := kill_eq_ok h
  exact (raises_terminate hend).bind (.behind rfl (raises_pure _))

theorem raises_terminateRaiser (m : Machine) (pid : Pid) (kind : String) :
    m.Raises (m.terminateRaiser pid kind) := by
  unfold terminateRaiser
  split
  · rename_i hend
    exact raises_terminate hend
  · exact .behind rfl (raises_pure m)

theorem raises_turnNow (m : Machine) : m.Raises m.turnNow := by
  cases hc : m.current with
  | none =>
    rw [turnNow, hc]
    exact raises_pure m
  | some p =>
    rw [Raises, value_turnNow hc, turns_turnNow hc, pending_turned]
    cases (m.processor.cycle p m.memory).value.raised <;> rfl

theorem raises_cycle (m : Machine) : m.Raises m.cycle := by
  cases hc : m.current with
  | none =>
    rw [cycle, hc]
    exact raises_pure m
  | some p =>
    rw [cycle_eq hc]
    split
    · exact (raises_switchAndShow hc).bind (raises_turnNow _)
    · exact (raises_pure m).bind (raises_turnNow m)

theorem raises_service (m : Machine) (i : Interrupt) : m.Raises (m.service i) := by
  unfold service
  refine .behind rfl ?_
  cases i with
  | timer =>
    cases hc : m.current with
    | none => exact raises_pure m
    | some p =>
      simp only [Option.isSome_some, Bool.true_and]
      split
      · exact raises_switchAndShow hc
      · exact raises_pure m
  | keyboard key => exact .behind (turns_keyboardService _ _) (raises_nothing rfl rfl)
  | sysCall pid accumulator x y => exact .behind (turns_systemCall m _ _ _ _) (raises_pure m)
  | step =>
    simp only
    split
    · exact raises_cycle m
    · exact .behind rfl (raises_pure m)
  | unknownOpcode pid opcode counter => exact .behind rfl (raises_terminateRaiser m pid _)
  | memoryFault pid address => exact .behind rfl (raises_terminateRaiser m pid _)
  | cpuBreak pid => exact .behind rfl (raises_terminateRaiser m pid _)
  | disk request => exact .behind (turns_storageService _ _) (raises_nothing rfl rfl)
  | kill pid =>
    simp only
    split
    · rename_i hkill
      exact raises_kill hkill
    · exact .behind rfl (raises_pure m)

theorem raises_serviceAll (m : Machine) (batch : List Interrupt) :
    m.Raises (m.serviceAll batch) := by
  induction batch generalizing m with
  | nil => exact raises_pure m
  | cons i batch ih =>
    rw [serviceAll_cons]
    exact (raises_service m i).bind (ih _)

/-- After a tick, what its cycles raised waits and nothing else. -/
theorem raises_tick (m : Machine) : m.awake.Raises m.tick := by
  rw [tick_eq]
  refine .behind rfl ((raises_serviceAll _ _).bind ?_)
  split
  · exact raises_cycle _
  · exact raises_pure _

/-- What is not raised by programs does not wait after a tick. -/
theorem filterMap_pending_tick {α : Type} {f : Interrupt → Option α} (m : Machine)
    (hf : ∀ pid trap, f (Trap.interrupt pid trap) = none) :
    m.tick.value.interrupts.pending.toList.filterMap f = [] := by
  have hpending : m.tick.value.interrupts.pending.toList = m.tick.turns.filterMap Turn.raised :=
    m.raises_tick
  rw [hpending, List.filterMap_eq_nil_iff]
  intro i hi
  obtain ⟨t, ht, hraised⟩ := List.mem_filterMap.1 hi
  obtain ⟨trap, rfl⟩ := traps_of_moves (movesTo_tick m) t ht i hraised
  exact hf t.pid trap

end

end Machine

end Timeshare
