import Timeshare.Proofs.Departures
import Timeshare.Proofs.Multiplexing
import Timeshare.Proofs.Steady

/-!
# The ticks of a run

Cycles are run in ticks and nowhere else, so a run is its ticks and what is done between them.
`Machine.Ticking` cuts a run in this way. What is done between ticks runs no cycle and raises only
what the console raises.

If the console raises no step interrupt but by `step`, a tick runs at most one cycle, and what that
cycle raises waits in front of everything that is raised after it. `Machine.Orderly` is the
invariant, and `Machine.AtTick.turns_tick` says what one tick does.
-/
namespace Timeshare

/-- The interrupts that a request raises from outside. -/
def Request.raises : Request → List Interrupt
  | .interrupt i => [i]
  | .requestKill pid => [.kill pid]
  | _ => []

/-- Whether a request takes a tick. -/
def Request.takesTick : Request → Bool
  | .tick => true
  | .step => true
  | _ => false

namespace Machine

open Traced

/-- The machines in which the ticks of `settle` are taken. -/
def settleTicks : Nat → Machine → List Machine
  | 0, _ => []
  | n + 1, m => if m.isIdle then [] else m :: settleTicks n m.tick.value

/-- The machines in which the ticks of an operation are taken. -/
def ticksOf (m : Machine) : Operation → List Machine
  | .ask .tick => [m]
  | .ask .step => [m.interrupt .step]
  | .ask _ => []
  | .settle limit => m.settleTicks limit

/-- The machines in which the ticks of a run are taken, in order. -/
def ticksIn (m : Machine) : List Operation → List Machine
  | [] => []
  | op :: ops => m.ticksOf op ++ (m.after op).value.ticksIn ops

theorem ticksIn_append (m : Machine) (ops ops' : List Operation) :
    m.ticksIn (ops ++ ops') = m.ticksIn ops ++ (m.afterAll ops).value.ticksIn ops' := by
  induction ops generalizing m with
  | nil => rfl
  | cons op ops ih =>
    rw [List.cons_append, ticksIn, ticksIn, ih, List.append_assoc]
    rfl

theorem ticksOf_of_takesTick_eq_false {m : Machine} {r : Request} (h : r.takesTick = false) :
    m.ticksOf (.ask r) = [] := by
  cases r with
  | tick => cases h
  | step => cases h
  | _ => rfl

/-! ## Requests between ticks -/

section

variable {m : Machine} {t : Traced Machine}

theorem turns_terminate {pid : Pid} (h : m.terminate pid = .ok t) : t.turns = [] := by
  rcases terminate_eq_ok h with ⟨p, -, -, rfl⟩ | ⟨p, before, after, -, -, -, -, -, ht⟩
  · exact turns_switchAndShow _
  · exact ht

theorem turns_kill {pid : Pid} (h : m.kill pid = .ok t) : t.turns = [] := by
  obtain ⟨ended, hend, rfl⟩ := kill_eq_ok h
  simp [turns_terminate hend]

theorem run_between {pid : Pid} (h : m.run pid = .ok t) :
    t.turns = [] ∧ t.value.interrupts = m.interrupts := by
  unfold run at h
  split at h
  · obtain rfl := Except.ok.inj h
    exact ⟨rfl, rfl⟩
  · split at h
    · cases h
    · split at h
      · obtain rfl := Except.ok.inj h
        exact ⟨rfl, rfl⟩
      · obtain rfl := Except.ok.inj h
        exact ⟨rfl, rfl⟩

theorem runAll_between (m : Machine) :
    m.runAll.turns = [] ∧ m.runAll.value.interrupts = m.interrupts := by
  unfold runAll
  split
  · exact ⟨rfl, rfl⟩
  · simp only
    split <;> exact ⟨rfl, rfl⟩

/-- A request that takes no tick runs no cycle, and what it raises waits behind the rest. -/
theorem perform_between {r : Request} {t : Traced (Reply × Machine)}
    (hr : r.takesTick = false) (h : m.perform r = .ok t) :
    t.turns = [] ∧
      t.value.2.interrupts.pending.toList = m.interrupts.pending.toList ++ r.raises := by
  have hsame : ∀ {q : InterruptQueue}, q = m.interrupts →
      q.pending.toList = m.interrupts.pending.toList ++ [] := fun hq => by
    rw [hq, List.append_nil]
  cases performed h with
  | load hload =>
    obtain ⟨hturns, -, partition, hloaded⟩ := load_eq_ok hload
    rw [turns_map, value_map, hturns, hloaded.machine_eq]
    exact ⟨rfl, hsame rfl⟩
  | run hrun =>
    obtain ⟨hturns, hinterrupts⟩ := run_between hrun
    rw [turns_map, value_map]
    exact ⟨hturns, hsame hinterrupts⟩
  | runAll =>
    obtain ⟨hturns, hinterrupts⟩ := m.runAll_between
    rw [turns_map, value_map]
    exact ⟨hturns, hsame hinterrupts⟩
  | step => cases hr
  | tick => cases hr
  | setQuantum _ => exact ⟨rfl, hsame rfl⟩
  | setPolicy => exact ⟨rfl, hsame rfl⟩
  | setSingleStep => exact ⟨rfl, hsame rfl⟩
  | kill hkill =>
    have hnone := turns_kill hkill
    have hraised := raises_kill hkill
    rw [Raises, hnone] at hraised
    rw [turns_map, value_map]
    exact ⟨hnone, hraised⟩
  | requestKill _ => exact ⟨rfl, Array.toList_push⟩
  | interrupt => exact ⟨rfl, Array.toList_push⟩
  | takeInput => exact ⟨rfl, hsame rfl⟩

end

/-! ## Cutting a run into ticks -/

/-- What is done between two ticks. What it raises from outside satisfies `A`. -/
inductive Between (A : Interrupt → Prop) : Machine → Machine → Prop
  | quiet {m m' : Machine} {raised : List Interrupt} (h : Moves m [] m')
      (hgear : m.InGear → m'.InGear)
      (hpending : m'.interrupts.pending.toList = m.interrupts.pending.toList ++ raised)
      (hraised : ∀ i ∈ raised, A i) : Between A m m'
  | load {m m' : Machine} {program : List UInt8} {partition : Nat}
      (h : Loaded m m' program partition) (hid : m.nextPid.toNat + 1 < UInt32.size) :
      Between A m m'

/-- A run from `m` to `m'` whose ticks are taken in the machines `ticks`. A step interrupt is raised
only for the tick that follows at once. -/
inductive Ticking (A : Interrupt → Prop) : Machine → List Machine → Machine → Prop
  | refl (m : Machine) : Ticking A m [] m
  | between {m m₁ m₂ : Machine} {ticks : List Machine} (h : Between A m m₁)
      (hs : Ticking A m₁ ticks m₂) : Ticking A m ticks m₂
  | tick {m m₁ m₂ : Machine} {ticks : List Machine} (h : m₁ = m ∨ m₁ = m.interrupt .step)
      (hs : Ticking A m₁.tick.value ticks m₂) : Ticking A m (m₁ :: ticks) m₂

section

variable {A : Interrupt → Prop} {s : Settings} {loads : Nat} {m m₁ m₂ : Machine}
  {before after : List Machine}

theorem Ticking.trans (h : Ticking A m before m₁) (h' : Ticking A m₁ after m₂) :
    Ticking A m (before ++ after) m₂ := by
  induction h with
  | refl => exact h'
  | between hbetween _ ih => exact .between hbetween (ih h')
  | tick htick _ ih => exact .tick htick (ih h')

/-- A run is cut in two at any of its ticks. -/
theorem Ticking.split (h : Ticking A m (before ++ m₁ :: after) m₂) :
    ∃ m₀, Ticking A m before m₀ ∧ (m₁ = m₀ ∨ m₁ = m₀.interrupt .step) ∧
      Ticking A m₁.tick.value after m₂ := by
  generalize hticks : before ++ m₁ :: after = ticks at h
  induction h generalizing before with
  | refl => exact absurd hticks (by simp)
  | between hbetween _ ih =>
    obtain ⟨m₀, hbefore, htick, hafter⟩ := ih hticks
    exact ⟨m₀, .between hbetween hbefore, htick, hafter⟩
  | tick htick hs ih =>
    rename_i m first _ _
    cases before with
    | nil =>
      obtain ⟨rfl, rfl⟩ := List.cons.inj hticks
      exact ⟨m, .refl m, htick, hs⟩
    | cons x before =>
      obtain ⟨rfl, hrest⟩ := List.cons.inj hticks
      obtain ⟨m₀, hbefore, htick', hafter⟩ := ih hrest
      exact ⟨m₀, .tick htick hbefore, htick', hafter⟩

theorem ticking_settle (A : Interrupt → Prop) (n : Nat) (m : Machine) :
    Ticking A m (m.settleTicks n) (m.settle n).value.2 := by
  induction n generalizing m with
  | zero => exact .refl m
  | succ n ih =>
    rw [settle, settleTicks]
    split
    · exact .refl m
    · exact .tick (.inl rfl) (ih m.tick.value)

theorem ticking_after {op : Operation} (hraises : ∀ r, op = .ask r → ∀ i ∈ r.raises, A i)
    (hid : m.nextPid.toNat + (m.grantsLoad op).toNat < UInt32.size) :
    Ticking A m (m.ticksOf op) (m.after op).value := by
  cases op with
  | settle limit => exact ticking_settle A limit m
  | ask r =>
    cases htick : r.takesTick with
    | true =>
      cases r with
      | tick => exact .tick (.inl rfl) (.refl _)
      | step => exact .tick (.inr rfl) (.refl _)
      | _ => cases htick
    | false =>
      rw [ticksOf_of_takesTick_eq_false htick]
      cases hgrant : m.grantsLoad (.ask r) with
      | true =>
        obtain ⟨program, t, hop, hok⟩ := exists_load_of_grantsLoad hgrant
        cases hop
        obtain ⟨-, -, partition, hloaded⟩ := load_eq_ok hok
        rw [(after_load hok).2.1]
        rw [hgrant] at hid
        exact .between (.load hloaded hid) (.refl _)
      | false =>
        have hmoves := moves_after hgrant
        rw [after] at hmoves ⊢
        cases hp : m.perform r with
        | error reason => exact .refl m
        | ok outcome =>
          obtain ⟨hturns, hpending⟩ := perform_between htick hp
          simp only [hp, turns_map, hturns] at hmoves
          exact .between (.quiet hmoves (inGear_perform hp) hpending (hraises r rfl)) (.refl _)

/-- Every run is a run of ticks. -/
theorem Owned.ticking_afterAll (ops : List Operation) (hm : m.Owned s loads)
    (hraises : ∀ r, .ask r ∈ ops → ∀ i ∈ r.raises, A i)
    (hloads : loads + m.loadsIn ops < UInt32.size) :
    Ticking A m (m.ticksIn ops) (m.afterAll ops).value := by
  induction ops generalizing m loads with
  | nil => exact .refl m
  | cons op ops ih =>
    rw [loadsIn, ← Nat.add_assoc] at hloads
    have hone : loads + (m.grantsLoad op).toNat < UInt32.size :=
      Nat.lt_of_le_of_lt (Nat.le_add_right _ _) hloads
    refine Ticking.trans ?_
      (ih (hm.after op hone) (fun r hr => hraises r (List.mem_cons_of_mem _ hr)) hloads)
    refine ticking_after (fun r hr => hraises r (hr ▸ List.mem_cons_self)) ?_
    rw [hm.toNat_nextPid]
    exact hone

end

theorem turns_settle (n : Nat) (m : Machine) :
    (m.settle n).turns = (m.settleTicks n).flatMap (·.tick.turns) := by
  induction n generalizing m with
  | zero => rfl
  | succ n ih =>
    rw [settle, settleTicks]
    split
    · rfl
    · simp [ih]

theorem turns_after (m : Machine) (op : Operation) :
    (m.after op).turns = (m.ticksOf op).flatMap (·.tick.turns) := by
  cases op with
  | settle limit =>
    rw [after, turns_map]
    exact turns_settle limit m
  | ask r =>
    cases htick : r.takesTick with
    | true =>
      cases r with
      | tick =>
        show (Prod.snd <$> (Reply.done, ·) <$> m.tick).turns = m.tick.turns ++ []
        rw [turns_map, turns_map, List.append_nil]
      | step =>
        show (Prod.snd <$> (Reply.done, ·) <$> m.step).turns = m.step.turns ++ []
        rw [turns_map, turns_map, List.append_nil]
      | _ => cases htick
    | false =>
      rw [ticksOf_of_takesTick_eq_false htick, after]
      cases hp : m.perform r with
      | error reason => rfl
      | ok outcome => exact (turns_map _ _).trans (perform_between htick hp).1

/-- The cycles of a run are those of its ticks. -/
theorem turns_afterAll (m : Machine) (ops : List Operation) :
    (m.afterAll ops).turns = (m.ticksIn ops).flatMap (·.tick.turns) := by
  induction ops generalizing m with
  | nil => rfl
  | cons op ops ih =>
    rw [afterAll_cons, turns_bind, ticksIn, List.flatMap_append, turns_after, ih]

/-! ## What a cycle raises -/

section

variable {s : Settings} {loads : Nat} {m m' : Machine} {ts : List Turn}

/-- A cycle belongs to a resident process, and it raises what the program of that process traps,
after the steps that it took before. -/
theorem Owned.turn_eq (hm : m.Owned s loads) (h : Moves m ts m') {before after : List Turn}
    {t : Turn} (hts : ts = before ++ t :: after) :
    ∃ r ∈ m.residents, r.pid = t.pid ∧
      t.raised = (Solo.step^[cyclesOf t.pid before] (r.solo m.memory)).trap?.map
        (Trap.interrupt t.pid) := by
  induction h generalizing before with
  | refl => exact absurd hts (by simp)
  | head hmove hs ih =>
    rename_i m m₁ m₂ ts us
    have hcontinues := hm.continues (.single hmove)
    have hshift := shift_of_move hm.housed hmove
    -- a cycle behind this move is one of a resident that was there before the move
    have hbehind : ∀ {before'}, us = before' ++ t :: after → before = ts ++ before' →
        ∃ r ∈ m.residents, r.pid = t.pid ∧
          t.raised = (Solo.step^[cyclesOf t.pid before] (r.solo m.memory)).trap?.map
            (Trap.interrupt t.pid) := by
      intro before' hus hbefore
      obtain ⟨r₁, hr₁, hpid₁, hraised⟩ := ih (hm.move hmove) hus
      obtain ⟨r, hr, hpid, hsolo⟩ := hcontinues r₁ hr₁
      refine ⟨r, hr, hpid.trans hpid₁, ?_⟩
      rw [hraised, hsolo, hpid₁, hbefore, cyclesOf_append, Nat.add_comm (cyclesOf _ ts),
        Function.iterate_add_apply]
    cases hshift with
    | stay => exact hbehind hts rfl
    | leave => exact hbehind hts rfl
    | turn hr hr' hstep hlayout hothers =>
      rename_i r registers rest
      cases before with
      | nil =>
        obtain ⟨rfl, -⟩ := List.cons.inj hts
        exact ⟨r, hr ▸ List.mem_cons_self, rfl, rfl⟩
      | cons x before' =>
        obtain ⟨rfl, hus⟩ := List.cons.inj hts
        exact hbehind hus rfl

theorem mem_pids_of_mem_residents {r : Resident} (h : r ∈ m.residents) : r.pid ∈ m.pids := by
  rw [pids, ← map_pid_residents]
  exact List.mem_map_of_mem h

theorem exists_resident_of_mem_pids {pid : Pid} (h : pid ∈ m.pids) :
    ∃ r ∈ m.residents, r.pid = pid := by
  rw [pids, ← map_pid_residents] at h
  exact List.mem_map.1 h

/-- Only residents get cycles. -/
theorem Owned.mem_pids_of_turn (hm : m.Owned s loads) (h : Moves m ts m') {t : Turn}
    (ht : t ∈ ts) : t.pid ∈ m.pids := by
  obtain ⟨before, after, hts⟩ := List.append_of_mem ht
  obtain ⟨r, hr, hpid, -⟩ := hm.turn_eq h hts
  rw [← hpid]
  exact mem_pids_of_mem_residents hr

theorem Owned.mem_pids_of_cyclesOf (hm : m.Owned s loads) (h : Moves m ts m') {pid : Pid}
    (hcycle : 0 < cyclesOf pid ts) : pid ∈ m.pids := by
  obtain ⟨t, ht, hpid⟩ := List.countP_pos_iff.1 hcycle
  obtain rfl : t.pid = pid := of_decide_eq_true hpid
  exact hm.mem_pids_of_turn h ht

/-- Without a load nobody comes. -/
theorem Owned.mem_pids_of_moves (hm : m.Owned s loads) (h : Moves m ts m') {pid : Pid}
    (hpid : pid ∈ m'.pids) : pid ∈ m.pids := by
  obtain ⟨r', hr', rfl⟩ := exists_resident_of_mem_pids hpid
  obtain ⟨r, hr, hpid', -⟩ := hm.continues h r' hr'
  rw [← hpid']
  exact mem_pids_of_mem_residents hr

/-- Residents with the same id are the same. -/
theorem Owned.resident_ext (hm : m.Owned s loads) {r r' : Resident} (hr : r ∈ m.residents)
    (hr' : r' ∈ m.residents) (h : r.pid = r'.pid) : r = r' :=
  List.inj_on_of_nodup_map hm.pids_nodup hr hr' h

theorem Owned.pid_lt_of_mem_pids (hm : m.Owned s loads) {pid : Pid} (h : pid ∈ m.pids) :
    pid.toNat < m.nextPid.toNat := by
  rw [pids, ← map_pid_residents] at h
  rw [hm.toNat_nextPid]
  exact hm.pid_lt pid h

end

/-! ## One cycle a tick -/

theorem turns_terminateRaiser (m : Machine) (pid : Pid) (kind : String) :
    (m.terminateRaiser pid kind).turns = [] := by
  unfold terminateRaiser
  split
  · rename_i hend
    exact turns_terminate hend
  · rfl

/-- Cycles are serviced for step interrupts only. -/
theorem turns_service (m : Machine) {i : Interrupt} (hi : i ≠ .step) :
    (m.service i).turns = [] := by
  unfold service
  rw [turns_bind]
  cases i with
  | timer =>
    simp only
    split
    · exact turns_switchAndShow m
    · rfl
  | keyboard key => simp
  | sysCall pid accumulator x y => simp
  | step => exact absurd rfl hi
  | unknownOpcode pid opcode counter => simp [turns_terminateRaiser]
  | memoryFault pid address => simp [turns_terminateRaiser]
  | cpuBreak pid => simp [turns_terminateRaiser]
  | disk request => simp
  | kill pid =>
    simp only
    split
    · rename_i hkill
      exact turns_kill hkill
    · rfl

theorem length_turns_turnNow (m : Machine) : m.turnNow.turns.length ≤ 1 := by
  cases hc : m.current with
  | none =>
    rw [turnNow, hc]
    exact Nat.zero_le 1
  | some p =>
    rw [turns_turnNow hc]
    exact Nat.le_refl 1

theorem length_turns_cycle (m : Machine) : m.cycle.turns.length ≤ 1 := by
  cases hc : m.current with
  | none =>
    rw [cycle, hc]
    exact Nat.zero_le 1
  | some p =>
    rw [cycle_eq hc, turns_bind]
    split
    · rw [turns_switchAndShow]
      exact length_turns_turnNow _
    · exact length_turns_turnNow m

theorem length_turns_service_step (m : Machine) :
    (m.service .step).turns.length ≤ m.singleStep.toNat := by
  unfold service
  rw [turns_bind]
  cases hs : m.singleStep with
  | false => simp
  | true => simpa using m.length_turns_cycle

/-- A batch runs at most one cycle for each step interrupt in it, and none at all outside
single-step mode. -/
theorem length_turns_serviceAll (m : Machine) (batch : List Interrupt) :
    (m.serviceAll batch).turns.length ≤ m.singleStep.toNat * batch.count .step := by
  induction batch generalizing m with
  | nil => exact Nat.zero_le _
  | cons i batch ih =>
    have hrest := ih (m.service i).value
    rw [(steady_service m i).singleStep_eq] at hrest
    rw [serviceAll_cons, turns_bind, List.length_append]
    by_cases hi : i = .step
    · subst hi
      have hfirst := m.length_turns_service_step
      rw [List.count_cons_self, Nat.mul_succ]
      omega
    · rw [turns_service m hi, List.count_cons_of_ne hi, List.length_nil, Nat.zero_add]
      exact hrest

/-- The cycle of a tick is run for its step interrupt or after the batch, but not both. -/
theorem length_turns_tick {m : Machine} (hm : m.InGear)
    (hsteps : m.interrupts.pending.toList.count .step ≤ 1) : m.tick.turns.length ≤ 1 := by
  let serviced := m.awake.serviceAll m.interrupts.pending.toList
  have hsteady : m.awake.Steady serviced.turns serviced.value := steady_serviceAll _ _
  have hbatch : serviced.turns.length ≤
      m.awake.singleStep.toNat * m.interrupts.pending.toList.count .step :=
    length_turns_serviceAll _ _
  rw [← hsteady.singleStep_eq] at hbatch
  have hsplit : m.tick.turns = serviced.turns ++
      (if serviced.value.processor.executing then serviced.value.cycle
        else pure serviced.value).turns := by
    rw [tick_eq]
    rfl
  rw [hsplit, List.length_append]
  split
  · rename_i hexecuting
    have hgear : serviced.value.InGear := hsteady.inGear hm
    have hlast := serviced.value.length_turns_cycle
    rw [hgear.singleStep_eq hexecuting, Bool.toNat_false, Nat.zero_mul] at hbatch
    omega
  · have hone := Bool.toNat_le serviced.value.singleStep
    have hprod := Nat.mul_le_mul hone hsteps
    rw [turns_pure, List.length_nil]
    omega

/-! ## The invariant -/

/-- Between two ticks, what the last cycle raised waits in front, and behind it what was raised from
outside. -/
structure Orderly (A : Interrupt → Prop) (s : Settings) (m : Machine) : Prop where
  owned : m.Owned s m.nextPid.toNat
  inGear : m.InGear
  alive : m.currentTerminated = false
  pending_eq : ∃ (own : Option Interrupt) (rest : List Interrupt),
    m.interrupts.pending.toList = own.toList ++ rest ∧ (∀ i ∈ rest, A i) ∧
      ∀ i ∈ own, ∃ pid trap, i = Trap.interrupt pid trap ∧ pid.toNat < m.nextPid.toNat

section

variable {A B : Interrupt → Prop} {s : Settings} {m m₁ m' : Machine} {ticks : List Machine}

theorem Booted.orderly (h : Booted s m) : m.Orderly A s where
  owned := h.owned.of_nextPid
  inGear := h.inGear
  alive := by
    rw [h.machine_eq]
    rfl
  pending_eq := by
    refine ⟨none, [], ?_, fun i hi => ?_, fun i hi => ?_⟩
    · rw [h.machine_eq]
      rfl
    · cases hi
    · cases hi

theorem nextPid_of_moves {ts : List Turn} (h : Moves m ts m') : m'.nextPid = m.nextPid := by
  induction h with
  | refl => rfl
  | head hmove _ ih => exact ih.trans hmove.nextPid_eq

theorem Loaded.nextPid_le {program : List UInt8} {partition : Nat}
    (h : Loaded m m' program partition) (hid : m.nextPid.toNat + 1 < UInt32.size) :
    m.nextPid.toNat ≤ m'.nextPid.toNat := by
  rw [h.machine_eq]
  show m.nextPid.toNat ≤ (m.nextPid + 1).toNat
  rw [UInt32.toNat_add]
  show m.nextPid.toNat ≤ (m.nextPid.toNat + 1) % UInt32.size
  rw [Nat.mod_eq_of_lt hid]
  exact Nat.le_succ _

theorem Between.nextPid_le (h : Between A m m') : m.nextPid.toNat ≤ m'.nextPid.toNat := by
  cases h with
  | quiet h => rw [nextPid_of_moves h]
  | load h hid => exact h.nextPid_le hid

theorem Owned.between (hm : m.Owned s m.nextPid.toNat) (h : Between A m m') :
    m'.Owned s m'.nextPid.toNat := by
  cases h with
  | quiet h => exact (hm.moves h).of_nextPid
  | load h hid => exact (hm.load hid h).of_nextPid

/-- What is raised between ticks waits behind what waits already. -/
theorem Between.pending_eq (h : Between A m m') :
    ∃ raised, m'.interrupts.pending.toList = m.interrupts.pending.toList ++ raised ∧
      ∀ i ∈ raised, A i := by
  cases h with
  | quiet h hgear hpending hraised => exact ⟨_, hpending, hraised⟩
  | load h =>
    refine ⟨[], ?_, fun i hi => ?_⟩
    · rw [h.machine_eq, List.append_nil]
    · cases hi

theorem Orderly.between (hm : m.Orderly A s) (h : Between A m m') : m'.Orderly A s where
  owned := hm.owned.between h
  inGear := by
    cases h with
    | quiet _ hgear => exact hgear hm.inGear
    | load h =>
      have hgear := hm.inGear
      rw [h.machine_eq]
      exact hgear
  alive := by
    cases h with
    | quiet h => exact alive_of_moves h hm.alive
    | load h =>
      have halive := hm.alive
      rw [h.machine_eq]
      exact halive
  pending_eq := by
    obtain ⟨own, rest, hpending, hrest, hown⟩ := hm.pending_eq
    obtain ⟨raised, hpending', hraised⟩ := h.pending_eq
    refine ⟨own, rest ++ raised, ?_, fun i hi => ?_, fun i hi => ?_⟩
    · rw [hpending', hpending, List.append_assoc]
    · rcases List.mem_append.1 hi with hi | hi
      · exact hrest i hi
      · exact hraised i hi
    · obtain ⟨pid, trap, hi, hpid⟩ := hown i hi
      exact ⟨pid, trap, hi, Nat.lt_of_lt_of_le hpid h.nextPid_le⟩

/-- A machine in which a tick is about to be taken, with a step interrupt at the end of the batch or
without one. -/
structure AtTick (A : Interrupt → Prop) (s : Settings) (m : Machine) : Prop where
  orderly : m.Orderly (fun i => A i ∨ i = .step) s
  steps_le : m.interrupts.pending.toList.count .step ≤ 1

theorem Orderly.atTick (hA : ¬ A .step) (hm : m.Orderly A s)
    (h : m₁ = m ∨ m₁ = m.interrupt .step) : m₁.AtTick A s := by
  obtain ⟨own, rest, hpending, hrest, hown⟩ := hm.pending_eq
  have hnone : m.interrupts.pending.toList.count .step = 0 := by
    rw [hpending, List.count_eq_zero, List.mem_append, Option.mem_toList]
    rintro (hstep | hstep)
    · obtain ⟨pid, trap, hi, -⟩ := hown _ hstep
      cases trap <;> cases hi
    · exact hA (hrest _ hstep)
  have hrest' : ∀ i ∈ rest, A i ∨ i = .step := fun i hi => .inl (hrest i hi)
  rcases h with rfl | rfl
  · refine ⟨⟨hm.owned, hm.inGear, hm.alive, own, rest, hpending, hrest', hown⟩, ?_⟩
    rw [hnone]
    exact Nat.zero_le 1
  · have howned := hm.owned.move (.aside (m.beside_interrupt .step))
    have hpushed : (m.interrupt .step).interrupts.pending.toList =
        m.interrupts.pending.toList ++ [.step] := Array.toList_push
    refine ⟨⟨howned, hm.inGear, hm.alive, own, rest ++ [.step], ?_, fun i hi => ?_, hown⟩, ?_⟩
    · rw [hpushed, hpending, List.append_assoc]
    · rcases List.mem_append.1 hi with hi | hi
      · exact hrest' i hi
      · exact .inr (List.mem_singleton.1 hi)
    · rw [hpushed, List.count_append, hnone]
      exact Nat.le_refl 1

/-- **A tick runs at most one cycle.** It is a step of its process as that was before the tick, and
what it traps is all that waits after the tick. -/
theorem AtTick.turns_tick (hm : m.AtTick A s) :
    (m.tick.turns = [] ∧ m.tick.value.interrupts.pending.toList = []) ∨
      ∃ r ∈ m.residents,
        m.tick.turns = [⟨r.pid, (r.solo m.memory).trap?.map (Trap.interrupt r.pid)⟩] ∧
        m.tick.value.interrupts.pending.toList =
          ((r.solo m.memory).trap?.map (Trap.interrupt r.pid)).toList := by
  obtain ⟨howned, hgear, halive, -⟩ := hm.orderly
  have hpending := (howned.departs_tick halive).pending_eq
  change _ = [] ++ _ at hpending
  have hlength := length_turns_tick hgear hm.steps_le
  cases hturns : m.tick.turns with
  | nil =>
    rw [hturns] at hpending
    exact .inl ⟨rfl, hpending⟩
  | cons t ts =>
    rw [hturns, List.length_cons] at hlength
    obtain rfl : ts = [] := List.length_eq_zero_iff.1 (by omega)
    have hfirst : m.tick.turns = [] ++ t :: [] := hturns
    obtain ⟨r, hr, hpid, hraised⟩ := howned.turn_eq (movesTo_tick m) hfirst
    rw [← hpid] at hraised
    have ht : t = ⟨r.pid, (r.solo m.memory).trap?.map (Trap.interrupt r.pid)⟩ := by
      cases t
      simp only [Turn.mk.injEq]
      exact ⟨hpid.symm, hraised⟩
    refine .inr ⟨r, hr, by rw [ht], ?_⟩
    rw [hpending, hturns, ht]
    cases (r.solo m.memory).trap? <;> rfl

/-- A tick that runs a cycle of a process runs that cycle only. -/
theorem AtTick.turns_eq_of_cycle (hm : m.AtTick A s) {r : Resident} (hr : r ∈ m.residents)
    (hcycle : 0 < cyclesOf r.pid m.tick.turns) :
    m.tick.turns = [⟨r.pid, (r.solo m.memory).trap?.map (Trap.interrupt r.pid)⟩] ∧
      m.tick.value.interrupts.pending.toList =
        ((r.solo m.memory).trap?.map (Trap.interrupt r.pid)).toList := by
  rcases hm.turns_tick with ⟨hturns, -⟩ | ⟨r', hr', hturns, hpending⟩
  · rw [hturns] at hcycle
    exact absurd hcycle (Nat.lt_irrefl 0)
  · have hpid : r'.pid = r.pid := by
      rw [hturns, cyclesOf_singleton] at hcycle
      by_contra hne
      rw [if_neg hne] at hcycle
      exact Nat.lt_irrefl 0 hcycle
    obtain rfl := hm.orderly.owned.resident_ext hr' hr hpid
    exact ⟨hturns, hpending⟩

theorem AtTick.orderly_tick (hm : m.AtTick A s) : m.tick.value.Orderly B s := by
  obtain ⟨howned, hgear, halive, -⟩ := hm.orderly
  have hmoves := movesTo_tick m
  have hticked := howned.moves hmoves
  have hid := hticked.toNat_nextPid
  refine ⟨by rwa [hid], (steady_tick m).inGear hgear, alive_of_moves hmoves halive, ?_⟩
  rcases hm.turns_tick with ⟨-, hpending⟩ | ⟨r, hr, -, hpending⟩
  · exact ⟨none, [], hpending, fun i hi => absurd hi List.not_mem_nil, fun i hi => by cases hi⟩
  · refine ⟨_, [], hpending.trans (List.append_nil _).symm,
      fun i hi => absurd hi List.not_mem_nil, fun i hi => ?_⟩
    obtain ⟨trap, -, hi⟩ := Option.map_eq_some_iff.1 hi
    rw [hid]
    exact ⟨r.pid, trap, hi.symm, howned.pid_lt_of_mem_pids (mem_pids_of_mem_residents hr)⟩

theorem Orderly.ticking (hA : ¬ A .step) (hm : m.Orderly A s) (h : Ticking A m ticks m') :
    m'.Orderly A s := by
  induction h with
  | refl => exact hm
  | between hbetween _ ih => exact ih (hm.between hbetween)
  | tick htick _ ih => exact ih (hm.atTick hA htick).orderly_tick

/-! ## Processes that are gone -/

/-- The process was loaded once and is not resident any more. -/
structure Gone (pid : Pid) (m : Machine) : Prop where
  notMem : pid ∉ m.pids
  lt : pid.toNat < m.nextPid.toNat

/-- Without ids to spare, nobody comes back. -/
theorem Gone.between {pid : Pid} (hm : m.Owned s m.nextPid.toNat) (hp : Gone pid m)
    (h : Between A m m') : Gone pid m' := by
  refine ⟨fun hpid => hp.notMem ?_, Nat.lt_of_lt_of_le hp.lt h.nextPid_le⟩
  cases h with
  | quiet h => exact hm.mem_pids_of_moves h hpid
  | load h =>
    obtain ⟨r, hr, rfl⟩ := exists_resident_of_mem_pids hpid
    rw [h.residents_eq, List.mem_append, List.mem_singleton] at hr
    rcases hr with hr | rfl
    · exact mem_pids_of_mem_residents hr
    · exact absurd hp.lt (Nat.lt_irrefl _)

theorem Gone.moves {pid : Pid} {loads : Nat} {ts : List Turn} (hm : m.Owned s loads)
    (hp : Gone pid m) (h : Moves m ts m') : Gone pid m' := by
  refine ⟨fun hpid => hp.notMem (hm.mem_pids_of_moves h hpid), ?_⟩
  rw [(hm.moves h).toNat_nextPid, ← hm.toNat_nextPid]
  exact hp.lt

/-- Who is gone gets no cycle. -/
theorem Gone.cyclesOf_moves {pid : Pid} {loads : Nat} {ts : List Turn} (hm : m.Owned s loads)
    (hp : Gone pid m) (h : Moves m ts m') : cyclesOf pid ts = 0 :=
  Nat.eq_zero_of_not_pos fun hcycle => hp.notMem (hm.mem_pids_of_cyclesOf h hcycle)

/-- A process that is gone is gone in every later tick and gets no cycle in it. -/
theorem Gone.ticking {pid : Pid} (hA : ¬ A .step) (hm : m.Orderly A s) (hp : Gone pid m)
    (h : Ticking A m ticks m') :
    (∀ m₁ ∈ ticks, Gone pid m₁ ∧ cyclesOf pid m₁.tick.turns = 0) ∧ Gone pid m' := by
  induction h with
  | refl m => exact ⟨fun m₁ hm₁ => absurd hm₁ List.not_mem_nil, hp⟩
  | between hbetween _ ih => exact ih (hm.between hbetween) (hp.between hm.owned hbetween)
  | tick htick _ ih =>
    rename_i m m₁ _ _ _
    have hat := hm.atTick hA htick
    have hp₁ : Gone pid m₁ := by
      rcases htick with rfl | rfl
      · exact hp
      · exact hp.moves hm.owned (.single (.aside (m.beside_interrupt .step)))
    have hmoves := movesTo_tick m₁
    obtain ⟨hticks, hend⟩ := ih hat.orderly_tick (hp₁.moves hat.orderly.owned hmoves)
    refine ⟨fun m₂ hm₂ => ?_, hend⟩
    rcases List.mem_cons.1 hm₂ with rfl | hm₂
    · exact ⟨hp₁, hp₁.cyclesOf_moves hat.orderly.owned hmoves⟩
    · exact hticks m₂ hm₂

end

end Machine

end Timeshare
