import Timeshare.Proofs.Coherence
import Timeshare.Proofs.Raises

/-!
# The rotation of round robin

As long as nobody ends, round robin is a wheel: a tick that finds the quantum spent turns it by one
place, every other tick leaves it, and each tick runs one cycle of whoever is in front. `Turning`
says how far the wheel is, by the order of the processes and the count of cycles, and one lemma says
what a tick makes of it. A process is known by its id and its partition here, for its registers and
its state change on the way.
-/
namespace Timeshare

/-- A system call, after which its program goes on. -/
def Interrupt.isCall : Interrupt → Bool
  | .sysCall .. => true
  | _ => false

/-- The id and the partition, which a process keeps. -/
def Process.name (p : Process) : Pid × Nat := (p.pid, p.partition)

namespace Machine

open Traced

/-- The machine after `n` ticks. -/
def afterTicks (m : Machine) (n : Nat) : Machine := (fun m => m.tick.value)^[n] m

theorem afterTicks_succ (m : Machine) (n : Nat) :
    m.afterTicks (n + 1) = (m.afterTicks n).tick.value :=
  Function.iterate_succ_apply' _ _ _

/-- The resident processes in order, the current one first. -/
def roster (m : Machine) : List (Pid × Nat) := m.processes.map Process.name

/-- The cycles raise nothing but system calls. -/
def OnlyCalls (turns : List Turn) : Prop := ∀ turn ∈ turns, ∀ i ∈ turn.raised, i.isCall = true

instance : DecidablePred OnlyCalls := fun turns =>
  inferInstanceAs (Decidable (∀ turn ∈ turns, ∀ i ∈ turn.raised, i.isCall = true))

/-- Round robin is under way with the processes in this order, the first of which has run this many
cycles of its quantum, and nothing waits but system calls. -/
structure Turning (quantum : Nat) (order : List (Pid × Nat)) (cycles : Nat) (m : Machine) :
    Prop where
  policy_eq : m.scheduler.policy = .roundRobin
  quantum_eq : m.scheduler.quantum = quantum
  cycles_eq : m.scheduler.cycles = cycles
  singleStep_eq : m.singleStep = false
  executing_eq : m.processor.executing = true
  busy : ∃ p, m.current = some p ∧ p.isTerminated = false
  roster_eq : m.roster = order
  calls : ∀ i ∈ m.interrupts.pending.toList, i.isCall = true

section

variable {m : Machine} {p : Process} {quantum cycles : Nat} {order : List (Pid × Nat)}

theorem roster_of_current (hc : m.current = some p) :
    m.roster = p.name :: m.ready.toList.map Process.name := by
  rw [roster, Kernel.processes, hc]
  rfl

/-! ## Parts of a tick -/

/-- System calls leave the machine as it is. -/
theorem serviceAll_calls (m : Machine) {batch : List Interrupt}
    (h : ∀ i ∈ batch, i.isCall = true) :
    (m.serviceAll batch).value = m ∧ (m.serviceAll batch).turns = [] := by
  induction batch with
  | nil => exact ⟨rfl, rfl⟩
  | cons i batch ih =>
    obtain ⟨hvalue, hturns⟩ := ih fun j hj => h j (List.mem_cons_of_mem _ hj)
    have hcall := h i List.mem_cons_self
    cases i with
    | sysCall pid accumulator x y =>
      have hfirst : (m.service (.sysCall pid accumulator x y)).value = m := rfl
      have hnone : (m.service (.sysCall pid accumulator x y)).turns = [] :=
        turns_service m (by simp)
      rw [serviceAll_cons, value_bind, turns_bind, hfirst, hnone]
      exact ⟨hvalue, hturns⟩
    | _ => cases hcall

theorem Turning.wantsSwitch_eq (h : m.Turning quantum order cycles) :
    m.wantsSwitch = decide (quantum ≤ cycles) := by
  rw [wantsSwitch, Scheduler.wantsSwitch, h.policy_eq, h.quantum_eq, h.cycles_eq]

/-- A machine under round robin with nothing pending is under way. -/
theorem Coherent.turning (h : m.Coherent) (hpolicy : m.scheduler.policy = .roundRobin)
    (hsingle : m.singleStep = false) (hc : m.current = some p) (hnothing : m.interrupts = {}) :
    m.Turning m.scheduler.quantum m.roster m.scheduler.cycles where
  policy_eq := hpolicy
  quantum_eq := rfl
  cycles_eq := rfl
  singleStep_eq := hsingle
  executing_eq := by
    rw [h.inGear, hsingle, hc]
    rfl
  busy := by
    refine ⟨p, hc, ?_⟩
    rw [Process.isTerminated, h.running p hc]
    rfl
  roster_eq := rfl
  calls := by
    rw [hnothing]
    exact nofun

/-- A switch turns the wheel by one place. -/
theorem Turning.switch (h : m.Turning quantum order cycles) :
    m.switch.value.Turning quantum (order.rotate 1) 0 := by
  obtain ⟨hpolicy, hquantum, -, hsingle, hexecuting, ⟨p, hc, halive⟩, rfl, hcalls⟩ := h
  rw [roster_of_current hc]
  cases hr : m.ready.toList with
  | nil =>
    rw [switch_alone ((currentTerminated_of_current hc).trans halive) hr]
    refine ⟨hpolicy, hquantum, rfl, hsingle, hexecuting, ⟨p, hc, halive⟩, ?_, hcalls⟩
    show m.roster = _
    rw [roster_of_current hc, hr, List.map_nil, List.rotate_singleton]
  | cons next rest =>
    rw [switch_rotate hc halive hr]
    refine ⟨hpolicy, hquantum, rfl, hsingle, executing_handTo hsingle next _,
      ⟨{ next with status := .running }, rfl, rfl⟩, ?_, hcalls⟩
    rw [List.rotate_cons_succ, List.rotate_zero, List.map_cons, List.cons_append]
    show next.name :: (rest ++ [_]).map Process.name = _
    rw [List.map_append, List.map_singleton]
    rfl

/-- The process in front runs a cycle. -/
theorem Turning.turnNow (h : m.Turning quantum order cycles) (hc : cycles < Scheduler.maxCycles)
    (hcalls : OnlyCalls m.turnNow.turns) :
    m.turnNow.turns.map Turn.pid = (order.head?.map Prod.fst).toList ∧
      m.turnNow.value.Turning quantum order (cycles + 1) := by
  obtain ⟨hpolicy, hquantum, hcycles, hsingle, hexecuting, hbusy, rfl, hwaiting⟩ := h
  obtain ⟨p, hcurrent, halive⟩ := hbusy
  have hturns := turns_turnNow hcurrent
  have hraised : ∀ i ∈ (m.processor.cycle p m.memory).value.raised, i.isCall = true :=
    hcalls _ (hturns ▸ List.mem_singleton_self _)
  have hname : (m.processor.cycle p m.memory).value.process.name = p.name := by
    rcases process_cycle m.processor p m.memory with h | h
    · rw [h]
    · rw [h]
      rfl
  constructor
  · rw [hturns, roster_of_current hcurrent]
    rfl
  · rw [value_turnNow hcurrent]
    refine ⟨hpolicy, hquantum, ?_, hsingle, ?_, ⟨_, rfl, ?_⟩, ?_, fun i hi => ?_⟩
    · show min (m.scheduler.cycles + 1) Scheduler.maxCycles = cycles + 1
      rw [hcycles]
      exact Nat.min_eq_left hc
    · exact (executing_cycle m.processor p m.memory).trans hexecuting
    · exact (isTerminated_process_cycle m.processor p m.memory).trans halive
    · rw [roster_of_current hcurrent, ← hname]
      rfl
    · rw [pending_turned, List.mem_append] at hi
      rcases hi with hi | hi
      · exact hwaiting i hi
      · exact hraised i (Option.mem_toList.1 hi)

/-! ## Ticks -/

/-- A tick turns the wheel if the quantum is spent, and runs a cycle of the process in front. -/
theorem Turning.tick (h : m.Turning quantum order cycles) (hmax : quantum < UInt32.size)
    (hcalls : OnlyCalls m.tick.turns) :
    let order' := if quantum ≤ cycles then order.rotate 1 else order
    let cycles' := if quantum ≤ cycles then 1 else cycles + 1
    m.tick.turns.map Turn.pid = (order'.head?.map Prod.fst).toList ∧
      m.tick.value.Turning quantum order' cycles' := by
  obtain ⟨hvalue, hnone⟩ := m.awake.serviceAll_calls h.calls
  have hawake : m.awake.Turning quantum order cycles :=
    ⟨h.policy_eq, h.quantum_eq, h.cycles_eq, h.singleStep_eq, h.executing_eq, h.busy, h.roster_eq,
      nofun⟩
  have hexecuting : m.awake.processor.executing = true := hawake.executing_eq
  have htick : m.tick.value = m.awake.cycle.value := by
    rw [tick_eq, value_bind, value_bind, hvalue, if_pos hexecuting]
  have hturns : m.tick.turns = m.awake.cycle.turns := by
    rw [tick_eq, turns_bind, turns_report, List.nil_append, turns_bind, hnone, hvalue,
      if_pos hexecuting, List.nil_append]
  rw [hturns] at hcalls ⊢
  rw [htick]
  obtain ⟨p, hc, -⟩ := hawake.busy
  rw [cycle_eq hc, hawake.wantsSwitch_eq] at hcalls ⊢
  by_cases hspent : quantum ≤ cycles
  · simp only [hspent, decide_true, if_true, turns_bind, value_bind, turns_switchAndShow,
      List.nil_append, value_switchAndShow] at hcalls ⊢
    exact hawake.switch.turnNow (by decide) hcalls
  · simp only [hspent, decide_false, if_false, Bool.false_eq_true, pure_bind] at hcalls ⊢
    refine hawake.turnNow ?_ hcalls
    rw [Scheduler.maxCycles]
    omega

/-- Who is in front after `n` turns of a wheel. -/
theorem head?_rotate_mod {α : Type} {l : List α} (h : 0 < l.length) (n : Nat) :
    (l.rotate n).head? = l[n % l.length]? := by
  rw [← List.rotate_mod, List.head?_rotate (Nat.mod_lt n h)]

/-- As many turns as there are places make a round. -/
theorem rotate_rounds {α : Type} {l : List α} {count : Nat} (hl : l.length = count)
    (hpos : 0 < quantum) (rounds : Nat) :
    l.rotate (rounds * (quantum * count) / quantum) = l := by
  subst hl
  rw [Nat.mul_left_comm, Nat.mul_div_cancel_left _ hpos, Nat.mul_comm, List.rotate_length_mul]

/-- How far the wheel is after `n + 1` ticks. -/
theorem Turning.afterTicks (h : m.Turning quantum order 0) (hpos : 0 < quantum)
    (hmax : quantum < UInt32.size) (n : Nat)
    (hcalls : ∀ t ≤ n, OnlyCalls (m.afterTicks t).tick.turns) :
    (m.afterTicks n).tick.turns.map Turn.pid =
        ((order.rotate (n / quantum)).head?.map Prod.fst).toList ∧
      (m.afterTicks (n + 1)).Turning quantum (order.rotate (n / quantum)) (n % quantum + 1) := by
  induction n with
  | zero =>
    have hfirst := h.tick hmax (hcalls 0 (Nat.le_refl 0))
    simp only [Nat.not_le.2 hpos, if_false] at hfirst
    rw [Nat.zero_div, Nat.zero_mod, List.rotate_zero]
    exact hfirst
  | succ n ih =>
    obtain ⟨-, hturning⟩ := ih fun t ht => hcalls t (Nat.le_succ_of_le ht)
    have hphase : n % quantum < quantum := Nat.mod_lt n hpos
    have hnext := hturning.tick hmax (hcalls (n + 1) (Nat.le_refl _))
    rw [← afterTicks_succ] at hnext
    have hn := Nat.mod_add_div n quantum
    by_cases hspent : quantum ≤ n % quantum + 1
    · -- the last tick of a quantum comes before
      simp only [hspent, if_true, List.rotate_rotate] at hnext
      have hdiv : (n + 1) / quantum = n / quantum + 1 ∧ (n + 1) % quantum = 0 := by
        rw [Nat.div_mod_unique hpos, Nat.mul_succ]
        omega
      rw [hdiv.1, hdiv.2]
      exact hnext
    · simp only [hspent, if_false] at hnext
      have hdiv : (n + 1) / quantum = n / quantum ∧ (n + 1) % quantum = n % quantum + 1 := by
        rw [Nat.div_mod_unique hpos]
        omega
      rw [hdiv.1, hdiv.2]
      exact hnext

/-- Who is in front is current, and the others wait in order. -/
theorem Turning.places (h : m.Turning quantum order cycles) :
    m.current.map Process.name = order.head? ∧ m.ready.toList.map Process.name = order.tail := by
  obtain ⟨p, hc, -⟩ := h.busy
  rw [← h.roster_eq, roster_of_current hc, hc]
  exact ⟨rfl, rfl⟩

end

/-- **Round robin rotates once in a quantum.** Take any machine under round robin with a process
that is about to begin its quantum and nothing pending, and let it tick while no process does
anything but go on, system calls included. Then the cycle of a tick is run by the process whose turn
it is, counting off the quanta along the processes in order, and behind the first tick of a round
everybody has the place that he had in the beginning. Quanta are 32-bit numbers. -/
theorem round_robin_rotates {s : Settings} {booted : Traced Machine} (hboot : boot s = .ok booted)
    (ops : List Operation) {first : Process} {queue : List Process} (T : Nat) :
    let m := (booted.value.afterAll ops).value
    let quantum := m.scheduler.quantum
    let count := queue.length + 1
    m.scheduler.policy = .roundRobin → quantum < UInt32.size → m.singleStep = false →
    m.current = some first → m.ready.toList = queue → m.scheduler.cycles = 0 → m.interrupts = {} →
    (∀ t < T, OnlyCalls (m.afterTicks t).tick.turns) →
      (∀ t < T, ∃ p, (first :: queue)[t / quantum % count]? = some p ∧
        (m.afterTicks t).tick.turns.map Turn.pid = [p.pid] ∧
        (m.afterTicks (t + 1)).current.map Process.name = some p.name) ∧
      ∀ rounds, rounds * (quantum * count) + 1 ≤ T →
        let m' := m.afterTicks (rounds * (quantum * count) + 1)
        m'.current.map Process.name = some first.name ∧
          m'.ready.toList.map Process.name = queue.map Process.name := by
  intro m quantum count hpolicy hmax hsingle hcurrent hqueue hcycles hnothing hcalls
  have hbooted := boot_eq_ok hboot
  have hpos : 0 < quantum := (hbooted.coherent_afterAll ops).quantum_pos
  have hstart : m.Turning quantum ((first :: queue).map Process.name) 0 := by
    have hwheel := (hbooted.coherent_afterAll ops).turning hpolicy hsingle hcurrent hnothing
    rw [hcycles, roster_of_current hcurrent, hqueue] at hwheel
    exact hwheel
  have hcount : ((first :: queue).map Process.name).length = count := List.length_map _
  have hturned (t : Nat) (ht : t < T) :=
    hstart.afterTicks hpos hmax t fun u hu => hcalls u (Nat.lt_of_le_of_lt hu ht)
  constructor
  · intro t ht
    obtain ⟨hturns, hturning⟩ := hturned t ht
    have hplace : t / quantum % count < (first :: queue).length := Nat.mod_lt _ (Nat.succ_pos _)
    have hfront : (((first :: queue).map Process.name).rotate (t / quantum)).head? =
        some (first :: queue)[t / quantum % count].name := by
      rw [head?_rotate_mod (hcount ▸ Nat.succ_pos _), hcount, List.getElem?_map,
        List.getElem?_eq_getElem hplace]
      rfl
    refine ⟨_, List.getElem?_eq_getElem hplace, ?_, ?_⟩
    · rw [hturns, hfront]
      rfl
    · rw [hturning.places.1, hfront]
  · intro rounds hrounds m'
    obtain ⟨-, hturning⟩ := hturned (rounds * (quantum * count)) hrounds
    rw [rotate_rounds hcount hpos] at hturning
    exact hturning.places

/-- A round of two programs that both call the system, and the first tick of the next round. -/
theorem round_robin_rotates_small :
    let ops : List Operation := [.ask (.load [0xEA, 0xFF, 0xEA, 0xEA]), .ask (.load [0xFF, 0xEA]),
      .ask (.setQuantum 2), .ask .runAll]
    let m := (small.value.afterAll ops).value
    let first : Process := { pid := 0, partition := 0, status := .running }
    let second : Process := { pid := 1, partition := 1, status := .ready }
    m.scheduler.policy = .roundRobin ∧ m.scheduler.quantum = 2 ∧ m.singleStep = false ∧
      m.current = some first ∧ m.ready.toList = [second] ∧ m.scheduler.cycles = 0 ∧
      m.interrupts = {} ∧ (∀ t < 5, OnlyCalls (m.afterTicks t).tick.turns) ∧
      (∀ t < 5, ∃ p, [first, second][t / 2 % 2]? = some p ∧
        (m.afterTicks t).tick.turns.map Turn.pid = [p.pid] ∧
        (m.afterTicks (t + 1)).current.map Process.name = some p.name) ∧
      (m.afterTicks 5).current.map Process.name = some first.name ∧
      (m.afterTicks 5).ready.toList.map Process.name = [second.name] := by
  intro ops m first second
  have hpolicy : m.scheduler.policy = .roundRobin := by decide +kernel
  have htwo : m.scheduler.quantum = 2 := by decide +kernel
  have hsingle : m.singleStep = false := by decide +kernel
  have hcurrent : m.current = some first := by decide +kernel
  have hqueue : m.ready.toList = [second] := by decide +kernel
  have hcycles : m.scheduler.cycles = 0 := by decide +kernel
  have hnothing : m.interrupts = {} := by decide +kernel
  have hcalls : ∀ t < 5, OnlyCalls (m.afterTicks t).tick.turns := by decide +kernel
  have hrotates := round_robin_rotates boot_small ops 5 hpolicy (htwo ▸ by decide) hsingle hcurrent
    hqueue hcycles hnothing hcalls
  have hm : (small.value.afterAll ops).value = m := rfl
  have hround : 1 * (2 * ([second].length + 1)) + 1 = 5 := rfl
  rw [hm, htwo] at hrotates
  obtain ⟨hturns, hplaces⟩ := hrotates
  have hlast := hplaces 1 (Nat.le_of_eq hround)
  simp only [hround] at hlast
  exact ⟨hpolicy, htwo, hsingle, hcurrent, hqueue, hcycles, hnothing, hcalls, hturns, hlast⟩

end Machine

end Timeshare
