import Timeshare.Proofs.Departures

/-!
# Completion

A batch of programs that all end takes one tick for each cycle that the programs need alone, and one
tick more to learn of the last end. Which policy and which quantum are set makes no difference: a
switch costs no tick, and a process that has ended gets no further cycle, because the next tick
takes it out before it runs a cycle of another one.
-/
namespace Timeshare

namespace Solo

/-- The program ends with its `n`-th cycle from here on and leaves `bytes` behind. -/
def Due (s : Solo) (n : Nat) (bytes : List UInt8) : Prop :=
  s.EndsAt n ∧ (step^[n] s).bytes = bytes

theorem Due.of_ending {s : Solo} {n : Nat} {bytes : List UInt8} (h : s.Due n bytes)
    (he : s.ending = true) : n = 1 ∧ s.step.bytes = bytes := by
  obtain ⟨hends, hbytes⟩ := h
  match n, hends with
  | 1, _ => exact ⟨rfl, hbytes⟩
  | k + 2, ⟨hbefore, _⟩ =>
    have hfirst : s.ending = false := hbefore 0 (Nat.succ_pos k)
    rw [hfirst] at he
    cases he

theorem Due.step {s : Solo} {n : Nat} {bytes : List UInt8} (h : s.Due n bytes)
    (he : s.ending = false) : ∃ k, n = k + 1 ∧ s.step.Due k bytes := by
  obtain ⟨hends, hbytes⟩ := h
  match n, hends with
  | 1, ⟨_, hlast⟩ =>
    change s.ending = true at hlast
    rw [he] at hlast
    cases hlast
  | k + 2, ⟨hbefore, hlast⟩ =>
    refine ⟨k + 1, rfl, ⟨fun j hj => ?_, hlast⟩, hbytes⟩
    exact hbefore (j + 1) (Nat.succ_lt_succ hj)

end Solo

/-- The residents need `total` cycles altogether until each of them has ended and left in its
partition what `final` says. -/
inductive Left (memory : Memory) (final : Nat → List UInt8) : List Resident → Nat → Prop
  | nil : Left memory final [] 0
  | cons {r : Resident} {rs : List Resident} {n total : Nat}
      (h : (r.solo memory).Due n (final r.partition)) (hs : Left memory final rs total) :
      Left memory final (r :: rs) (n + total)

namespace Left

variable {memory memory' : Memory} {final : Nat → List UInt8} {rs rs' : List Resident} {total : Nat}

/-- The order of the residents does not matter. -/
theorem perm (hp : rs.Perm rs') (h : Left memory final rs total) :
    Left memory final rs' total := by
  induction hp generalizing total with
  | nil => exact h
  | cons r _ ih =>
    cases h with
    | cons hr hs => exact .cons hr (ih hs)
  | swap r r' rs =>
    cases h with
    | cons hr' hs =>
      cases hs with
      | cons hr hs =>
        rw [Nat.add_left_comm]
        exact .cons hr (.cons hr' hs)
  | trans _ _ ih ih' => exact ih' (ih h)

/-- Only the bytes of the residents matter. -/
theorem frame (hm : ∀ r ∈ rs, memory'.contents r.partition = memory.contents r.partition)
    (h : Left memory final rs total) : Left memory' final rs total := by
  induction h with
  | nil => exact .nil
  | cons hr _ ih =>
    rename_i r _ _ _ _
    refine .cons ?_ (ih fun x hx => hm x (List.mem_cons_of_mem _ hx))
    rw [Resident.solo, hm r List.mem_cons_self]
    exact hr

theorem of_forall₂ {lives : List Nat}
    (h : List.Forall₂ (fun r n => (r.solo memory).Due n (final r.partition)) rs lives) :
    Left memory final rs lives.sum := by
  induction h with
  | nil => exact .nil
  | cons hr _ ih =>
    rw [List.sum_cons]
    exact .cons hr ih

end Left

namespace Machine

/-- The residents `rs` are all that is left to do: the other partitions have their final bytes. -/
structure Course (final : Nat → List UInt8) (memory : Memory) (rs : List Resident) (total : Nat) :
    Prop where
  left : Left memory final rs total
  done : ∀ q ∉ rs.map Resident.partition, memory.contents q = final q

/-- Who has cycles left while `trap` is pending: the first resident has none if it has ended. -/
def active (m : Machine) (trap : Option Trap) : List Resident :=
  if trap.any Trap.ends then m.residents.tail else m.residents

/-- A batch between two ticks: `p` is on the processor, what it raised in the last tick is all that
is pending, and `total` cycles are left to run. -/
structure Underway (final : Nat → List UInt8) (m : Machine) (p : Process) (trap : Option Trap)
    (total : Nat) : Prop where
  housed : m.Housed
  current_eq : m.current = some p
  alive : p.isTerminated = false
  executing_eq : m.processor.executing = true
  singleStep_eq : m.singleStep = false
  pending_eq : m.interrupts.pending.toList = (trap.map (Trap.interrupt p.pid)).toList
  course : Course final m.memory (m.active trap) total

/-- A batch that is over. -/
structure Finished (final : Nat → List UInt8) (m : Machine) : Prop where
  housed : m.Housed
  processes_eq : m.processes = []
  mode_eq : m.mode = .kernel
  interrupts_eq : m.interrupts = {}
  executing_eq : m.processor.executing = false
  contents_eq : ∀ q, m.memory.contents q = final q

section

variable {final : Nat → List UInt8} {m : Machine} {p : Process} {trap : Option Trap} {total : Nat}

theorem Course.perm {memory : Memory} {rs rs' : List Resident} (hp : rs.Perm rs')
    (h : Course final memory rs total) : Course final memory rs' total := by
  refine ⟨h.left.perm hp, fun q hq => h.done q fun hmem => hq ?_⟩
  exact (hp.map Resident.partition).mem_iff.1 hmem

/-! ## One cycle -/

/-- Passing the processor on costs nothing. -/
theorem Underway.switch (h : Underway final m p none total) :
    ∃ p', Underway final m.switchAndShow.value p' none total := by
  have hhoused : m.switchAndShow.value.Housed := h.housed.moves (movesTo_switchAndShow h.current_eq)
  have hct : m.currentTerminated = false :=
    (currentTerminated_of_current h.current_eq).trans h.alive
  rw [value_switchAndShow] at hhoused ⊢
  cases hr : m.ready.toList with
  | nil =>
    rw [switch_alone hct hr] at hhoused ⊢
    exact ⟨p, hhoused, h.current_eq, h.alive, h.executing_eq, h.singleStep_eq, h.pending_eq,
      h.course⟩
  | cons next rest =>
    rw [switch_rotate h.current_eq h.alive hr] at hhoused ⊢
    have hcourse := h.course.perm (residents_rotate h.current_eq hr).symm
    exact ⟨{ next with status := .running }, hhoused, rfl, rfl,
      executing_handTo h.singleStep_eq next _, h.singleStep_eq, h.pending_eq, hcourse⟩

/-- A step of the first resident is one cycle less to run. After the last one nothing is left to do
for it. -/
theorem Course.turned {memory memory' : Memory} {r : Resident} {rest : List Resident}
    {registers : Registers} (h : Course final memory (r :: rest) total)
    (hnodup : ((r :: rest).map Resident.partition).Nodup)
    (hstep : Solo.mk registers (memory'.contents r.partition) = (r.solo memory).step)
    (hothers : ∀ q ≠ r.partition, memory'.contents q = memory.contents q) :
    ∃ k, total = k + 1 ∧ Course final memory'
      (if (r.solo memory).ending then rest else { r with registers } :: rest) k := by
  rw [List.map_cons, List.nodup_cons] at hnodup
  obtain ⟨hleft, hdone⟩ := h
  cases hleft with
  | cons hdue hrest =>
    rename_i n total
    -- the step is confined to the partition of the first resident, which nobody else has
    have hframe : Left memory' final rest total := hrest.frame fun x hx => by
      refine hothers _ fun he => hnodup.1 ?_
      rw [← he]
      exact List.mem_map_of_mem hx
    cases hending : (r.solo memory).ending with
    | true =>
      obtain ⟨rfl, hbytes⟩ := hdue.of_ending hending
      refine ⟨total, Nat.add_comm 1 total, hframe, fun q hq => ?_⟩
      by_cases hqr : q = r.partition
      · have hlast := congrArg Solo.bytes hstep
        rw [hqr]
        exact hlast.trans hbytes
      · rw [hothers q hqr]
        refine hdone q ?_
        rw [List.map_cons, List.mem_cons, not_or]
        exact ⟨hqr, hq⟩
    | false =>
      obtain ⟨k, rfl, hlater⟩ := hdue.step hending
      refine ⟨k + total, Nat.add_right_comm k 1 total, .cons ?_ hframe, fun q hq => ?_⟩
      · rw [← hstep] at hlater
        exact hlater
      · have hqr : q ≠ r.partition := fun he => hq (he ▸ List.mem_cons_self)
        rw [hothers q hqr]
        exact hdone q hq

/-- A cycle is one step of the first resident towards its end. -/
theorem Underway.turnNow (h : Underway final m p none total) :
    ∃ p' trap' k, total = k + 1 ∧ Underway final m.turnNow.value p' trap' k := by
  have hhoused : m.turnNow.value.Housed := h.housed.moves (movesTo_turnNow m)
  have hfirst := residents_of_current h.current_eq
  have hagrees := h.housed.cycle_agrees h.current_eq
  have hturned := residents_turned hagrees
  have hcourse : Course final m.memory m.residents total := h.course
  have hnodup := h.housed.partitions_nodup
  rw [hfirst] at hcourse hnodup
  obtain ⟨k, hk, hcourse'⟩ := hcourse.turned hnodup
    (congrArg (Solo.mk _) hagrees.contents_eq) hagrees.others_eq
  rw [value_turnNow h.current_eq] at hhoused ⊢
  let alone : Solo := ⟨m.processor.registers, m.memory.contents p.partition⟩
  refine ⟨(m.processor.cycle p m.memory).value.process, alone.trap?, k, hk, hhoused, rfl, ?_, ?_,
    h.singleStep_eq, ?_, ?_⟩
  · rw [isTerminated_process_cycle, h.alive]
  · show (m.processor.cycle p m.memory).value.processor.executing = true
    rw [hagrees.processor_eq]
    exact h.executing_eq
  · rw [pending_turned, h.pending_eq, pid_process_cycle, hagrees.raised_eq]
    rfl
  · rw [active, hturned]
    exact hcourse'

theorem Underway.cycle (h : Underway final m p none total) :
    ∃ p' trap' k, total = k + 1 ∧ Underway final m.cycle.value p' trap' k := by
  rw [cycle_eq h.current_eq]
  split
  · obtain ⟨p', hswitched⟩ := h.switch
    exact hswitched.turnNow
  · exact h.turnNow

/-! ## One tick -/

theorem Underway.housed_awake (h : Underway final m p trap total) : m.awake.Housed :=
  h.housed.moves (.single (.aside m.beside_awake))

/-- A trap that is not the end needs no more than a service. -/
theorem Underway.service_call (h : Underway final m p trap total)
    (htrap : trap.any Trap.ends = false) :
    Underway final (m.awake.serviceAll m.interrupts.pending.toList).value p none total := by
  have hvalue : (m.awake.serviceAll m.interrupts.pending.toList).value = m.awake := by
    rw [h.pending_eq]
    cases trap with
    | none => rfl
    | some trap =>
      cases trap with
      | call accumulator x y => rfl
      | breakpoint => cases htrap
      | badOpcode opcode counter => cases htrap
      | badAddress address => cases htrap
  have hcourse := h.course
  rw [active, htrap] at hcourse
  rw [hvalue]
  exact ⟨h.housed_awake, h.current_eq, h.alive, h.executing_eq, h.singleStep_eq, rfl, hcourse⟩

/-- A trap that is the end takes the current process out. -/
theorem Underway.service_end (h : Underway final m p trap total)
    (htrap : trap.any Trap.ends = true) :
    (m.awake.serviceAll m.interrupts.pending.toList).value =
      (m.awake.terminateCurrent p).value := by
  have hraiser : ∀ kind, m.awake.terminateRaiser p.pid kind = m.awake.terminateCurrent p := by
    intro kind
    have hc : m.awake.current = some p := h.current_eq
    simp only [terminateRaiser, terminate_of_current hc]
  rw [h.pending_eq]
  cases trap with
  | none => cases htrap
  | some trap =>
    cases trap with
    | call accumulator x y => cases htrap
    | breakpoint =>
      show (m.awake.terminateRaiser p.pid _).value = _
      rw [hraiser]
    | badOpcode opcode counter =>
      show (m.awake.terminateRaiser p.pid _).value = _
      rw [hraiser]
    | badAddress address =>
      show (m.awake.terminateRaiser p.pid _).value = _
      rw [hraiser]

theorem value_tick (m : Machine) {m₁ : Machine}
    (h : (m.awake.serviceAll m.interrupts.pending.toList).value = m₁) :
    m.tick.value = if m₁.processor.executing then m₁.cycle.value else m₁ := by
  subst h
  rw [tick_eq]
  simp only [Traced.value_bind]
  split <;> rfl

theorem Underway.tick_of_not_ends (h : Underway final m p trap total)
    (htrap : trap.any Trap.ends = false) :
    ∃ p' trap' k, total = k + 1 ∧ Underway final m.tick.value p' trap' k := by
  have hserviced := h.service_call htrap
  rw [m.value_tick rfl, if_pos hserviced.executing_eq]
  exact hserviced.cycle

theorem Course.free {memory : Memory} {rs : List Resident} (h : Course final memory rs total)
    (q : Nat) : Course final (memory.free q) rs total := by
  have hleft : Left (memory.free q) final rs total :=
    h.left.frame fun r _ => memory.contents_free q r.partition
  exact ⟨hleft, h.done⟩

theorem Underway.tick_of_ends (h : Underway final m p trap total)
    (htrap : trap.any Trap.ends = true) :
    (total = 0 ∧ Finished final m.tick.value) ∨
      ∃ p' trap' k, total = k + 1 ∧ Underway final m.tick.value p' trap' k := by
  have hhoused : m.tick.value.Housed := h.housed.moves (movesTo_tick m)
  have hmoved : (m.awake.terminateCurrent p).value.Housed :=
    h.housed_awake.moves (movesTo_terminateCurrent h.current_eq)
  have hvalue := h.service_end htrap
  have hcourse := h.course
  rw [active, htrap, residents_of_current h.current_eq] at hcourse
  change Course final m.memory (m.ready.toList.map Process.resident) total at hcourse
  have hready : m.awake.ready.toList = m.ready.toList := rfl
  rw [value_terminateCurrent, hready] at hvalue hmoved
  cases hr : m.ready.toList with
  | nil =>
    -- nobody waits: the machine halts, and the tick runs no cycle
    left
    simp only [hr] at hvalue
    rw [m.value_tick hvalue] at hhoused ⊢
    rw [hr, List.map_nil] at hcourse
    obtain ⟨hleft, hdone⟩ := hcourse
    cases hleft
    exact ⟨rfl, hhoused, hr, rfl, rfl, rfl, fun q => hdone q List.not_mem_nil⟩
  | cons next rest =>
    -- the next process gets the cycle of this very tick
    right
    simp only [hr] at hvalue hmoved
    rw [hr] at hcourse
    have hexecuting : ((m.awake.freed p).handTo next rest).processor.executing = true :=
      executing_handTo h.singleStep_eq next rest
    have hpassed : Underway final ((m.awake.freed p).handTo next rest)
        { next with status := .running } none total :=
      ⟨hmoved, rfl, rfl, hexecuting, h.singleStep_eq, rfl, hcourse.free p.partition⟩
    rw [m.value_tick hvalue, if_pos hexecuting]
    exact hpassed.cycle

/-- A tick runs one of the cycles that are left, or finds that none is. -/
theorem Underway.tick (h : Underway final m p trap total) :
    (total = 0 ∧ Finished final m.tick.value) ∨
      ∃ p' trap' k, total = k + 1 ∧ Underway final m.tick.value p' trap' k := by
  cases htrap : trap.any Trap.ends with
  | false => exact .inr (h.tick_of_not_ends htrap)
  | true => exact h.tick_of_ends htrap

/-! ## Until the machine is idle -/

theorem Underway.not_idle (h : Underway final m p trap total) : m.isIdle = false := by
  simp [isIdle, h.executing_eq, h.current_eq]

theorem Finished.idle (h : Finished final m) : m.isIdle = true := by
  rw [isIdle, h.interrupts_eq, h.executing_eq]
  rfl

theorem Finished.settle (h : Finished final m) (limit : Nat) : m.settle limit = pure (0, m) := by
  cases limit with
  | zero => rfl
  | succ limit => rw [Machine.settle, if_pos h.idle]

/-- A batch takes as many ticks as there are cycles left, and one. -/
theorem Underway.settle (h : Underway final m p trap total) {limit : Nat}
    (hlimit : total + 1 ≤ limit) :
    (m.settle limit).value.1 = total + 1 ∧ Finished final (m.settle limit).value.2 := by
  induction total generalizing m p trap limit with
  | zero =>
    obtain ⟨limit, rfl⟩ : ∃ k, limit = k + 1 := ⟨limit - 1, by omega⟩
    rcases h.tick with ⟨-, hfinished⟩ | ⟨_, _, k, hk, -⟩
    · rw [Machine.settle, if_neg (by simp [h.not_idle])]
      simp only [Traced.value_bind, hfinished.settle]
      exact ⟨rfl, hfinished⟩
    · cases hk
  | succ total ih =>
    obtain ⟨limit, rfl⟩ : ∃ k, limit = k + 1 := ⟨limit - 1, by omega⟩
    rcases h.tick with ⟨hzero, -⟩ | ⟨_, _, k, hk, hlater⟩
    · cases hzero
    · obtain rfl : total = k := Nat.succ.inj hk
      have hrest : total + 1 ≤ limit := by omega
      obtain ⟨hticks, hfinished⟩ := ih hlater hrest
      rw [Machine.settle, if_neg (by simp [h.not_idle])]
      simp only [Traced.value_bind]
      exact ⟨congrArg (· + 1) hticks, hfinished⟩

end

/-! ## From the start -/

/-- The loads of a batch, in order. -/
def loads (programs : List (List UInt8)) : List Operation :=
  programs.map fun program => .ask (.load program)

theorem length_loads (programs : List (List UInt8)) : (loads programs).length = programs.length :=
  List.length_map _

/-- A machine that was built from `s` and has loaded `programs`, but has not started any. -/
structure Stocked (s : Settings) (programs : List (List UInt8)) (m : Machine) : Prop where
  housed : m.Housed
  current_eq : m.current = none
  interrupts_eq : m.interrupts = {}
  singleStep_eq : m.singleStep = s.singleStep
  partitionSize_eq : m.memory.partitionSize = s.partitionSize
  partitions_eq : m.residents.map Resident.partition = List.range programs.length
  registers_eq : ∀ r ∈ m.residents, r.registers = {}
  contents_eq : ∀ (i : Nat) (program : List UInt8), programs[i]? = some program →
    m.memory.contents i = (Solo.load s.partitionSize program).bytes

section

variable {s : Settings} {m m' : Machine} {programs : List (List UInt8)} {program : List UInt8}

theorem Booted.stocked (h : Booted s m) : m.Stocked s [] := by
  refine ⟨h.housed, ?_, ?_, ?_, h.partitionSize_eq, ?_, ?_, fun i program hi => ?_⟩
  · rw [h.machine_eq]
  · rw [h.machine_eq]
  · rw [h.machine_eq]
  · rw [h.residents_eq]
    rfl
  · rw [h.residents_eq]
    intro r hr
    cases hr
  · cases hi

/-- Programs take the partitions in order. -/
theorem Stocked.load {partition : Nat} (hm : m.Stocked s programs)
    (h : Loaded m m' program partition) : m'.Stocked s (programs ++ [program]) := by
  have huse (i : Nat) : m.memory.inUse[i]? = some true ↔ i < programs.length := by
    rw [hm.housed.inUse_iff, hm.partitions_eq, List.mem_range]
  have hfree : ¬ partition < programs.length := fun hlt =>
    hm.housed.notMem_of_free h.free ((hm.housed.inUse_iff partition).1 ((huse partition).2 hlt))
  have hlowest : ¬ programs.length < partition := fun hlt =>
    Nat.lt_irrefl _ ((huse _).1 (h.lowest _ hlt))
  obtain rfl : partition = programs.length := by omega
  refine ⟨hm.housed.load h, ?_, ?_, ?_, ?_, ?_, fun r hr => ?_, fun i next hi => ?_⟩
  · rw [h.machine_eq]
    exact hm.current_eq
  · rw [h.machine_eq]
    exact hm.interrupts_eq
  · rw [h.machine_eq]
    exact hm.singleStep_eq
  · rw [h.partitionSize_eq, hm.partitionSize_eq]
  · rw [h.residents_eq, List.map_append, hm.partitions_eq, List.length_append,
      List.length_singleton, List.range_succ]
    rfl
  · rw [h.residents_eq, List.mem_append, List.mem_singleton] at hr
    rcases hr with hr | rfl
    · exact hm.registers_eq r hr
    · rfl
  · by_cases hlast : i = programs.length
    · subst hlast
      rw [List.getElem?_concat_length, Option.some_inj] at hi
      rw [h.contents_eq, hm.partitionSize_eq, hi]
    · have hlt : i < (programs ++ [program]).length := (List.getElem?_eq_some_iff.1 hi).1
      rw [List.length_append, List.length_singleton] at hlt
      rw [List.getElem?_append_left (by omega)] at hi
      rw [h.others_eq i hlast]
      exact hm.contents_eq i next hi

/-- Loading a batch whose programs are all granted. -/
theorem Stocked.loads {done : List (List UInt8)} (hm : m.Stocked s done)
    (hgranted : m.loadsIn (loads programs) = programs.length) :
    (m.afterAll (Machine.loads programs)).value.Stocked s (done ++ programs) := by
  induction programs generalizing m done with
  | nil =>
    rw [List.append_nil]
    exact hm
  | cons program programs ih =>
    have hsplit : m.loadsIn (Machine.loads (program :: programs)) =
        (m.grantsLoad (.ask (.load program))).toNat +
          (m.after (.ask (.load program))).value.loadsIn (Machine.loads programs) := rfl
    have hrest := loadsIn_le_length (m.after (.ask (.load program))).value (Machine.loads programs)
    rw [length_loads] at hrest
    rw [hsplit, List.length_cons] at hgranted
    cases hgrant : m.grantsLoad (.ask (.load program)) with
    | false =>
      rw [hgrant] at hgranted
      have hfalse : false.toNat = 0 := rfl
      omega
    | true =>
      rw [hgrant, Nat.add_comm] at hgranted
      obtain ⟨_, t, hop, hok⟩ := exists_load_of_grantsLoad hgrant
      cases hop
      obtain ⟨-, -, partition, hloaded⟩ := load_eq_ok hok
      rw [← (after_load hok).2.1] at hloaded
      have hlater := ih (hm.load hloaded) (Nat.succ.inj hgranted)
      rw [List.append_assoc] at hlater
      exact hlater

theorem value_runAll {p : Process} {rest : List Process} (hc : m.current = none)
    (hr : m.ready.toList = p :: rest) : m.runAll.value = m.handTo p rest := by
  unfold runAll
  simp only [hc, ReadyQueue.dequeue?, hr]
  rfl

/-- A resident of a stocked machine is its program before the first cycle. -/
theorem Stocked.solo_eq (hm : m.Stocked s programs) {i : Nat} {r : Resident}
    (hr : m.residents[i]? = some r) (hprogram : programs[i]? = some program) :
    r.partition = i ∧ r.solo m.memory = Solo.load s.partitionSize program := by
  have hlt : i < programs.length := (List.getElem?_eq_some_iff.1 hprogram).1
  have hpartition : r.partition = i := by
    have hmap := congrArg (·[i]?) hm.partitions_eq
    simp only [List.getElem?_map, hr, List.getElem?_range hlt, Option.map_some,
      Option.some_inj] at hmap
    exact hmap
  have hregisters := hm.registers_eq r (List.mem_of_getElem? hr)
  refine ⟨hpartition, ?_⟩
  rw [Resident.solo, hpartition, hregisters, hm.contents_eq i program hprogram]
  rfl

/-- The batch is started with all its cycles left. -/
theorem Stocked.underway {lives : List Nat} {final : Nat → List UInt8} (hm : m.Stocked s programs)
    (hstep : s.singleStep = false) (hne : programs ≠ [])
    (hends : List.Forall₂ (fun program n => (Solo.load s.partitionSize program).EndsAt n)
      programs lives)
    (hfinal : ∀ (i : Nat) (program : List UInt8) (n : Nat), programs[i]? = some program →
      lives[i]? = some n → final i = (Solo.step^[n] (Solo.load s.partitionSize program)).bytes)
    (hothers : ∀ q, programs.length ≤ q → m.memory.contents q = final q) :
    ∃ p, Underway final m.runAll.value p none lives.sum := by
  have hlength : m.residents.length = programs.length := by
    have hpartitions := congrArg List.length hm.partitions_eq
    rwa [List.length_map, List.length_range] at hpartitions
  have hdue : List.Forall₂ (fun r n => (r.solo m.memory).Due n (final r.partition))
      m.residents lives := by
    refine List.forall₂_of_length_eq_of_get (hlength.trans hends.length_eq) fun i hi hi' => ?_
    have hip : i < programs.length := hlength ▸ hi
    obtain ⟨hpartition, hsolo⟩ :=
      hm.solo_eq (List.getElem?_eq_getElem hi) (List.getElem?_eq_getElem hip)
    have hlast := hfinal i _ _ (List.getElem?_eq_getElem hip) (List.getElem?_eq_getElem hi')
    have hend := hends.get hip hi'
    simp only [List.get_eq_getElem] at hend ⊢
    rw [hsolo, hpartition]
    exact ⟨hend, hlast.symm⟩
  have hcourse : Course final m.memory m.residents lives.sum := by
    refine ⟨.of_forall₂ hdue, fun q hq => hothers q ?_⟩
    rw [hm.partitions_eq, List.mem_range] at hq
    exact Nat.le_of_not_lt hq
  rw [residents_of_idle hm.current_eq] at hlength hcourse
  cases hr : m.ready.toList with
  | nil =>
    rw [hr] at hlength
    exact absurd (List.length_eq_zero_iff.1 hlength.symm) hne
  | cons p rest =>
    rw [hr] at hcourse
    have hhoused : m.runAll.value.Housed := hm.housed.moves (movesTo_runAll m)
    rw [value_runAll hm.current_eq hr] at hhoused ⊢
    have hsingle : m.singleStep = false := hm.singleStep_eq.trans hstep
    have hpending : m.interrupts.pending.toList = [] := by rw [hm.interrupts_eq]
    exact ⟨{ p with status := .running }, hhoused, rfl, rfl, executing_handTo hsingle p rest,
      hsingle, hpending, hcourse⟩

end

/-- What a batch leaves in each partition: the bytes of the program that was loaded there, and
elsewhere what was there before. -/
def leftovers (s : Settings) (programs : List (List UInt8)) (lives : List Nat)
    (memory : Memory) (q : Nat) : List UInt8 :=
  match programs[q]?, lives[q]? with
  | some program, some n => (Solo.step^[n] (Solo.load s.partitionSize program)).bytes
  | _, _ => memory.contents q

/-- **A batch completes.** Programs that all end alone end together, after as many ticks as they
need cycles alone and one more, whatever the policy and the quantum are. All partitions are free
then, and each holds what its program leaves there alone. -/
theorem batch_completes {s : Settings} {booted : Traced Machine} (hboot : boot s = .ok booted)
    (hstep : s.singleStep = false) {programs : List (List UInt8)} (hne : programs ≠ [])
    (hgranted : booted.value.loadsIn (loads programs) = programs.length) {lives : List Nat}
    (hends : List.Forall₂ (fun program n => (Solo.load s.partitionSize program).EndsAt n)
      programs lives)
    {limit : Nat} (hlimit : lives.sum + 1 ≤ limit) {σ : Type} (c : Console σ) (session : Session σ)
    (hsession : session.machine =
      (booted.value.afterAll (loads programs ++ [.ask .runAll])).value) :
    (session.settle c limit).1 = lives.sum + 1 ∧
      let m := (session.settle c limit).2.machine
      m.processes = [] ∧ m.memory.freeCount = m.memory.partitionCount ∧ m.mode = .kernel ∧
        m.interrupts = {} ∧
        ∀ (i : Nat) (program : List UInt8) (n : Nat), programs[i]? = some program →
          lives[i]? = some n → m.memory.contents i =
            (Solo.step^[n] (Solo.load s.partitionSize program)).bytes := by
  let loaded := (booted.value.afterAll (loads programs)).value
  have hstocked : loaded.Stocked s programs := (boot_eq_ok hboot).stocked.loads hgranted
  have hmachine : session.machine = loaded.runAll.value := by
    rw [hsession, value_afterAll_append]
    rfl
  let final := leftovers s programs lives loaded.memory
  have hfinal (i : Nat) (program : List UInt8) (n : Nat) (hi : programs[i]? = some program)
      (hn : lives[i]? = some n) :
      final i = (Solo.step^[n] (Solo.load s.partitionSize program)).bytes := by
    simp only [final, leftovers, hi, hn]
  have hothers (q : Nat) (hq : programs.length ≤ q) : loaded.memory.contents q = final q := by
    simp only [final, leftovers, List.getElem?_eq_none hq]
  obtain ⟨p, hunderway⟩ := hstocked.underway hstep hne hends hfinal hothers
  obtain ⟨hticks, hfinished⟩ := hunderway.settle hlimit
  obtain ⟨hcount, hend⟩ := Session.settle_eq c limit session
  rw [hcount, hend, hmachine]
  refine ⟨hticks, hfinished.processes_eq, ?_, hfinished.mode_eq, hfinished.interrupts_eq,
    fun i program n hi hn => ?_⟩
  · have hfree := hfinished.housed.freeCount_add
    rw [length_residents, hfinished.processes_eq] at hfree
    exact hfree
  · rw [hfinished.contents_eq i, hfinal i program n hi hn]

/-- A program that breaks in its second cycle and one that starts with no instruction, in front of a
display that is switched off. -/
theorem batch_completes_small :
    let programs : List (List UInt8) := [[0xEA, 0x00], [0x01]]
    let c : Console Unit := { draw := fun u _ => (none, u), write := fun u _ => (none, u) }
    let session : Session Unit :=
      { machine := (small.value.afterAll (loads programs ++ [.ask .runAll])).value, screen := () }
    smallSettings.singleStep = false ∧ programs ≠ [] ∧
      small.value.loadsIn (loads programs) = programs.length ∧
      List.Forall₂ (fun program n => (Solo.load smallSettings.partitionSize program).EndsAt n)
        programs [2, 1] ∧ [2, 1].sum + 1 ≤ 10 ∧ (session.settle c 10).1 = 4 := by
  intro programs c session
  have hne : programs ≠ [] := by decide
  have hgranted : small.value.loadsIn (loads programs) = programs.length := by decide +kernel
  have hends : List.Forall₂ (fun program n =>
      (Solo.load smallSettings.partitionSize program).EndsAt n) programs [2, 1] :=
    .cons (by decide) (.cons (by decide) .nil)
  have hlimit : [2, 1].sum + 1 ≤ 10 := by decide
  obtain ⟨hticks, -⟩ :=
    batch_completes boot_small rfl hne hgranted hends hlimit c session rfl
  exact ⟨rfl, hne, hgranted, hends, hlimit, hticks⟩

end Machine

end Timeshare
