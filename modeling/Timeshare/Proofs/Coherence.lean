import Timeshare.Proofs.Beats

/-!
# Coherence of flags, mode and states

The mode, the flag of the processor, the states of the processes and the count of cycles are written
in different places and must agree whenever nothing is under way. `Machine.Coherent` says how, and
every act keeps it.

Whether a queued process is ready or waiting depends on its past: it waits if it was on the
processor before. A process is known by its partition here, because ids may run out in a long run.
`Machine.Tenure` gives the machines that a run went through since the process was loaded.
-/
namespace Timeshare

namespace Machine

/-- What the flags, the mode and the states say of each other. -/
structure Coherent (m : Machine) : Prop where
  inGear : m.InGear
  mode_eq : m.mode = if m.current.isSome then .user else .kernel
  running : ∀ p ∈ m.current, p.status = .running
  queued : ∀ p ∈ m.ready.toList, p.status = .ready ∨ p.status = .waiting
  cycles_eq : m.current = none → m.scheduler.cycles = 0
  quantum_pos : 0 < m.scheduler.quantum

theorem Booted.coherent {s : Settings} {m : Machine} (h : Booted s m) : m.Coherent := by
  rw [h.machine_eq]
  refine ⟨(Bool.and_false _).symm, rfl, fun p hp => ?_, fun p hp => ?_, fun _ => rfl, h.quantum_pos⟩
  · cases hp
  · cases hp

theorem coherent_handTo {m : Machine} (hq : 0 < m.scheduler.quantum) (next : Process)
    {ready : List Process} (hready : ∀ p ∈ ready, p.status = .ready ∨ p.status = .waiting) :
    (m.handTo next ready).Coherent where
  inGear := (Bool.and_true _).symm
  mode_eq := rfl
  running p hp := by
    obtain rfl := Option.some.inj hp
    rfl
  queued := hready
  cycles_eq _ := rfl
  quantum_pos := hq

theorem status_process_cycle (c : Processor) (p : Process) (memory : Memory) :
    (c.cycle p memory).value.process.status = p.status := by
  rcases process_cycle c p memory with h | h
  · rw [h]
  · rw [h]
    rfl

end Machine

section

variable {A : Machine → Request → Prop} {m m' : Machine} {ts : List Turn}

/-- Every act keeps flags, mode and states coherent. -/
theorem Act.coherent (h : Act A m ts m') (hm : m.Coherent) : m'.Coherent := by
  obtain ⟨hgear, hmode, hrunning, hqueued, hcycles, hquantum⟩ := hm
  cases h with
  | aside h =>
    rw [h]
    exact ⟨hgear, hmode, hrunning, hqueued, hcycles, hquantum⟩
  | setQuantum hq => exact ⟨hgear, hmode, hrunning, hqueued, hcycles, hq⟩
  | setPolicy => exact ⟨hgear, hmode, hrunning, hqueued, hcycles, hquantum⟩
  | setSingleStep => exact ⟨rfl, hmode, hrunning, hqueued, hcycles, hquantum⟩
  | load h =>
    rw [h.machine_eq]
    refine ⟨hgear, hmode, hrunning, fun p hp => ?_, hcycles, hquantum⟩
    rcases List.mem_append.1 hp with hp | hp
    · exact hqueued p hp
    · rw [List.mem_singleton.1 hp]
      exact .inl rfl
  | start hc hr =>
    refine Machine.coherent_handTo hquantum _ fun p hp => hqueued p ?_
    rw [hr]
    exact ((List.sublist_cons_self _ _).append_left _).subset hp
  | rotate hc ht hw hr =>
    refine Machine.coherent_handTo hquantum _ fun p hp => ?_
    rcases List.mem_append.1 hp with hp | hp
    · exact hqueued p (hr ▸ List.mem_cons_of_mem _ hp)
    · rw [List.mem_singleton.1 hp]
      exact .inr rfl
  | renew => exact ⟨hgear, hmode, hrunning, hqueued, fun _ => rfl, hquantum⟩
  | retire hc hr =>
    rename_i p _ _
    refine Machine.coherent_handTo (m := m.freed p) hquantum _ fun p hp => ?_
    exact hqueued p (hr ▸ List.mem_cons_of_mem _ hp)
  | halt hc hr =>
    refine ⟨(Bool.and_false _).symm, rfl, fun p hp => ?_, hqueued, fun _ => rfl, hquantum⟩
    cases hp
  | drop hr =>
    refine ⟨hgear, hmode, hrunning, fun p hp => hqueued p ?_, hcycles, hquantum⟩
    rw [hr]
    exact ((List.sublist_cons_self _ _).append_left _).subset hp
  | turn hc =>
    rename_i p _
    refine ⟨?_, ?_, fun p' hp' => ?_, hqueued, nofun, hquantum⟩
    · exact (Machine.steady_turned hc).inGear hgear
    · rw [hc] at hmode
      exact hmode
    · obtain rfl := Option.some.inj hp'
      rw [Machine.status_process_cycle]
      exact hrunning p hc

theorem Beat.coherent (h : Beat A m ts m') (hm : m.Coherent) : m'.Coherent :=
  h.keep (P := fun _ m => m.Coherent) [] (fun hact hm => hact.coherent hm) hm

end

namespace Machine

open Traced

theorem Booted.coherent_afterAll {s : Settings} {m : Machine} (h : Booted s m)
    (ops : List Operation) : (m.afterAll ops).value.Coherent := by
  have hgrants : m.Grants (fun _ _ => True) ops := grants_of_forall fun _ _ _ => trivial
  exact hgrants.beats.keep (P := fun _ m => m.Coherent) []
    (fun hact hm => hact.coherent hm) h.coherent

/-! ## The past of a process -/

/-- The partitions of the resident processes in order. -/
def partitions (m : Machine) : List Nat := m.processes.map Process.partition

/-- In one of the machines the process in the partition is on the processor. -/
def Dispatched (partition : Nat) (stay : List Machine) : Prop :=
  ∃ m ∈ stay, ∃ p ∈ m.current, p.partition = partition

/-- A load of the run put a process into the partition, `stay` are the machines that the beats of
the run left since then, and the partition was taken in all of them. -/
def Tenure (m : Machine) (ops : List Operation) (partition : Nat) (stay : List Machine) : Prop :=
  ∃ before program after t, ops = before ++ .ask (.load program) :: after ∧
    (m.afterAll before).value.load program = .ok t ∧
    t.value.2.ready.toList.getLast?.map Process.partition = some partition ∧
    stay = (t.value.2.beatsIn after).map Traced.value ∧ ∀ m' ∈ stay, partition ∈ m'.partitions

section

variable {A : Machine → Request → Prop} {m m' : Machine} {ts : List Turn}
  {beats : List (Traced Machine)} {partition : Nat} {stay : List Machine}

theorem Dispatched.append {stay' : List Machine} :
    Dispatched partition (stay ++ stay') ↔
      Dispatched partition stay ∨ Dispatched partition stay' := by
  simp only [Dispatched, List.mem_append, or_and_right, exists_or]

theorem mem_partitions_of_current {p : Process} (hc : m.current = some p) :
    p.partition ∈ m.partitions := by
  rw [partitions, Kernel.processes, hc]
  exact List.mem_cons_self

theorem mem_partitions_of_ready {p : Process} (hp : p ∈ m.ready.toList) :
    p.partition ∈ m.partitions :=
  List.mem_map_of_mem (List.mem_append_right _ hp)

/-- A partition is not both on the processor and in the queue. -/
theorem Housed.partition_ne (hm : m.Housed) {p q : Process} (hc : m.current = some p)
    (hq : q ∈ m.ready.toList) : q.partition ≠ p.partition := by
  have hnodup := hm.partitions_nodup
  rw [map_partition_residents, Kernel.processes, hc] at hnodup
  intro he
  refine (List.nodup_cons.1 hnodup).1 ?_
  rw [← he]
  exact List.mem_map_of_mem hq

theorem Housed.notMem_partitions (hm : m.Housed) (hfree : m.memory.inUse[partition]? = some false) :
    partition ∉ m.partitions := by
  rw [partitions, ← map_partition_residents]
  exact hm.notMem_of_free hfree

/-- Only a load takes a partition. -/
theorem Shift.partitions_subset (h : Shift m ts m') : m'.partitions ⊆ m.partitions := by
  intro q hq
  rw [partitions, ← map_partition_residents] at hq ⊢
  cases h with
  | stay hr => exact (hr.map _).subset hq
  | leave hr => exact (hr.map Resident.partition).symm.subset (List.mem_cons_of_mem _ hq)
  | turn hr hr' =>
    rw [hr'] at hq
    rw [hr]
    exact hq

end

end Machine

section

open Machine

variable {A : Machine → Request → Prop} {m m' : Machine} {ts : List Turn}
  {beats : List (Traced Machine)} {partition : Nat} {stay : List Machine}

theorem Act.housed (h : Act A m ts m') (hm : m.Housed) : m'.Housed := by
  rcases h.cases_move with hmove | ⟨-, program, partition, hloaded, -⟩
  · exact hm.shift (shift_of_move hm hmove)
  · exact hm.load hloaded

/-- Who queues after an act queued before it, or comes from the processor and waits, or is new and
ready. -/
theorem Act.queued (h : Act A m ts m') (hm : m.Housed) {p : Process}
    (hp : p ∈ m'.ready.toList) :
    p ∈ m.ready.toList ∨
      p.status = .waiting ∧ (∃ p₀ ∈ m.current, p₀.partition = p.partition) ∨
      p.status = .ready ∧ p.partition ∉ m.partitions := by
  cases h with
  | aside h =>
    rw [h] at hp
    exact .inl hp
  | load h =>
    rw [h.machine_eq] at hp
    rcases List.mem_append.1 hp with hp | hp
    · exact .inl hp
    · obtain rfl := List.mem_singleton.1 hp
      exact .inr (.inr ⟨rfl, hm.notMem_partitions h.free⟩)
  | start hc hr =>
    left
    rw [hr]
    exact ((List.sublist_cons_self _ _).append_left _).subset hp
  | rotate hc ht hw hr =>
    rcases List.mem_append.1 hp with hp | hp
    · exact .inl (hr ▸ List.mem_cons_of_mem _ hp)
    · obtain rfl := List.mem_singleton.1 hp
      exact .inr (.inl ⟨rfl, _, hc, rfl⟩)
  | retire hc hr => exact .inl (hr ▸ List.mem_cons_of_mem _ hp)
  | drop hr =>
    left
    rw [hr]
    exact ((List.sublist_cons_self _ _).append_left _).subset hp
  | _ => exact .inl hp

theorem Beat.queued (h : Beat A m ts m') (hm : m.Housed) {p : Process}
    (hp : p ∈ m'.ready.toList) :
    p ∈ m.ready.toList ∨
      p.status = .waiting ∧ (∃ p₀ ∈ m.current, p₀.partition = p.partition) ∨
      p.status = .ready ∧ p.partition ∉ m.partitions := by
  rcases h.acts with h | ⟨m₁, hfirst, -, hready⟩
  · exact h.queued hm hp
  · rw [hready] at hp
    exact hfirst.queued hm hp

theorem Beat.housed (h : Beat A m ts m') (hm : m.Housed) : m'.Housed :=
  h.keep (P := fun _ m => m.Housed) [] (fun hact hm => hact.housed hm) hm

/-- The process in the partition waits if it was on the processor in `stay`, and is ready if not. -/
structure Marked (partition : Nat) (stay : List Machine) (m : Machine) : Prop where
  mem : partition ∈ m.partitions
  current : ∀ p ∈ m.current, p.partition = partition → Dispatched partition stay
  waiting : Dispatched partition stay →
    ∀ p ∈ m.ready.toList, p.partition = partition → p.status = .waiting
  ready : ¬ Dispatched partition stay →
    ∀ p ∈ m.ready.toList, p.partition = partition → p.status = .ready

theorem Beat.marked (h : Beat A m ts m') (hm : m.Housed) (hmark : Marked partition stay m)
    (hmem : partition ∈ m'.partitions) : Marked partition (stay ++ [m']) m' := by
  have hm' := h.housed hm
  have hnow : Dispatched partition [m'] ↔ ∃ p ∈ m'.current, p.partition = partition := by
    simp [Dispatched]
  have hbefore : ∀ p ∈ m'.ready.toList, p.partition = partition →
      (Dispatched partition (stay ++ [m']) ↔ Dispatched partition stay) := by
    rintro p hp rfl
    rw [Dispatched.append, hnow, or_iff_left]
    rintro ⟨p', hp', he⟩
    exact hm'.partition_ne hp' hp he.symm
  refine ⟨hmem, fun p hp he => Dispatched.append.2 (.inr (hnow.2 ⟨p, hp, he⟩)),
    fun hd p hp he => ?_, fun hd p hp he => ?_⟩
  · rw [hbefore p hp he] at hd
    subst he
    rcases h.queued hm hp with hp | ⟨hwait, -⟩ | ⟨-, hnew⟩
    · exact hmark.waiting hd p hp rfl
    · exact hwait
    · exact absurd hmark.mem hnew
  · rw [hbefore p hp he] at hd
    subst he
    rcases h.queued hm hp with hp | ⟨-, p₀, hp₀, he⟩ | ⟨hready, -⟩
    · exact hmark.ready hd p hp rfl
    · exact absurd (hmark.current p₀ hp₀ he) hd
    · exact hready

theorem Beats.marked (h : Beats A m beats m') (hm : m.Housed) (hmark : Marked partition stay m)
    (hmem : ∀ t ∈ beats, partition ∈ t.value.partitions) :
    Marked partition (stay ++ beats.map Traced.value) m' := by
  induction h generalizing stay with
  | refl => simpa using hmark
  | cons hbeat _ ih =>
    have hnext := hbeat.marked hm hmark (hmem _ List.mem_cons_self)
    have hlast := ih (hbeat.housed hm) hnext fun t ht => hmem t (List.mem_cons_of_mem _ ht)
    rwa [List.append_assoc] at hlast

/-- Without a load, whose partition is taken in the end had it all the time. -/
theorem Beats.mem_partitions (hA : ∀ m program, ¬ A m (.load program)) (h : Beats A m beats m')
    (hm : m.Housed) (hmem : partition ∈ m'.partitions) :
    partition ∈ m.partitions ∧ ∀ t ∈ beats, partition ∈ t.value.partitions := by
  have hact : ∀ {m m' : Machine} {ts : List Turn}, Act A m ts m' → m.Housed →
      m'.partitions ⊆ m.partitions := by
    intro m m' ts h hm
    rcases h.cases_move with hmove | ⟨-, program, _, -, hload⟩
    · exact (shift_of_move hm hmove).partitions_subset
    · exact absurd hload (hA m program)
  induction h with
  | refl => exact ⟨hmem, fun t ht => absurd ht List.not_mem_nil⟩
  | cons hbeat _ ih =>
    obtain ⟨hfirst, hrest⟩ := ih (hbeat.housed hm) hmem
    refine ⟨?_, fun t ht => ?_⟩
    · rcases hbeat.acts with h | ⟨m₁, h₁, h₂, -⟩
      · exact hact h hm hfirst
      · exact hact h₁ hm (hact h₂ (h₁.housed hm) hfirst)
    · rcases List.mem_cons.1 ht with rfl | ht
      · exact hfirst
      · exact hrest t ht

end

namespace Machine

section

variable {m m' : Machine} {partition : Nat} {stay : List Machine}

/-- A new process has not been on the processor, and is ready. -/
theorem Loaded.marked {program : List UInt8} (hm : m.Housed)
    (h : Loaded m m' program partition) : Marked partition [] m' := by
  have hnew := hm.notMem_partitions h.free
  have hnone : ¬ Dispatched partition [] := by
    rintro ⟨m, hm, -⟩
    cases hm
  rw [h.machine_eq]
  refine ⟨?_, fun p hp he => ?_, fun hd => absurd hd hnone, fun _ p hp he => ?_⟩
  · have hlast := List.mem_append_right m.ready.toList (List.mem_singleton_self
      ({ pid := m.nextPid, partition, status := .ready } : Process))
    exact List.mem_map.2 ⟨_, List.mem_append_right _ hlast, rfl⟩
  · exact absurd (he ▸ mem_partitions_of_current hp) hnew
  · rcases List.mem_append.1 hp with hp | hp
    · exact absurd (he ▸ mem_partitions_of_ready hp) hnew
    · rw [List.mem_singleton.1 hp]

theorem Loaded.getLast?_ready {program : List UInt8} (h : Loaded m m' program partition) :
    m'.ready.toList.getLast?.map Process.partition = some partition := by
  rw [h.machine_eq]
  simp

/-- In its tenure a process waits exactly if it was dispatched. -/
theorem Tenure.marked {ops : List Operation} (hm : m.Housed) (h : m.Tenure ops partition stay) :
    Marked partition stay (m.afterAll ops).value := by
  obtain ⟨before, program, after, t, rfl, hload, hlast, rfl, hmem⟩ := h
  obtain ⟨-, -, partition', hloaded⟩ := load_eq_ok hload
  have hsame : partition' = partition :=
    Option.some.inj (hloaded.getLast?_ready.symm.trans hlast)
  subst hsame
  have hbefore := hm.afterAll before
  have hgrants : t.value.2.Grants (fun _ _ => True) after := grants_of_forall fun _ _ _ => trivial
  have hmark := hgrants.beats.marked (hbefore.load hloaded) (hloaded.marked hbefore) fun u hu =>
    hmem _ (List.mem_map_of_mem hu)
  have hend : (m.afterAll (before ++ .ask (.load program) :: after)).value =
      (t.value.2.afterAll after).value := by
    rw [value_afterAll_append, afterAll_cons, Traced.value_bind, (after_load hload).2.1]
  rw [hend]
  exact hmark

theorem Tenure.cons {op : Operation} {ops : List Operation}
    (h : (m.after op).value.Tenure ops partition stay) : m.Tenure (op :: ops) partition stay := by
  obtain ⟨before, program, after, t, rfl, hload, hlast, hstay, hmem⟩ := h
  exact ⟨op :: before, program, after, t, rfl, hload, hlast, hstay, hmem⟩

/-- Whose partition is taken in the end had it all the time, or took it in the run. -/
theorem Housed.tenure (hm : m.Housed) (ops : List Operation)
    (hmem : partition ∈ (m.afterAll ops).value.partitions) :
    (partition ∈ m.partitions ∧ ∀ t ∈ m.beatsIn ops, partition ∈ t.value.partitions) ∨
      ∃ stay, m.Tenure ops partition stay := by
  induction ops generalizing m with
  | nil => exact .inl ⟨hmem, fun t ht => absurd ht List.not_mem_nil⟩
  | cons op ops ih =>
    rcases ih (m := (m.after op).value) (hm.afterAll [op]) hmem with ⟨hfirst, hrest⟩ | ⟨stay, hstay⟩
    · cases hgrant : m.grantsLoad op with
      | false =>
        have hbeats : Beats (fun _ r => ∀ program, r ≠ .load program) m (m.beatsOf op)
            (m.after op).value := by
          refine beats_beatsOf fun r t hop ht program hr => ?_
          subst hop hr
          cases hload : m.load program with
          | error reason => simp [perform, hload, bind, Except.bind] at ht
          | ok u =>
            rw [(after_load hload).1] at hgrant
            cases hgrant
        obtain ⟨hold, hbeat⟩ :=
          hbeats.mem_partitions (fun _ program hA => hA program rfl) hm hfirst
        refine .inl ⟨hold, fun t ht => ?_⟩
        rcases List.mem_append.1 ht with ht | ht
        · exact hbeat t ht
        · exact hrest t ht
      | true =>
        obtain ⟨program, t, rfl, hload⟩ := exists_load_of_grantsLoad hgrant
        obtain ⟨-, -, taken, hloaded⟩ := load_eq_ok hload
        have hvalue := (after_load hload).2.1
        by_cases hnew : partition = taken
        · subst hnew
          refine .inr ⟨_, [], program, ops, t, rfl, hload, hloaded.getLast?_ready, rfl, ?_⟩
          intro m' hm'
          obtain ⟨u, hu, rfl⟩ := List.mem_map.1 hm'
          rw [hvalue] at hrest
          exact hrest u hu
        · refine .inl ⟨?_, fun u hu => ?_⟩
          · rw [hvalue, partitions, ← map_partition_residents, hloaded.residents_eq,
              List.map_append, List.mem_append] at hfirst
            rcases hfirst with hold | hold
            · rwa [map_partition_residents] at hold
            · exact absurd (List.mem_singleton.1 hold) hnew
          · rcases List.mem_cons.1 hu with rfl | hu
            · exact hfirst
            · exact hrest u hu
    · exact .inr ⟨stay, hstay.cons⟩

end

/-- **Flags, mode and states are coherent.** However a machine is used, the processor executes on
its own exactly while a process is current and single-step mode is off, the mode is that of the user
exactly while a process is current, and the current process is running. A queued process has a
tenure; it is waiting if it was on the processor in it, and ready if it never was. Without a current
process no cycles are counted, and the quantum is at least one cycle. -/
theorem coherence {s : Settings} {booted : Traced Machine} (hboot : boot s = .ok booted)
    (ops : List Operation) :
    let m := (booted.value.afterAll ops).value
    (m.processor.executing = true ↔ m.current.isSome = true ∧ m.singleStep = false) ∧
      (m.mode = .user ↔ m.current.isSome = true) ∧
      (∀ p ∈ m.current, p.status = .running) ∧
      (∀ p ∈ m.ready.toList, (∃ stay, booted.value.Tenure ops p.partition stay) ∧
        ∀ stay, booted.value.Tenure ops p.partition stay →
          (Dispatched p.partition stay → p.status = .waiting) ∧
          (¬ Dispatched p.partition stay → p.status = .ready)) ∧
      (m.current = none → m.scheduler.cycles = 0) ∧ 0 < m.scheduler.quantum := by
  intro m
  have hbooted := boot_eq_ok hboot
  have hm : m.Coherent := hbooted.coherent_afterAll ops
  refine ⟨?_, ?_, hm.running, fun p hp => ⟨?_, fun stay hstay => ?_⟩, hm.cycles_eq,
    hm.quantum_pos⟩
  · rw [hm.inGear, Bool.and_eq_true, Bool.not_eq_true', and_comm]
  · rw [hm.mode_eq]
    cases m.current <;> simp
  · rcases hbooted.housed.tenure ops (mem_partitions_of_ready hp) with ⟨hold, -⟩ | htenure
    · -- nobody was there when the machine was switched on
      rw [partitions, ← map_partition_residents, hbooted.residents_eq] at hold
      cases hold
    · exact htenure
  · have hmark := hstay.marked hbooted.housed
    exact ⟨fun hd => hmark.waiting hd p hp rfl, fun hd => hmark.ready hd p hp rfl⟩

/-- After a kill and a load, the processor goes on with one process and the new one is ready. -/
theorem coherence_small :
    let ops := sharing ++ [.ask (.kill 1), .ask (.load [0xEA])]
    let m := (small.value.afterAll ops).value
    m.current.isSome = true ∧ m.singleStep = false ∧ m.processor.executing = true ∧
      m.mode = .user ∧ m.ready.toList.length = 1 ∧
      ∀ p ∈ m.ready.toList, ∃ stay, small.value.Tenure ops p.partition stay := by
  intro ops m
  have hcurrent : m.current.isSome = true := by decide +kernel
  have hmode : m.singleStep = false := by decide +kernel
  have hqueue : m.ready.toList.length = 1 := by decide +kernel
  obtain ⟨hexecuting, huser, -, hqueued, -, -⟩ := coherence boot_small ops
  exact ⟨hcurrent, hmode, hexecuting.2 ⟨hcurrent, hmode⟩, huser.2 hcurrent, hqueue,
    fun p hp => (hqueued p hp).1⟩

end Machine

end Timeshare
