import Mathlib.Data.List.Perm.Basic
import Timeshare.Proofs.Moves
import Timeshare.Proofs.Solo

/-!
# Resident processes

A resident is a process as its program sees it: who it is, where its bytes are, and the registers
it would go on with, which are the live ones while it is on the processor. Seen this way a move
does one of three things: it puts the residents in another order, it lets one of them leave and
frees the partition, or it lets the first one take a step of its own.

`Machine.Housed` is the invariant behind all of it. It speaks of partitions only and holds however
many programs are loaded, also where process ids have run out.
-/
namespace Timeshare

structure Resident where
  pid : Pid
  partition : Nat
  registers : Registers
deriving DecidableEq, Repr

def Process.resident (p : Process) : Resident := ⟨p.pid, p.partition, p.registers⟩

/-- The program of a resident on its own. -/
def Resident.solo (r : Resident) (memory : Memory) : Solo :=
  ⟨r.registers, memory.contents r.partition⟩

namespace Machine

/-- The resident processes in order, the current one with the live registers. -/
def residents (m : Machine) : List Resident :=
  m.toKernel.saveCurrent.processes.map Process.resident

theorem map_pid_residents (m : Machine) :
    m.residents.map Resident.pid = m.processes.map Process.pid := by
  cases hc : m.current <;>
    simp [residents, Kernel.saveCurrent, Kernel.processes, hc, Process.resident, Process.save]

theorem map_partition_residents (m : Machine) :
    m.residents.map Resident.partition = m.processes.map Process.partition := by
  cases hc : m.current <;>
    simp [residents, Kernel.saveCurrent, Kernel.processes, hc, Process.resident, Process.save]

theorem length_residents (m : Machine) : m.residents.length = m.processes.length := by
  simpa using congrArg List.length m.map_pid_residents

/-- The current process comes first, then the queue. -/
theorem residents_eq (m : Machine) :
    m.residents = (m.current.map fun p => ⟨p.pid, p.partition, m.processor.registers⟩).toList ++
      m.ready.toList.map Process.resident := by
  cases hc : m.current <;>
    simp [residents, Kernel.saveCurrent, Kernel.processes, hc, Process.resident, Process.save]

theorem residents_of_current {m : Machine} {p : Process} (hc : m.current = some p) :
    m.residents =
      ⟨p.pid, p.partition, m.processor.registers⟩ :: m.ready.toList.map Process.resident := by
  rw [residents_eq, hc]
  rfl

theorem mem_residents_of_current {m : Machine} {p : Process} (hc : m.current = some p) :
    ⟨p.pid, p.partition, m.processor.registers⟩ ∈ m.residents := by
  rw [residents_of_current hc]
  exact List.mem_cons_self

theorem residents_of_idle {m : Machine} (hc : m.current = none) :
    m.residents = m.ready.toList.map Process.resident := by
  rw [residents_eq, hc]
  rfl

theorem exists_resident_of_mem_processes {m : Machine} {p : Process} (h : p ∈ m.processes) :
    ∃ r ∈ m.residents, r.pid = p.pid ∧ r.partition = p.partition := by
  rw [Kernel.processes, List.mem_append, Option.mem_toList] at h
  rw [residents_eq]
  rcases h with h | h
  · rw [h]
    exact ⟨_, List.mem_cons_self, rfl, rfl⟩
  · exact ⟨p.resident, List.mem_append_right _ (List.mem_map_of_mem h), rfl, rfl⟩

@[simp]
theorem residents_handTo (m : Machine) (next : Process) (ready : List Process) :
    (m.handTo next ready).residents = next.resident :: ready.map Process.resident := rfl

@[simp]
theorem residents_stopped (m : Machine) :
    m.stopped.residents = m.ready.toList.map Process.resident := rfl

theorem residents_beside {m m' : Machine} (h : m.Beside m') : m'.residents = m.residents := by
  rw [residents_eq, residents_eq, h.current_eq, h.ready_eq, h.registers_eq]

/-! ## The invariant -/

/-- Every resident has a partition of its own, its counter is inside, and no other partition is
in use. -/
structure Housed (m : Machine) : Prop where
  partitions_nodup : (m.residents.map Resident.partition).Nodup
  inUse_iff : ∀ i, m.memory.inUse[i]? = some true ↔ i ∈ m.residents.map Resident.partition
  counter_lt : ∀ r ∈ m.residents, r.registers.counter < m.memory.partitionSize

theorem Housed.partition_lt {m : Machine} (h : m.Housed) {r : Resident} (hr : r ∈ m.residents) :
    r.partition < m.memory.partitionCount := by
  have huse := (h.inUse_iff r.partition).2 (List.mem_map_of_mem hr)
  exact (Array.getElem?_eq_some_iff.1 huse).1

/-- What a move does to the residents and to memory. -/
inductive Shift : Machine → List Turn → Machine → Prop
  | stay {m m' : Machine} (hr : m'.residents.Perm m.residents) (hm : m'.memory = m.memory) :
      Shift m [] m'
  | leave {m m' : Machine} {r : Resident} (hr : m.residents.Perm (r :: m'.residents))
      (hm : m'.memory = m.memory.free r.partition) : Shift m [] m'
  | turn {m m' : Machine} {r : Resident} {registers : Registers} {rest : List Resident}
      (hr : m.residents = r :: rest) (hr' : m'.residents = { r with registers } :: rest)
      (hstep : Solo.mk registers (m'.memory.contents r.partition) = (r.solo m.memory).step)
      (hlayout : m.memory.SameLayout m'.memory)
      (hothers : ∀ q ≠ r.partition, m'.memory.contents q = m.memory.contents q) :
      Shift m [⟨r.pid, (r.solo m.memory).trap?.map (Trap.interrupt r.pid)⟩] m'

/-- The current process of a housed machine runs as the reference machine does. -/
theorem Housed.cycle_agrees {m : Machine} (h : m.Housed) {p : Process} (hc : m.current = some p) :
    (m.processor.cycle p m.memory).value.Agrees m.processor p m.memory
      ⟨m.processor.registers, m.memory.contents p.partition⟩ := by
  have hmem := mem_residents_of_current hc
  exact m.processor.cycle_agrees (h.partition_lt hmem) (h.counter_lt _ hmem)

theorem residents_turned {m : Machine} {p : Process} {s : Solo} {c : Cycle}
    (h : c.Agrees m.processor p m.memory s) :
    (m.turned c).residents =
      ⟨p.pid, p.partition, s.step.registers⟩ :: m.ready.toList.map Process.resident := by
  have hid : c.process.pid = p.pid ∧ c.process.partition = p.partition := by
    rw [h.process_eq]
    split <;> exact ⟨rfl, rfl⟩
  rw [residents_of_current (p := c.process) rfl, hid.1, hid.2]
  show (⟨_, _, c.processor.registers⟩ : Resident) :: _ = _
  rw [h.processor_eq]
  rfl

/-- A cycle of the current process is a step of the first resident. -/
theorem shift_turned {m : Machine} (hm : m.Housed) {p : Process} (hc : m.current = some p) :
    Shift m [⟨p.pid, (m.processor.cycle p m.memory).value.raised⟩]
      (m.turned (m.processor.cycle p m.memory).value) := by
  have ha := hm.cycle_agrees hc
  rw [ha.raised_eq]
  refine .turn (residents_of_current hc) (residents_turned ha) ?_ ha.layout ha.others_eq
  exact congrArg (Solo.mk _) ha.contents_eq

/-- A rotation sends the first resident to the end. -/
theorem residents_rotate {m : Machine} {p next : Process} {rest : List Process}
    (hc : m.current = some p) (hr : m.ready.toList = next :: rest) :
    (m.handTo next
      (rest ++ [{ p.save m.processor.registers with status := .waiting }])).residents.Perm
      m.residents := by
  rw [residents_handTo, residents_of_current hc, hr, List.map_append, ← List.cons_append]
  exact List.perm_append_singleton _ _

theorem shift_of_move {m m' : Machine} {ts : List Turn} (hm : m.Housed) (h : Move m ts m') :
    Shift m ts m' := by
  cases h with
  | aside h => exact .stay (.of_eq (residents_beside h)) h.memory_eq
  | start hc hr =>
    refine .stay ?_ rfl
    rw [residents_handTo, residents_of_idle hc, hr]
    simpa using List.perm_middle.symm
  | rotate hc ht hr => exact .stay (residents_rotate hc hr) rfl
  | retire hc hr =>
    rename_i p next rest
    refine .leave (r := ⟨p.pid, p.partition, m.processor.registers⟩) ?_ rfl
    rw [residents_handTo, residents_of_current hc, hr]
    exact .refl _
  | halt hc hr =>
    rename_i p
    refine .leave (r := ⟨p.pid, p.partition, m.processor.registers⟩) ?_ rfl
    rw [residents_stopped, residents_of_current hc]
    exact .refl _
  | drop hr =>
    rename_i p before after
    refine .leave (r := p.resident) ?_ rfl
    rw [residents_eq, residents_eq, hr]
    simp only [List.map_append, List.map_cons, ← List.append_assoc]
    exact List.perm_middle
  | turn hc => exact shift_turned hm hc

/-- Whatever shifts, every resident keeps a partition of its own. -/
theorem Housed.shift {m m' : Machine} {ts : List Turn} (hm : m.Housed) (h : Shift m ts m') :
    m'.Housed := by
  cases h with
  | stay hr hmem =>
    refine ⟨(hr.map _).nodup_iff.2 hm.partitions_nodup, fun i => ?_, fun r hmem' => ?_⟩
    · rw [hmem, hm.inUse_iff, (hr.map Resident.partition).mem_iff]
    · rw [hmem]
      exact hm.counter_lt r (hr.mem_iff.1 hmem')
  | leave hr hmem =>
    rename_i r
    have hpart := hr.map Resident.partition
    have hnodup := hpart.nodup_iff.1 hm.partitions_nodup
    rw [List.map_cons, List.nodup_cons] at hnodup
    have hin := hm.partition_lt (hr.mem_iff.2 List.mem_cons_self)
    refine ⟨hnodup.2, fun i => ?_, fun x hx => ?_⟩
    · have hold := (hm.inUse_iff i).trans hpart.mem_iff
      rw [List.map_cons, List.mem_cons] at hold
      rw [hmem, m.memory.getElem?_inUse_free hin]
      by_cases hi : i = r.partition
      · subst hi
        simp [hnodup.1]
      · rw [if_neg hi, hold, or_iff_right hi]
    · rw [hmem]
      exact hm.counter_lt x (hr.mem_iff.2 (List.mem_cons_of_mem _ hx))
  | turn hr hr' hstep hlayout hothers =>
    rename_i r registers rest
    have hpart : m'.residents.map Resident.partition = m.residents.map Resident.partition := by
      rw [hr, hr']
      rfl
    refine ⟨hpart ▸ hm.partitions_nodup, fun i => ?_, fun x hx => ?_⟩
    · rw [hlayout.inUse_eq, hpart]
      exact hm.inUse_iff i
    · rw [hlayout.partitionSize_eq]
      rw [hr', List.mem_cons] at hx
      rcases hx with rfl | hx
      · have hfirst : r ∈ m.residents := hr ▸ List.mem_cons_self
        have hlen : (r.solo m.memory).bytes.length = m.memory.partitionSize :=
          m.memory.length_contents (hm.partition_lt hfirst)
        have hin := Solo.inside_step (s := r.solo m.memory) (by
          rw [hlen]
          exact m.memory.partitionSize_pos)
        rw [← hstep, Solo.Inside, hlen] at hin
        exact hin.2
      · exact hm.counter_lt x (hr ▸ List.mem_cons_of_mem _ hx)

theorem Housed.moves {m m' : Machine} {ts : List Turn} (hm : m.Housed) (h : Moves m ts m') :
    m'.Housed :=
  h.keep (fun hmove hm => hm.shift (shift_of_move hm hmove)) hm

/-- Who is resident after a shift was resident before. -/
theorem Shift.subperm_pids {m m' : Machine} {ts : List Turn} (h : Shift m ts m') :
    (m'.residents.map Resident.pid).Subperm (m.residents.map Resident.pid) := by
  cases h with
  | stay hr => exact (hr.map _).subperm
  | leave hr => exact List.Subperm.cons_self.trans (hr.map Resident.pid).symm.subperm
  | turn hr hr' =>
    rw [hr, hr']
    exact .refl _

/-- The partitions stay where they are. -/
theorem Shift.layout_eq {m m' : Machine} {ts : List Turn} (h : Shift m ts m') :
    m'.memory.partitionSize = m.memory.partitionSize ∧
      m'.memory.partitionCount = m.memory.partitionCount := by
  cases h with
  | stay _ hmem => exact ⟨by rw [hmem], by rw [hmem]⟩
  | leave _ hmem =>
    refine ⟨by rw [hmem]; rfl, ?_⟩
    rw [hmem]
    exact Array.size_setIfInBounds
  | turn _ _ _ hlayout =>
    exact ⟨hlayout.partitionSize_eq, congrArg Array.size hlayout.inUse_eq⟩

/-- Among the partitions of a housed machine, those without a resident are the free ones. -/
theorem Housed.freeCount_add {m : Machine} (h : m.Housed) :
    m.memory.freeCount + m.residents.length = m.memory.partitionCount := by
  let used (i : Nat) : Bool := m.memory.inUse.toList.getD i false
  have hlist : m.memory.inUse.toList = (List.range m.memory.partitionCount).map used := by
    apply List.ext_getElem
    · simp [Memory.partitionCount]
    · intro i hi hi'
      simp only [used, List.getElem_map, List.getElem_range, List.getD_eq_getElem?_getD,
        List.getElem?_eq_getElem hi, Option.getD_some]
  have hperm : ((List.range m.memory.partitionCount).filter used).Perm
      (m.residents.map Resident.partition) := by
    refine (List.perm_ext_iff_of_nodup (List.nodup_range.filter _) h.partitions_nodup).2 fun i => ?_
    rw [List.mem_filter, List.mem_range, ← h.inUse_iff]
    simp only [used, List.getD_eq_getElem?_getD, Array.getElem?_toList]
    by_cases hi : i < m.memory.partitionCount
    · rw [Array.getElem?_eq_getElem hi]
      simp [hi]
    · rw [Array.getElem?_eq_none (Nat.le_of_not_lt hi)]
      simp
  have hused : m.memory.inUse.toList.countP id = m.residents.length := by
    rw [hlist, List.countP_map, List.countP_eq_length_filter]
    simpa using hperm.length_eq
  have hsplit := List.length_eq_countP_add_countP id (l := m.memory.inUse.toList)
  have hfree : m.memory.freeCount = m.memory.inUse.toList.countP (fun b => ¬ id b = true) := by
    unfold Memory.freeCount
    congr 1
    funext b
    cases b <;> rfl
  have hlen : m.memory.inUse.toList.length = m.memory.partitionCount := Array.length_toList
  omega

end Machine

end Timeshare
