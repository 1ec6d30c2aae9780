import Timeshare.Proofs.Runs

/-!
# Ownership of partitions

`Machine.Owned` ties a machine to the settings it was built from and to the number of programs that
were loaded: process ids are handed out in order, and each resident has an id and a partition of its
own. Ids are 32-bit numbers, so all of it holds as long as there are ids left to hand out. What a
load writes does not depend on ids: it fills the lowest free partition and leaves nothing of an
earlier owner there.
-/
namespace Timeshare

namespace Machine

/-- A machine built from `s` after `loads` granted loads. -/
structure Owned (s : Settings) (loads : Nat) (m : Machine) : Prop where
  housed : m.Housed
  pids_nodup : (m.residents.map Resident.pid).Nodup
  pid_lt : ∀ pid ∈ m.residents.map Resident.pid, pid.toNat < loads
  toNat_nextPid : m.nextPid.toNat = loads
  partitionSize_eq : m.memory.partitionSize = s.partitionSize
  partitionCount_eq : m.memory.partitionCount = s.partitions

variable {s : Settings} {loads : Nat} {m m' : Machine}

theorem Booted.owned (h : Booted s m) : m.Owned s 0 where
  housed := h.housed
  pids_nodup := by
    rw [h.residents_eq]
    exact List.nodup_nil
  pid_lt := by
    rw [h.residents_eq]
    intro pid hpid
    cases hpid
  toNat_nextPid := by
    rw [h.machine_eq]
    rfl
  partitionSize_eq := h.partitionSize_eq
  partitionCount_eq := by
    rw [Memory.partitionCount, h.inUse_eq, Array.size_replicate]

end Machine

/-- Only a load hands out a process id. -/
theorem Move.nextPid_eq {m m' : Machine} {ts : List Turn} (h : Move m ts m') :
    m'.nextPid = m.nextPid := by
  cases h with
  | aside h => exact h.nextPid_eq
  | start => rfl
  | rotate => rfl
  | retire => rfl
  | halt => rfl
  | drop => rfl
  | turn => rfl

namespace Machine

variable {s : Settings} {loads : Nat} {m m' : Machine}

theorem Owned.move {ts : List Turn} (hm : m.Owned s loads) (h : Move m ts m') :
    m'.Owned s loads := by
  have hshift := shift_of_move hm.housed h
  have hpids := hshift.subperm_pids
  refine ⟨hm.housed.shift hshift, ?_, fun pid hpid => hm.pid_lt pid (hpids.subset hpid), ?_, ?_, ?_⟩
  · obtain ⟨pids, hperm, hsub⟩ := hpids
    exact hperm.nodup_iff.1 (hsub.nodup hm.pids_nodup)
  · rw [h.nextPid_eq, hm.toNat_nextPid]
  · rw [hshift.layout_eq.1, hm.partitionSize_eq]
  · rw [hshift.layout_eq.2, hm.partitionCount_eq]

theorem Owned.moves {ts : List Turn} (hm : m.Owned s loads) (h : Moves m ts m') :
    m'.Owned s loads :=
  h.keep (fun hmove hm => hm.move hmove) hm

/-- The id of a new process is one that no process had before. -/
theorem Owned.nextPid_notMem (hm : m.Owned s loads) :
    m.nextPid ∉ m.residents.map Resident.pid := fun hmem => by
  have hlt := hm.pid_lt _ hmem
  rw [hm.toNat_nextPid] at hlt
  exact Nat.lt_irrefl _ hlt

theorem Owned.load {program : List UInt8} {partition : Nat} (hm : m.Owned s loads)
    (hloads : loads + 1 < UInt32.size) (h : Loaded m m' program partition) :
    m'.Owned s (loads + 1) := by
  have hpids : m'.residents.map Resident.pid = m.residents.map Resident.pid ++ [m.nextPid] := by
    rw [h.residents_eq, List.map_append]
    rfl
  have hnext : m'.nextPid = m.nextPid + 1 := by rw [h.machine_eq]
  refine ⟨hm.housed.load h, ?_, fun pid hpid => ?_, ?_, ?_, ?_⟩
  · rw [hpids, ← List.concat_eq_append]
    exact hm.pids_nodup.concat hm.nextPid_notMem
  · rw [hpids, List.mem_append, List.mem_singleton] at hpid
    rcases hpid with hold | rfl
    · exact Nat.lt_succ_of_lt (hm.pid_lt pid hold)
    · rw [hm.toNat_nextPid]
      exact Nat.lt_succ_self loads
  · rw [hnext, UInt32.toNat_add, hm.toNat_nextPid]
    exact Nat.mod_eq_of_lt hloads
  · rw [h.partitionSize_eq, hm.partitionSize_eq]
  · rw [Memory.partitionCount, h.inUse_eq, Array.size_setIfInBounds]
    exact hm.partitionCount_eq

/-- The count grows with a load that is granted. -/
theorem Owned.after (op : Operation) (hm : m.Owned s loads)
    (hloads : loads + (m.grantsLoad op).toNat < UInt32.size) :
    (m.after op).value.Owned s (loads + (m.grantsLoad op).toNat) := by
  cases hgrant : m.grantsLoad op with
  | false => exact hm.moves (moves_after hgrant)
  | true =>
    rw [hgrant] at hloads
    obtain ⟨program, t, rfl, hok⟩ := exists_load_of_grantsLoad hgrant
    obtain ⟨-, -, partition, hloaded⟩ := load_eq_ok hok
    rw [(after_load hok).2.1]
    exact hm.load hloads hloaded

/-- Ownership along a run. -/
theorem Owned.afterAll (ops : List Operation) (hm : m.Owned s loads)
    (hloads : loads + m.loadsIn ops < UInt32.size) :
    (m.afterAll ops).value.Owned s (loads + m.loadsIn ops) := by
  induction ops generalizing m loads with
  | nil => exact hm
  | cons op ops ih =>
    rw [loadsIn, ← Nat.add_assoc] at hloads ⊢
    rw [afterAll_cons, Traced.value_bind]
    exact ih (hm.after op (Nat.lt_of_le_of_lt (Nat.le_add_right _ _) hloads)) hloads

/-- The ids that were handed out are those below the next one. -/
theorem Owned.of_nextPid (hm : m.Owned s loads) : m.Owned s m.nextPid.toNat := by
  rwa [hm.toNat_nextPid]

theorem Booted.owned_afterAll (h : Booted s m) (ops : List Operation)
    (hloads : m.loadsIn ops < UInt32.size) : (m.afterAll ops).value.Owned s (m.loadsIn ops) := by
  have hrun := h.owned.afterAll ops (by rwa [Nat.zero_add])
  rwa [Nat.zero_add] at hrun

/-- **Ownership of partitions.** However a machine is used, the resident processes have distinct
ids among those handed out and distinct partitions, and a partition is in use exactly if a resident
process owns it. -/
theorem partition_ownership {booted : Traced Machine} (hboot : boot s = .ok booted)
    (ops : List Operation) (hloads : booted.value.loadsIn ops < UInt32.size) :
    let m := (booted.value.afterAll ops).value
    (m.processes.map Process.pid).Nodup ∧
      (∀ p ∈ m.processes, p.pid.toNat < booted.value.loadsIn ops) ∧
      (m.processes.map Process.partition).Nodup ∧
      (∀ p ∈ m.processes, p.partition < m.memory.partitionCount) ∧
      (∀ i, m.memory.inUse[i]? = some true ↔ ∃ p ∈ m.processes, p.partition = i) ∧
      m.memory.freeCount + m.processes.length = m.memory.partitionCount ∧
      m.memory.partitionCount = s.partitions := by
  intro m
  have hm : m.Owned s (booted.value.loadsIn ops) := by
    have hrun := (boot_eq_ok hboot).owned.afterAll ops (by rwa [Nat.zero_add])
    rwa [Nat.zero_add] at hrun
  have hpids := hm.pids_nodup
  have hpartitions := hm.housed.partitions_nodup
  rw [map_pid_residents] at hpids
  rw [map_partition_residents] at hpartitions
  have huse (i : Nat) : m.memory.inUse[i]? = some true ↔ ∃ p ∈ m.processes, p.partition = i := by
    rw [hm.housed.inUse_iff, map_partition_residents, List.mem_map]
  refine ⟨hpids, fun p hp => ?_, hpartitions, fun p hp => ?_, huse, ?_, hm.partitionCount_eq⟩
  · refine hm.pid_lt _ ?_
    rw [map_pid_residents]
    exact List.mem_map_of_mem hp
  · obtain ⟨hlt, -⟩ := Array.getElem?_eq_some_iff.1 ((huse p.partition).2 ⟨p, hp, rfl⟩)
    exact hlt
  · rw [← length_residents]
    exact hm.housed.freeCount_add

/-- A third program is refused until the first one is killed. -/
theorem partition_ownership_small :
    let ops := sharing ++ [.ask (.load []), .ask (.kill 0), .ask (.load [])]
    let m := (small.value.afterAll ops).value
    small.value.loadsIn ops < UInt32.size ∧ (m.processes.map Process.pid).Nodup ∧
      m.memory.freeCount + m.processes.length = m.memory.partitionCount := by
  intro ops m
  have hloads : small.value.loadsIn ops < UInt32.size := by decide +kernel
  obtain ⟨hpids, -, -, -, -, hcount, -⟩ := partition_ownership boot_small ops hloads
  exact ⟨hloads, hpids, hcount⟩

/-- **A load is clean and private.** If a machine that was used in any way loads a program, a new
process comes last, ready and with zero registers, in the lowest partition that was free and that no
other process has. The partition holds the program and zeros behind it, whatever it held before, and
is in use now. No byte elsewhere and nothing else in the machine changes, but that an id is handed
out. -/
theorem load_private {booted : Traced Machine} (hboot : boot s = .ok booted)
    (ops : List Operation) {program : List UInt8} {t : Traced (Pid × Machine)}
    (hload : (booted.value.afterAll ops).value.load program = .ok t) :
    let m := (booted.value.afterAll ops).value
    let m' := t.value.2
    ∃ partition,
      let fresh : Process := { pid := t.value.1, partition, status := .ready, registers := {} }
      m'.processes = m.processes ++ [fresh] ∧
      m.memory.inUse[partition]? = some false ∧
      (∀ q < partition, m.memory.inUse[q]? = some true) ∧
      (∀ p ∈ m.processes, p.partition ≠ partition) ∧
      program.length ≤ m.memory.partitionSize ∧
      m'.memory.contents partition =
        program ++ List.replicate (m.memory.partitionSize - program.length) 0 ∧
      (∀ q ≠ partition, m'.memory.contents q = m.memory.contents q) ∧
      (∀ i, m'.memory.inUse[i]? = if i = partition then some true else m.memory.inUse[i]?) ∧
      m'.memory.partitionSize = m.memory.partitionSize ∧
      m'.memory.freeCount + 1 = m.memory.freeCount ∧
      t.value.1 = m.nextPid ∧
      m' = { m with
        memory := m'.memory
        ready := m.ready.enqueue fresh
        nextPid := m.nextPid + 1 } := by
  intro m m'
  have hm : m.Housed := (boot_eq_ok hboot).housed.afterAll ops
  obtain ⟨-, hpid, partition, hloaded⟩ := load_eq_ok hload
  have hmachine : m' = _ := hloaded.machine_eq
  have hnew : ∀ p ∈ m.processes, p.partition ≠ partition := fun p hp he => by
    refine hm.notMem_of_free hloaded.free ?_
    rw [map_partition_residents, ← he]
    exact List.mem_map_of_mem hp
  refine ⟨partition, ?_, hloaded.free, hloaded.lowest, hnew, hloaded.length_le,
    hloaded.contents_eq, hloaded.others_eq, hloaded.getElem?_inUse, hloaded.partitionSize_eq,
    hm.freeCount_load hloaded, hpid, ?_⟩
  · rw [hmachine, hpid, Kernel.processes, Kernel.processes, List.append_assoc]
    rfl
  · rw [hpid]
    exact hmachine

/-- The partition of a process that was killed is taken again, and nothing is left of it there. -/
theorem load_private_small :
    let m := (small.value.afterAll (sharing ++ [.ask (.kill 0)])).value
    m.memory.contents 0 = [0xEA, 0xEA, 0xA9, 0x07] ∧
      ∃ t, m.load [0x60] = .ok t ∧ t.value.2.memory.contents 0 = [0x60, 0, 0, 0] ∧
        t.value.2.processes.map Process.pid = [1, 2] := by
  intro m
  have hbefore : m.memory.contents 0 = [0xEA, 0xEA, 0xA9, 0x07] := by decide +kernel
  have hsize : m.memory.partitionSize = 4 := by decide +kernel
  have hfree : m.memory.inUse[0]? = some false := by decide +kernel
  have hpids : m.processes.map Process.pid = [1] := by decide +kernel
  have hnext : m.nextPid = 2 := by decide +kernel
  have hloaded : ∃ t, m.load [0x60] = .ok t := by
    have hok : (m.load [0x60]).isOk = true := by decide +kernel
    revert hok
    cases m.load [0x60] with
    | error => exact fun h => nomatch h
    | ok t => exact fun _ => ⟨t, rfl⟩
  obtain ⟨t, hload⟩ := hloaded
  obtain ⟨partition, hprocesses, -, hlowest, -, -, hcontents, -, -, -, -, hpid, -⟩ :=
    load_private boot_small _ hload
  have hzero : partition = 0 := by
    refine Nat.eq_zero_of_not_pos fun hpos => ?_
    have hused := hlowest 0 hpos
    rw [hfree] at hused
    cases hused
  subst hzero
  refine ⟨hbefore, t, hload, ?_, ?_⟩
  · rw [hcontents, hsize]
    rfl
  · rw [hprocesses, List.map_append, hpids, hpid, hnext]
    rfl

end Machine

end Timeshare
