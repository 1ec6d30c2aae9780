import Timeshare.Proofs.Refusals

/-!
# Kills

A kill takes one process out and leaves everybody else alone. `Machine.without` says what is left
after one kill; `Machine.withoutAll` says it for several at one stroke, and does not mention an
order. Kills one after the other arrive there in any order. On the way a process may be dispatched
only to be killed next, which shows in the end only where nobody is left: the registers of the last
one on the processor stay behind.
-/
namespace Timeshare

namespace Memory

/-- Marks all partitions of a list as free. -/
def freeAll (m : Memory) (partitions : List Nat) : Memory :=
  { m with
    inUse := m.inUse.mapIdx fun i used => used && i ∉ partitions
    size_cells := by simp [m.size_cells]
    inUse_pos := by simpa using m.inUse_pos }

/-- Which partitions are freed does not depend on their order. -/
theorem freeAll_congr (m : Memory) {partitions partitions' : List Nat}
    (h : ∀ i, i ∈ partitions ↔ i ∈ partitions') : m.freeAll partitions = m.freeAll partitions' := by
  simp only [freeAll, h]

theorem freeAll_nil (m : Memory) : m.freeAll [] = m := by
  have huse : m.inUse.mapIdx (fun i used => used && i ∉ ([] : List Nat)) = m.inUse := by
    apply Array.ext_getElem?
    intro i
    simp
  simp only [freeAll, huse]

theorem freeAll_free (m : Memory) (partition : Nat) (partitions : List Nat) :
    (m.free partition).freeAll partitions = m.freeAll (partition :: partitions) := by
  have huse : (m.inUse.setIfInBounds partition false).mapIdx
        (fun i used => used && i ∉ partitions) =
      m.inUse.mapIdx fun i used => used && i ∉ partition :: partitions := by
    apply Array.ext_getElem?
    intro i
    rw [Array.getElem?_mapIdx, Array.getElem?_mapIdx, Array.getElem?_setIfInBounds]
    by_cases hi : partition = i
    · subst hi
      by_cases hlt : partition < m.inUse.size
      · simp [hlt]
      · simp [hlt]
    · simp [hi, Ne.symm hi]
  simp only [freeAll, free, huse]

end Memory

namespace Machine

open Traced

section

variable {m : Machine} {pid : Pid} {victim : Process}

/-! ## One kill -/

/-- A kill of a resident process succeeds. -/
theorem exists_kill (h : pid ∈ m.pids) :
    ∃ t, m.kill pid = .ok t ∧ t.value = m.without pid := by
  cases hend : m.terminate pid with
  | error reason => exact absurd h (terminate_eq_error_iff.1 hend).1
  | ok ended =>
    refine ⟨ended >>= fun m => report (.killed pid) >>= fun _ => pure m, ?_, ?_⟩
    · rw [kill, hend]
      rfl
    · rw [without, hend]
      rfl

theorem mem_pids_of_mem_processes (h : victim ∈ m.processes) : victim.pid ∈ m.pids :=
  List.mem_map_of_mem h

theorem nodup_pids_ready (hpids : m.pids.Nodup) : (m.ready.toList.map Process.pid).Nodup := by
  rw [pids_eq, List.nodup_append] at hpids
  exact hpids.2.1

/-- Nobody has the id of a process that waits but the process itself. -/
theorem exists_place (hpids : m.pids.Nodup) (h : victim ∈ m.ready.toList) :
    ∃ before after, m.ready.toList = before ++ victim :: after ∧
      (∀ x ∈ m.current, x.pid ≠ victim.pid) ∧ ∀ x ∈ before, x.pid ≠ victim.pid := by
  obtain ⟨before, after, hr⟩ := List.append_of_mem h
  refine ⟨before, after, hr, fun x hx he => ?_, fun x hx he => ?_⟩
  · rw [pids_of_current hx, List.nodup_cons, he] at hpids
    exact hpids.1 (List.mem_map_of_mem h)
  · have hqueue := nodup_pids_ready hpids
    rw [hr, List.map_append, List.nodup_append] at hqueue
    exact hqueue.2.2 _ (List.mem_map_of_mem hx) _ List.mem_cons_self he

/-- A resident process is current or waits, and nobody else has its id. -/
theorem front_or_queue (hpids : m.pids.Nodup) (h : victim ∈ m.processes) :
    m.current = some victim ∨
      ∃ before after, m.ready.toList = before ++ victim :: after ∧
        (∀ x ∈ m.current, x.pid ≠ victim.pid) ∧ ∀ x ∈ before, x.pid ≠ victim.pid := by
  rw [Kernel.processes, List.mem_append, Option.mem_toList] at h
  exact h.imp_right (exists_place hpids)

/-- Where the residents of a machine are listed with the victim among them, those of the machine
without it are the others. -/
theorem filter_residents (hpids : m.pids.Nodup) {before after : List Resident} {r : Resident}
    (h : m.residents = before ++ r :: after) :
    m.residents.filter (·.pid ≠ r.pid) = before ++ after := by
  rw [pids, ← map_pid_residents, h] at hpids
  rw [h]
  exact filter_ne_of_nodup Resident.pid hpids

/-- The others stay in order, with the registers that they would have gone on with. -/
theorem residents_without (hpids : m.pids.Nodup) (h : victim ∈ m.processes) :
    (m.without victim.pid).residents = m.residents.filter (·.pid ≠ victim.pid) := by
  rcases front_or_queue hpids h with hc | ⟨before, after, hr, hc, hbefore⟩
  · have hfirst : m.residents = [] ++ ⟨victim.pid, victim.partition, m.processor.registers⟩ ::
        m.ready.toList.map Process.resident := residents_of_current hc
    rw [filter_residents hpids hfirst, without_front hc]
    cases hr : m.ready.toList with
    | nil =>
      show m.ready.toList.map Process.resident = []
      rw [hr]
      rfl
    | cons next rest => rfl
  · have hplace : m.residents =
        ((m.current.map fun p => ⟨p.pid, p.partition, m.processor.registers⟩).toList ++
          before.map Process.resident) ++ victim.resident :: after.map Process.resident := by
      rw [residents_eq, hr, List.map_append, List.map_cons, List.append_assoc]
    have hothers := filter_residents hpids hplace
    rw [without_queue hc hr hbefore, residents_eq]
    refine Eq.trans ?_ hothers.symm
    rw [List.append_assoc, ← List.map_append]
    rfl

theorem memory_without (hpids : m.pids.Nodup) (h : victim ∈ m.processes) :
    (m.without victim.pid).memory = m.memory.free victim.partition := by
  rcases front_or_queue hpids h with hc | ⟨before, after, hr, hc, hbefore⟩
  · rw [without_front hc]
    cases m.ready.toList <;> rfl
  · rw [without_queue hc hr hbefore]
    rfl

/-- Memory, processor, the places of the processes, the mode and the count of cycles are all that a
kill may write. -/
theorem frame_without (hpids : m.pids.Nodup) (h : victim ∈ m.processes) :
    let m' := m.without victim.pid
    m' = { m with
      memory := m'.memory
      processor := m'.processor
      ready := m'.ready
      current := m'.current
      mode := m'.mode
      scheduler := { m.scheduler with cycles := m'.scheduler.cycles } } := by
  intro m'
  rcases front_or_queue hpids h with hc | ⟨before, after, hr, hc, hbefore⟩
  · have hm' : m' = _ := without_front hc
    rw [hm']
    cases m.ready.toList <;> rfl
  · have hm' : m' = _ := without_queue hc hr hbefore
    rw [hm']
    rfl

end

/-- **A kill touches only its victim.** However a machine is used, a resident process can be killed.
The others stay resident in order, each with the registers that it would have gone on with; the
partition of the victim is free, and no byte of memory changes. If the victim was current, the head
of the queue is dispatched with the registers that were stored for it and a fresh count of cycles,
or, with nobody in the queue, the processor stops in the mode of the kernel. If the victim waited,
nothing changes for the processor. All else is what it was. -/
theorem kill_touches_victim {s : Settings} {booted : Traced Machine} (hboot : boot s = .ok booted)
    (ops : List Operation) (hloads : booted.value.loadsIn ops < UInt32.size) {victim : Process}
    (hvictim : victim ∈ (booted.value.afterAll ops).value.processes) :
    let m := (booted.value.afterAll ops).value
    ∃ t, m.kill victim.pid = .ok t ∧
      let m' := t.value
      m'.residents = m.residents.filter (·.pid ≠ victim.pid) ∧
      m'.processes.map Process.pid = (m.processes.map Process.pid).filter (· ≠ victim.pid) ∧
      m'.memory.cells = m.memory.cells ∧
      (∀ i, m'.memory.inUse[i]? =
        if i = victim.partition then some false else m.memory.inUse[i]?) ∧
      (∀ next rest, m.current = some victim → m.ready.toList = next :: rest →
        m'.current = some { next with status := .running } ∧ m'.ready.toList = rest ∧
        m'.processor = ⟨next.registers, !m.singleStep⟩ ∧ m'.mode = .user ∧
        m'.scheduler.cycles = 0) ∧
      (m.current = some victim → m.ready.toList = [] →
        m'.current = none ∧ m'.ready.toList = [] ∧ m'.processor.executing = false ∧
        m'.mode = .kernel ∧ m'.scheduler.cycles = 0) ∧
      (victim ∈ m.ready.toList →
        m'.current = m.current ∧
        m'.ready.toList = m.ready.toList.filter (·.pid ≠ victim.pid) ∧
        m'.processor = m.processor ∧ m'.mode = m.mode ∧ m'.scheduler = m.scheduler) ∧
      m' = { m with
        memory := m'.memory
        processor := m'.processor
        ready := m'.ready
        current := m'.current
        mode := m'.mode
        scheduler := { m.scheduler with cycles := m'.scheduler.cycles } } := by
  intro m
  have howned := (boot_eq_ok hboot).owned_afterAll ops hloads
  have hpids : m.pids.Nodup := howned.nodup_pids
  obtain ⟨t, hkill, hvalue⟩ := exists_kill (mem_pids_of_mem_processes hvictim)
  have hresidents := residents_without hpids hvictim
  have hmemory := memory_without hpids hvictim
  have hframe := frame_without hpids hvictim
  refine ⟨t, hkill, ?_⟩
  rw [hvalue]
  refine ⟨hresidents, ?_, ?_, fun i => ?_, fun next rest hc hr => ?_, fun hc hr => ?_,
    fun hqueue => ?_, hframe⟩
  · rw [← map_pid_residents, ← map_pid_residents, hresidents, List.filter_map]
    rfl
  · rw [hmemory]
    rfl
  · have huse : m.memory.inUse[victim.partition]? = some true := by
      rw [howned.housed.inUse_iff, map_partition_residents]
      exact List.mem_map_of_mem hvictim
    rw [hmemory]
    exact m.memory.getElem?_inUse_free (Array.getElem?_eq_some_iff.1 huse).1 i
  · rw [without_front hc, hr]
    exact ⟨rfl, rfl, rfl, rfl, rfl⟩
  · rw [without_front hc, hr]
    exact ⟨rfl, hr, rfl, rfl, rfl⟩
  · obtain ⟨before, after, hr, hc, hbefore⟩ := exists_place hpids hqueue
    have hothers := filter_ne_of_nodup Process.pid (hr ▸ nodup_pids_ready hpids)
    rw [without_queue hc hr hbefore, hr]
    exact ⟨rfl, hothers.symm, rfl, rfl, rfl⟩

/-- A kill hands the processor to the head of the queue, which goes on from its stored registers. -/
theorem kill_touches_victim_small :
    let m := (small.value.afterAll sharing).value
    let victim : Process := {
      pid := 0, partition := 0, status := .running, registers := { accumulator := 7 } }
    let next : Process := {
      pid := 1, partition := 1, status := .waiting, registers := { accumulator := 5 } }
    small.value.loadsIn sharing < UInt32.size ∧ victim ∈ m.processes ∧
      m.processor.registers = { counter := 1, accumulator := 7 } ∧
      ∃ t, m.kill 0 = .ok t ∧ t.value.processes.map Process.pid = [1] ∧
        t.value.current = some { next with status := .running } ∧
        t.value.processor = ⟨next.registers, true⟩ ∧ t.value.memory.inUse[0]? = some false := by
  intro m victim next
  have hloads : small.value.loadsIn sharing < UInt32.size := by decide +kernel
  have hvictim : victim ∈ m.processes := by decide +kernel
  have hlive : m.processor.registers = { counter := 1, accumulator := 7 } := by decide +kernel
  have hcurrent : m.current = some victim := by decide +kernel
  have hqueue : m.ready.toList = [next] := by decide +kernel
  have hmode : m.singleStep = false := by decide +kernel
  have hpids : m.processes.map Process.pid = [0, 1] := by decide +kernel
  obtain ⟨t, hkill, -, hleft, -, huse, hfront, -⟩ :=
    kill_touches_victim boot_small sharing hloads hvictim
  obtain ⟨hnext, -, hprocessor, -⟩ := hfront next [] hcurrent hqueue
  refine ⟨hloads, hvictim, hlive, t, hkill, hleft.trans ?_, hnext, hprocessor.trans ?_, ?_⟩
  · exact (congrArg _ hpids).trans rfl
  · exact congrArg (Processor.mk next.registers) (congrArg _ hmode)
  · exact (huse 0).trans rfl

/-! ## Several kills -/

/-- Kills one after the other, each on what the ones before it left. Fails where one of them
fails. -/
def killAll (m : Machine) : List Pid → Except Error Machine
  | [] => .ok m
  | pid :: pids => do
    let killed ← m.kill pid
    killed.value.killAll pids

/-- The partitions of the residents with these ids. -/
def partitionsOf (m : Machine) (gone : List Pid) : List Nat :=
  (m.residents.filter (·.pid ∈ gone)).map Resident.partition

/-- The machine with the partitions of those in `gone` free. -/
def vacated (m : Machine) (gone : List Pid) : Machine :=
  { m with memory := m.memory.freeAll (m.partitionsOf gone) }

/-- Who waits and is not in `gone`. -/
def spared (m : Machine) (gone : List Pid) : List Process :=
  m.ready.toList.filter (·.pid ∉ gone)

/-- The machine with the processor passed on to the first of a queue, or stopped if it is empty. -/
def passTo (m : Machine) : List Process → Machine
  | [] => { m with ready := {} }.stopped
  | next :: rest => m.handTo next rest

/-- The machine without anybody in `gone`. If the current process is, the first one that is spared
has the processor. -/
def withoutAll (m : Machine) (gone : List Pid) : Machine :=
  match m.current.filter (·.pid ∈ gone) with
  | none => { m.vacated gone with ready := ⟨m.spared gone⟩ }
  | some _ => (m.vacated gone).passTo (m.spared gone)

/-- The machines are the same, but where nobody is resident the registers that are left on the
processor may differ. -/
def Agrees (m m' : Machine) : Prop :=
  (m.processes ≠ [] → m' = m) ∧
    ∃ registers, m' = { m with processor := { m.processor with registers } }

section

variable {m m' m'' : Machine} {pid : Pid} {gone : List Pid} {p victim : Process}

theorem Agrees.refl (m : Machine) : m.Agrees m := ⟨fun _ => rfl, m.processor.registers, rfl⟩

theorem Agrees.of_eq (h : m' = m) : m.Agrees m' := h ▸ .refl m

theorem Agrees.symm (h : m.Agrees m') : m'.Agrees m := by
  obtain ⟨hsame, registers, hm'⟩ := h
  have hprocesses : m'.processes = m.processes := by rw [hm']; rfl
  refine ⟨fun hresident => (hsame (hprocesses ▸ hresident)).symm, m.processor.registers, ?_⟩
  rw [hm']

theorem Agrees.trans (h : m.Agrees m') (h' : m'.Agrees m'') : m.Agrees m'' := by
  obtain ⟨hsame, registers, hm'⟩ := h
  obtain ⟨hsame', registers', hm''⟩ := h'
  have hprocesses : m'.processes = m.processes := by rw [hm']; rfl
  refine ⟨fun hresident => ?_, registers', ?_⟩
  · rw [hsame' (hprocesses ▸ hresident), hsame hresident]
  · rw [hm'', hm']

/-! ## All at one stroke -/

theorem withoutAll_kept (hc : ∀ x ∈ m.current, x.pid ∉ gone) :
    m.withoutAll gone = { m.vacated gone with ready := ⟨m.spared gone⟩ } := by
  have hfilter : m.current.filter (·.pid ∈ gone) = none := by
    rw [Option.filter_eq_none_iff]
    exact fun x hx => by simpa using hc x hx
  rw [withoutAll, hfilter]

theorem withoutAll_current (hc : m.current = some p) (hp : p.pid ∈ gone) :
    m.withoutAll gone = (m.vacated gone).passTo (m.spared gone) := by
  have hfilter : m.current.filter (·.pid ∈ gone) = some p := by simp [hc, hp]
  rw [withoutAll, hfilter]

/-- Only who is in `gone` matters, not the order. -/
theorem withoutAll_congr {gone' : List Pid} (h : ∀ pid, pid ∈ gone ↔ pid ∈ gone') :
    m.withoutAll gone = m.withoutAll gone' := by
  simp only [withoutAll, vacated, spared, partitionsOf, h]

theorem withoutAll_nil (m : Machine) : m.withoutAll [] = m := by
  have hnone : m.partitionsOf [] = [] := by simp [partitionsOf]
  have hspared : m.spared [] = m.ready.toList := by simp [spared]
  rw [withoutAll_kept (fun _ _ => List.not_mem_nil), vacated, hnone, hspared, Memory.freeAll_nil]

/-- The partitions that are freed one after the other are freed at one stroke. -/
theorem vacated_without (hpids : m.pids.Nodup) (h : victim ∈ m.processes) (gone : List Pid) :
    (m.without victim.pid).vacated gone =
      { m.without victim.pid with memory := (m.vacated (victim.pid :: gone)).memory } := by
  obtain ⟨r, hr, hpid, hpartition⟩ := exists_resident_of_mem_processes h
  have hsame : ∀ x ∈ m.residents, x.pid = victim.pid → x = r := fun x hx he => by
    rw [pids, ← map_pid_residents] at hpids
    exact List.inj_on_of_nodup_map hpids hx hr (he.trans hpid.symm)
  have hpartitions (i : Nat) : i ∈ victim.partition :: (m.without victim.pid).partitionsOf gone ↔
      i ∈ m.partitionsOf (victim.pid :: gone) := by
    simp only [partitionsOf, residents_without hpids h, List.mem_cons, List.mem_map,
      List.mem_filter, decide_eq_true_eq]
    constructor
    · rintro (rfl | ⟨x, ⟨⟨hx, -⟩, hgone⟩, rfl⟩)
      · exact ⟨r, ⟨hr, .inl hpid⟩, hpartition⟩
      · exact ⟨x, ⟨hx, .inr hgone⟩, rfl⟩
    · rintro ⟨x, ⟨hx, hgone⟩, rfl⟩
      by_cases he : x.pid = victim.pid
      · rw [hsame x hx he]
        exact .inl hpartition
      · exact .inr ⟨x, ⟨⟨hx, he⟩, hgone.resolve_left he⟩, rfl⟩
  have hmemory : (m.memory.free victim.partition).freeAll
        ((m.without victim.pid).partitionsOf gone) =
      m.memory.freeAll (m.partitionsOf (victim.pid :: gone)) :=
    (m.memory.freeAll_free _ _).trans (m.memory.freeAll_congr hpartitions)
  rw [vacated, memory_without hpids h, hmemory]
  rfl

theorem spared_cons (m : Machine) (pid : Pid) (gone : List Pid) :
    m.spared (pid :: gone) = (m.ready.toList.filter (·.pid ≠ pid)).filter (·.pid ∉ gone) := by
  rw [spared, List.filter_filter]
  congr 1
  funext x
  simp [Bool.and_comm]

/-- Who leaves the processor passes it on to the queue. -/
theorem without_current (hc : m.current = some p) :
    m.without p.pid = (m.freed p).passTo m.ready.toList := by
  rw [without_front hc]
  cases hr : m.ready.toList with
  | nil =>
    have hqueue : m.ready = {} := congrArg ReadyQueue.mk hr
    rw [passTo, ← hqueue]
    rfl
  | cons next rest => rfl

/-- Whoever is passed the processor only to be killed next might have been passed over. -/
theorem withoutAll_passTo (m : Machine) (queue : List Process) (gone : List Pid) :
    Agrees
      ({ m with memory := ((m.passTo queue).vacated gone).memory }.passTo
        (queue.filter (·.pid ∉ gone)))
      ((m.passTo queue).withoutAll gone) := by
  cases queue with
  | nil => exact .of_eq (withoutAll_kept fun x hx => by cases hx)
  | cons next rest =>
    by_cases hnext : next.pid ∈ gone
    · have hcurrent : (m.passTo (next :: rest)).withoutAll gone = _ :=
        withoutAll_current rfl hnext
      have hspared : (next :: rest).filter (·.pid ∉ gone) =
          (m.passTo (next :: rest)).spared gone := List.filter_cons_of_neg (by simpa using hnext)
      rw [hcurrent, hspared]
      cases (m.passTo (next :: rest)).spared gone with
      | nil => exact ⟨fun hresident => absurd rfl hresident, next.registers, rfl⟩
      | cons second others => exact .of_eq rfl
    · have hkept : (m.passTo (next :: rest)).withoutAll gone = _ :=
        withoutAll_kept fun x hx => by
          obtain rfl := Option.some.inj hx
          exact hnext
      have hspared : (next :: rest).filter (·.pid ∉ gone) =
          next :: (m.passTo (next :: rest)).spared gone :=
        List.filter_cons_of_pos (by simpa using hnext)
      rw [hkept, hspared]
      exact .of_eq rfl

/-- Killing the current process and then others is killing all of them. -/
theorem withoutAll_cons_current (hpids : m.pids.Nodup) (hc : m.current = some victim)
    (gone : List Pid) :
    (m.withoutAll (victim.pid :: gone)).Agrees ((m.without victim.pid).withoutAll gone) := by
  have hothers : m.ready.toList.filter (·.pid ≠ victim.pid) = m.ready.toList := by
    rw [pids_of_current hc, List.nodup_cons] at hpids
    rw [List.filter_eq_self]
    intro x hx
    simpa using fun he : x.pid = victim.pid => hpids.1 (he ▸ List.mem_map_of_mem hx)
  have hvictim : victim ∈ m.processes := List.mem_append_left _ (Option.mem_toList.2 hc)
  have hvacated := vacated_without hpids hvictim gone
  rw [without_current hc] at hvacated ⊢
  rw [withoutAll_current hc List.mem_cons_self, spared_cons, hothers]
  have hpassed := (m.freed victim).withoutAll_passTo m.ready.toList gone
  rw [hvacated] at hpassed
  exact hpassed

/-- Killing a process that waits and then others is killing all of them. -/
theorem withoutAll_cons_ready (hpids : m.pids.Nodup) (h : victim ∈ m.ready.toList)
    (gone : List Pid) :
    m.withoutAll (victim.pid :: gone) = (m.without victim.pid).withoutAll gone := by
  have hvacated := vacated_without hpids (List.mem_append_right _ h) gone
  obtain ⟨before, after, hr, hc, hbefore⟩ := exists_place hpids h
  have hothers : m.ready.toList.filter (·.pid ≠ victim.pid) = before ++ after := by
    rw [hr]
    exact filter_ne_of_nodup Process.pid (hr ▸ nodup_pids_ready hpids)
  rw [without_queue hc hr hbefore] at hvacated ⊢
  have hspared : m.spared (victim.pid :: gone) = (before ++ after).filter (·.pid ∉ gone) := by
    rw [spared_cons, hothers]
  by_cases hkept : ∀ x ∈ m.current, x.pid ∉ gone
  · have hkept' : ∀ x ∈ m.current, x.pid ∉ victim.pid :: gone := fun x hx hgone =>
      (List.mem_cons.1 hgone).elim (hc x hx) (hkept x hx)
    have hleft : ({ m.freed victim with ready := ⟨before ++ after⟩ } : Machine).withoutAll gone =
        _ := withoutAll_kept hkept
    rw [withoutAll_kept hkept', hleft, hspared, hvacated]
    rfl
  · simp only [not_forall, not_not] at hkept
    obtain ⟨p, hp, hgone⟩ := hkept
    have hleft : ({ m.freed victim with ready := ⟨before ++ after⟩ } : Machine).withoutAll gone =
        _ := withoutAll_current hp hgone
    rw [withoutAll_current hp (List.mem_cons_of_mem _ hgone), hleft, hspared, hvacated]
    show passTo _ ((before ++ after).filter _) = passTo _ ((before ++ after).filter _)
    cases (before ++ after).filter (·.pid ∉ gone) <;> rfl

/-- Killing one process and then others is killing all of them. -/
theorem withoutAll_cons (hpids : m.pids.Nodup) (h : victim ∈ m.processes) (gone : List Pid) :
    (m.withoutAll (victim.pid :: gone)).Agrees ((m.without victim.pid).withoutAll gone) := by
  rw [Kernel.processes, List.mem_append, Option.mem_toList] at h
  rcases h with hc | hqueue
  · exact withoutAll_cons_current hpids hc gone
  · exact .of_eq (withoutAll_cons_ready hpids hqueue gone).symm

/-! ## One after the other -/

theorem pids_without (hpids : m.pids.Nodup) (h : victim ∈ m.processes) :
    (m.without victim.pid).pids = m.pids.filter (· ≠ victim.pid) := by
  rw [pids, pids, ← map_pid_residents, ← map_pid_residents, residents_without hpids h,
    List.filter_map]
  rfl

/-- Residents can be killed one after the other, and together they leave what is left without all of
them. -/
theorem exists_killAll {pids : List Pid} (hpids : m.pids.Nodup) (hnodup : pids.Nodup)
    (hresident : ∀ pid ∈ pids, pid ∈ m.pids) :
    ∃ m', m.killAll pids = .ok m' ∧ (m.withoutAll pids).Agrees m' ∧
      m'.pids = m.pids.filter (· ∉ pids) := by
  induction pids generalizing m with
  | nil => exact ⟨m, rfl, .of_eq (withoutAll_nil m).symm, by simp⟩
  | cons pid pids ih =>
    obtain ⟨victim, hvictim, rfl⟩ := List.mem_map.1 (hresident pid List.mem_cons_self)
    obtain ⟨t, hkill, hvalue⟩ := exists_kill (mem_pids_of_mem_processes hvictim)
    obtain ⟨hfirst, hrest⟩ := List.nodup_cons.1 hnodup
    have hleft := pids_without hpids hvictim
    have hpids' : (m.without victim.pid).pids.Nodup := hleft ▸ hpids.filter _
    have hresident' : ∀ x ∈ pids, x ∈ (m.without victim.pid).pids := fun x hx => by
      rw [hleft, List.mem_filter]
      have hne : x ≠ victim.pid := fun he => hfirst (he ▸ hx)
      exact ⟨hresident x (List.mem_cons_of_mem _ hx), by simpa using hne⟩
    obtain ⟨m', hall, hagrees, hothers⟩ := ih hpids' hrest hresident'
    refine ⟨m', ?_, (withoutAll_cons hpids hvictim pids).trans hagrees, ?_⟩
    · rw [killAll, hkill, ← hall, ← hvalue]
      rfl
    · rw [hothers, hleft, List.filter_filter]
      congr 1
      funext x
      simp [Bool.and_comm]

end

/-- **Kills commute.** However a machine is used, residents can be killed one after the other, in
whatever order, and every kill succeeds. The machine that is left is the same for all orders, but
where nobody survives, the registers that were left on the processor may differ. -/
theorem kills_commute {s : Settings} {booted : Traced Machine} (hboot : boot s = .ok booted)
    (ops : List Operation) (hloads : booted.value.loadsIn ops < UInt32.size)
    {pids pids' : List Pid} (hperm : pids.Perm pids') (hnodup : pids.Nodup)
    (hresident : pids ⊆ (booted.value.afterAll ops).value.processes.map Process.pid) :
    let m := (booted.value.afterAll ops).value
    ∃ m₁ m₂, m.killAll pids = .ok m₁ ∧ m.killAll pids' = .ok m₂ ∧
      m₁.processes.map Process.pid = (m.processes.map Process.pid).filter (· ∉ pids) ∧
      (m₁.processes ≠ [] → m₂ = m₁) ∧
      ∃ registers, m₂ = { m₁ with processor := { m₁.processor with registers } } := by
  intro m
  have hpids : m.pids.Nodup := ((boot_eq_ok hboot).owned_afterAll ops hloads).nodup_pids
  obtain ⟨m₁, hkilled₁, hagrees₁, hleft⟩ := exists_killAll hpids hnodup hresident
  obtain ⟨m₂, hkilled₂, hagrees₂, -⟩ := exists_killAll hpids (hperm.nodup_iff.1 hnodup)
    fun pid hpid => hresident (hperm.symm.subset hpid)
  have hsame : m.withoutAll pids = m.withoutAll pids' :=
    withoutAll_congr fun pid => hperm.mem_iff
  rw [← hsame] at hagrees₂
  exact ⟨m₁, m₂, hkilled₁, hkilled₂, hleft, hagrees₁.symm.trans hagrees₂⟩

/-- The current process and the next in line are killed, and the third one goes on. -/
theorem kills_commute_small :
    ∃ booted, boot { smallSettings with partitions := 3 } = .ok booted ∧
      let ops : List Operation := [.ask (.load [0xEA]), .ask (.load [0xA9, 0x05]),
        .ask (.load [0xA2, 0x07]), .ask .runAll, .ask .tick]
      let m := (booted.value.afterAll ops).value
      booted.value.loadsIn ops < UInt32.size ∧ [(0 : Pid), 1].Perm [1, 0] ∧
        ([0, 1] : List Pid).Nodup ∧ [0, 1] ⊆ m.processes.map Process.pid ∧
        ∃ m₁ m₂, m.killAll [0, 1] = .ok m₁ ∧ m.killAll [1, 0] = .ok m₂ ∧
          m₁.processes.map Process.pid = [2] ∧ m₂ = m₁ := by
  let booted : Traced Machine := (boot { smallSettings with partitions := 3 }).toOption.get rfl
  have hboot : boot { smallSettings with partitions := 3 } = .ok booted := rfl
  refine ⟨booted, hboot, ?_⟩
  intro ops m
  have hloads : booted.value.loadsIn ops < UInt32.size := by decide +kernel
  have hperm : [(0 : Pid), 1].Perm [1, 0] := List.Perm.swap _ _ _
  have hnodup : ([0, 1] : List Pid).Nodup := by decide
  have hresident : m.processes.map Process.pid = [0, 1, 2] := by decide +kernel
  have hsub : [0, 1] ⊆ m.processes.map Process.pid := by
    rw [hresident]
    decide
  obtain ⟨m₁, m₂, hkilled₁, hkilled₂, hleft, hsame, -⟩ :=
    kills_commute hboot ops hloads hperm hnodup hsub
  have hone : m₁.processes.map Process.pid = [2] := hleft.trans ((congrArg _ hresident).trans rfl)
  refine ⟨hloads, hperm, hnodup, hsub, m₁, m₂, hkilled₁, hkilled₂, hone, hsame fun hnone => ?_⟩
  rw [hnone] at hone
  cases hone

/-- Where nobody survives, the order shows: the last one on the processor leaves its registers. -/
example :
    let left (pids : List Pid) : Option UInt8 :=
      ((small.value.afterAll sharing).value.killAll pids).toOption.map
        (·.processor.registers.accumulator)
    left [0, 1] = some 5 ∧ left [1, 0] = some 7 := by decide +kernel

end Machine

end Timeshare
