import Timeshare.Proofs.Ownership

/-!
# Multiplexing

A process that shares the machine with others computes what it would compute alone. The cycles that
a run gives to a process are counted in the trace, and as many steps of the reference machine lead
from the loaded program to the registers and bytes of the process.
-/
namespace Timeshare

/-- The number of cycles that a process got. -/
def cyclesOf (pid : Pid) (turns : List Turn) : Nat := turns.countP (·.pid = pid)

theorem cyclesOf_append (pid : Pid) (ts us : List Turn) :
    cyclesOf pid (ts ++ us) = cyclesOf pid ts + cyclesOf pid us := List.countP_append

theorem cyclesOf_singleton (pid : Pid) (t : Turn) :
    cyclesOf pid [t] = if t.pid = pid then 1 else 0 := by
  rw [cyclesOf, List.countP_singleton]
  simp

namespace Machine

/-- Whoever is resident in the end was resident before, and took the steps that the cycles in
between gave to it. -/
def Continues (m : Machine) (turns : List Turn) (m' : Machine) : Prop :=
  ∀ r' ∈ m'.residents, ∃ r ∈ m.residents, r.pid = r'.pid ∧
    r'.solo m'.memory = Solo.step^[cyclesOf r'.pid turns] (r.solo m.memory)

theorem Continues.refl (m : Machine) : m.Continues [] m := fun r hr => ⟨r, hr, rfl, rfl⟩

theorem Continues.trans {m m₁ m₂ : Machine} {ts us : List Turn} (h : m.Continues ts m₁)
    (h' : m₁.Continues us m₂) : m.Continues (ts ++ us) m₂ := by
  intro r₂ hr₂
  obtain ⟨r₁, hr₁, hpid₁, hsolo₁⟩ := h' r₂ hr₂
  obtain ⟨r, hr, hpid, hsolo⟩ := h r₁ hr₁
  refine ⟨r, hr, hpid.trans hpid₁, ?_⟩
  rw [hsolo₁, hsolo, hpid₁, cyclesOf_append, Nat.add_comm, Function.iterate_add_apply]

/-- Only the resident whose turn it is takes a step, and nobody else's bytes change. -/
theorem Shift.continues {m m' : Machine} {ts : List Turn} (hm : m.Housed)
    (hpids : (m.residents.map Resident.pid).Nodup) (h : Shift m ts m') : m.Continues ts m' := by
  cases h with
  | stay hr hmem =>
    intro r hr'
    exact ⟨r, hr.mem_iff.1 hr', rfl, by rw [hmem]; rfl⟩
  | leave hr hmem =>
    intro r hr'
    exact ⟨r, hr.mem_iff.2 (List.mem_cons_of_mem _ hr'), rfl, by rw [hmem]; rfl⟩
  | turn hr hr' hstep hlayout hothers =>
    rename_i r registers rest
    have hpartitions := hm.partitions_nodup
    rw [hr, List.map_cons, List.nodup_cons] at hpartitions hpids
    intro x hx
    rw [hr', List.mem_cons] at hx
    rcases hx with rfl | hx
    · refine ⟨r, hr ▸ List.mem_cons_self, rfl, ?_⟩
      rw [cyclesOf_singleton, if_pos rfl]
      exact hstep
    · have hpid : r.pid ≠ x.pid := fun he => hpids.1 (he ▸ List.mem_map_of_mem hx)
      have hpartition : x.partition ≠ r.partition := fun he =>
        hpartitions.1 (he ▸ List.mem_map_of_mem hx)
      refine ⟨x, hr ▸ List.mem_cons_of_mem _ hx, rfl, ?_⟩
      rw [cyclesOf_singleton, if_neg hpid, Resident.solo, hothers _ hpartition]
      rfl

variable {s : Settings} {loads : Nat} {m m' : Machine}

theorem Owned.continues {ts : List Turn} (hm : m.Owned s loads) (h : Moves m ts m') :
    m.Continues ts m' := by
  induction h with
  | refl m => exact .refl m
  | head hmove _ ih =>
    have hone := (shift_of_move hm.housed hmove).continues hm.housed hm.pids_nodup
    exact hone.trans (ih (hm.move hmove))

/-- A load leaves all residents as they are and adds the program before its first cycle. -/
theorem Loaded.solo_eq {program : List UInt8} {partition : Nat} (hm : m.Housed)
    (h : Loaded m m' program partition) {r : Resident} (hr : r ∈ m'.residents) :
    (r ∈ m.residents ∧ r.solo m'.memory = r.solo m.memory) ∨
      (r.pid = m.nextPid ∧ r.solo m'.memory = Solo.load m.memory.partitionSize program) := by
  rw [h.residents_eq, List.mem_append, List.mem_singleton] at hr
  rcases hr with hr | rfl
  · left
    have hne : r.partition ≠ partition := fun he =>
      hm.notMem_of_free h.free (he ▸ List.mem_map_of_mem hr)
    exact ⟨hr, by rw [Resident.solo, h.others_eq _ hne]; rfl⟩
  · right
    exact ⟨rfl, by rw [Resident.solo, h.contents_eq]; rfl⟩

/-- Somewhere in a run the program was loaded as process `pid`, and `turns` are all cycles since
then. -/
def Admitted (m : Machine) (ops : List Operation) (pid : Pid) (program : List UInt8)
    (turns : List Turn) : Prop :=
  ∃ before after t, ops = before ++ .ask (.load program) :: after ∧
    (m.afterAll before).value.load program = .ok t ∧ t.value.1 = pid ∧
    turns = (t.value.2.afterAll after).turns

theorem Admitted.cons {op : Operation} {ops : List Operation} {pid : Pid} {program : List UInt8}
    {turns : List Turn} (h : Admitted (m.after op).value ops pid program turns) :
    m.Admitted (op :: ops) pid program turns := by
  obtain ⟨before, after, t, rfl, hload, hpid, hturns⟩ := h
  exact ⟨op :: before, after, t, rfl, hload, hpid, hturns⟩

/-- Ids that a run hands out were not handed out before it. -/
theorem Owned.le_of_admitted {ops : List Operation} {pid : Pid} {program : List UInt8}
    {turns : List Turn} (hm : m.Owned s loads) (hloads : loads + m.loadsIn ops < UInt32.size)
    (h : m.Admitted ops pid program turns) : loads ≤ pid.toNat := by
  obtain ⟨before, after, t, rfl, hload, rfl, -⟩ := h
  rw [loadsIn_append] at hloads
  have hbefore := hm.afterAll before (by omega)
  rw [(load_eq_ok hload).2.1, hbefore.toNat_nextPid]
  exact Nat.le_add_right loads _

/-- Who is resident after a run was there before or was loaded in it. -/
theorem Owned.origin (ops : List Operation) (hm : m.Owned s loads)
    (hloads : loads + m.loadsIn ops < UInt32.size) :
    ∀ r' ∈ (m.afterAll ops).value.residents,
      (∃ r ∈ m.residents, r.pid = r'.pid ∧ r'.solo (m.afterAll ops).value.memory =
        Solo.step^[cyclesOf r'.pid (m.afterAll ops).turns] (r.solo m.memory)) ∨
      ∃ program turns, m.Admitted ops r'.pid program turns := by
  induction ops generalizing m loads with
  | nil =>
    intro r hr
    exact .inl ⟨r, hr, rfl, rfl⟩
  | cons op ops ih =>
    intro r' hr'
    rw [loadsIn, ← Nat.add_assoc] at hloads
    cases hgrant : m.grantsLoad op with
    | false =>
      rw [hgrant] at hloads
      have hmoves := moves_after hgrant
      rcases ih (hm.moves hmoves) hloads r' hr' with
        ⟨r₁, hr₁, hpid₁, hsolo₁⟩ | ⟨program, turns, hadmitted⟩
      · left
        obtain ⟨r, hr, hpid, hsolo⟩ := hm.continues hmoves r₁ hr₁
        refine ⟨r, hr, hpid.trans hpid₁, ?_⟩
        rw [afterAll_cons, Traced.turns_bind, cyclesOf_append, Nat.add_comm,
          Function.iterate_add_apply, ← hpid₁, ← hsolo, hpid₁]
        exact hsolo₁
      · exact .inr ⟨program, turns, hadmitted.cons⟩
    | true =>
      rw [hgrant] at hloads
      obtain ⟨program, t, rfl, hok⟩ := exists_load_of_grantsLoad hgrant
      obtain ⟨-, hnew, partition, hloaded⟩ := load_eq_ok hok
      obtain ⟨-, hvalue, hturns⟩ := after_load hok
      have htrue : true.toNat = 1 := rfl
      have hone := hm.load (by omega) hloaded
      rw [← hvalue] at hone hloaded
      rcases ih hone hloads r' hr' with ⟨r₁, hr₁, hpid₁, hsolo₁⟩ | ⟨program, turns, hadmitted⟩
      · rcases hloaded.solo_eq hm.housed hr₁ with ⟨hr, hsame⟩ | ⟨hpid, -⟩
        · left
          refine ⟨r₁, hr, hpid₁, ?_⟩
          rw [afterAll_cons, Traced.turns_bind, hturns, List.nil_append, ← hsame]
          exact hsolo₁
        · right
          refine ⟨program, _, [], ops, t, rfl, hok, ?_, rfl⟩
          rw [hnew, ← hpid, hpid₁]
      · exact .inr ⟨program, turns, hadmitted.cons⟩

/-- A process that is still resident went from its program to where it is by its own cycles. -/
theorem Owned.solo_of_admitted {ops : List Operation} {program : List UInt8} {turns : List Turn}
    (hm : m.Owned s loads) (hloads : loads + m.loadsIn ops < UInt32.size) {r : Resident}
    (hr : r ∈ (m.afterAll ops).value.residents) (h : m.Admitted ops r.pid program turns) :
    r.solo (m.afterAll ops).value.memory =
      Solo.step^[cyclesOf r.pid turns] (Solo.load s.partitionSize program) := by
  obtain ⟨before, after, t, rfl, hload, hpid, rfl⟩ := h
  obtain ⟨hgrant, hvalue, -⟩ := after_load hload
  obtain ⟨-, hnew, partition, hloaded⟩ := load_eq_ok hload
  have hend : (m.afterAll (before ++ .ask (.load program) :: after)).value =
      (t.value.2.afterAll after).value := by
    rw [value_afterAll_append, afterAll_cons, Traced.value_bind, hvalue]
  rw [loadsIn_append, loadsIn, hgrant, hvalue, ← Nat.add_assoc, ← Nat.add_assoc] at hloads
  have htrue : true.toNat = 1 := rfl
  have hbefore := hm.afterAll before (by omega)
  have hafter := hbefore.load (by omega) hloaded
  rw [hend] at hr ⊢
  rcases hafter.origin after hloads r hr with ⟨x, hx, hxpid, hsolo⟩ | ⟨_, _, hlater⟩
  · rcases hloaded.solo_eq hbefore.housed hx with ⟨hx, -⟩ | ⟨-, hfirst⟩
    · -- the resident would have had this id before the id was handed out
      refine absurd ?_ hbefore.nextPid_notMem
      rw [← hnew, hpid, ← hxpid]
      exact List.mem_map_of_mem hx
    · rw [hsolo, hfirst, hbefore.partitionSize_eq]
  · -- the id would have been handed out again
    have hle := hafter.le_of_admitted hloads hlater
    rw [← hpid, hnew, hbefore.toNat_nextPid] at hle
    omega

/-- **Multiplexing is transparent.** However a machine is used, every resident process was loaded,
and its registers and bytes are those of its program after as many steps of its own as the process
got cycles. -/
theorem multiplexing_transparent {booted : Traced Machine} (hboot : boot s = .ok booted)
    (ops : List Operation) (hloads : booted.value.loadsIn ops < UInt32.size) :
    let m := (booted.value.afterAll ops).value
    ∀ r ∈ m.residents, (∃ program turns, booted.value.Admitted ops r.pid program turns) ∧
      ∀ program turns, booted.value.Admitted ops r.pid program turns →
        r.solo m.memory =
          Solo.step^[cyclesOf r.pid turns] (Solo.load s.partitionSize program) := by
  intro m r hr
  have hbooted := boot_eq_ok hboot
  rw [← Nat.zero_add (Machine.loadsIn _ _)] at hloads
  refine ⟨?_, fun program turns h => hbooted.owned.solo_of_admitted hloads hr h⟩
  rcases hbooted.owned.origin ops hloads r hr with ⟨x, hx, -⟩ | hadmitted
  · rw [hbooted.residents_eq] at hx
    cases hx
  · exact hadmitted

/-- Of seven cycles the first program got four. -/
theorem multiplexing_transparent_small :
    let m := (small.value.afterAll sharing).value
    let r : Resident := ⟨0, 0, { counter := 1, accumulator := 7 }⟩
    small.value.loadsIn sharing < UInt32.size ∧ r ∈ m.residents ∧
      r.solo m.memory = Solo.step^[4] (Solo.load 4 [0xEA, 0xEA, 0xA9, 0x07]) := by
  intro m r
  have hloads : small.value.loadsIn sharing < UInt32.size := by decide +kernel
  have hr : r ∈ m.residents := by decide +kernel
  have hgrant : small.value.grantsLoad (.ask (.load [0xEA, 0xEA, 0xA9, 0x07])) = true := by
    decide +kernel
  obtain ⟨program, t, hop, hload⟩ := exists_load_of_grantsLoad hgrant
  obtain rfl : [0xEA, 0xEA, 0xA9, 0x07] = program := by simpa using hop
  have hpid : t.value.1 = 0 := by
    rw [(load_eq_ok hload).2.1]
    rfl
  obtain ⟨-, hsolo⟩ := multiplexing_transparent boot_small sharing hloads r hr
  have halone := hsolo _ _ ⟨[], _, t, rfl, hload, hpid, rfl⟩
  rw [← (after_load hload).2.1] at halone
  have hfour : cyclesOf r.pid
      ((small.value.after (.ask (.load [0xEA, 0xEA, 0xA9, 0x07]))).value.afterAll
        sharing.tail).turns = 4 := by decide +kernel
  refine ⟨hloads, hr, halone.trans ?_⟩
  exact congrArg (fun n => Solo.step^[n] _) hfour

end Machine

end Timeshare
