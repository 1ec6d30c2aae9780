import Timeshare.Proofs.Kills
import Timeshare.Proofs.Mishaps

/-!
# Process ids

The ids of a run are the values of its counter, one for each load that is granted, and nothing else
moves the counter. Of 32 bits there are `UInt32.size` values, so ids come in order and only once up
to that many loads, and no further: kills make room for any number of loads, and the one after the
last value gets the first id once more. A guarded machine stops before that.
-/
namespace Timeshare

namespace Pid

/-- As many values of the counter in order, the first one being `first`. -/
def counted (first : Pid) (count : Nat) : List Pid :=
  (List.range count).map fun k => first + UInt32.ofNat k

section

variable {first : Pid} {count : Nat}

theorem counted_succ (first : Pid) (count : Nat) :
    counted first (count + 1) = first :: counted (first + 1) count := by
  rw [counted, List.range_succ_eq_map, List.map_cons, List.map_map, counted]
  congr 1
  · exact UInt32.add_zero first
  · refine List.map_congr_left fun k _ => ?_
    show first + UInt32.ofNat (k + 1) = first + 1 + UInt32.ofNat k
    rw [UInt32.ofNat_add, UInt32.add_comm (UInt32.ofNat k), UInt32.add_assoc]
    rfl

/-- All values of the counter are met before one comes again. -/
theorem nodup_counted_iff : (counted first count).Nodup ↔ count ≤ UInt32.size := by
  constructor
  · intro h
    by_contra hmany
    have hsame : first + UInt32.ofNat 0 = first + UInt32.ofNat UInt32.size := rfl
    have hlast : UInt32.size ∈ List.range count := List.mem_range.2 (Nat.lt_of_not_le hmany)
    have hfirst : 0 ∈ List.range count := List.mem_range.2 (by omega)
    exact absurd (List.inj_on_of_nodup_map h hfirst hlast hsame) (by decide)
  · intro h
    refine List.Nodup.map_on (fun k hk k' hk' he => ?_) List.nodup_range
    have hvalue := congrArg UInt32.toNat (UInt32.add_right_inj first |>.1 he)
    rwa [UInt32.toNat_ofNat_of_lt' (Nat.lt_of_lt_of_le (List.mem_range.1 hk) h),
      UInt32.toNat_ofNat_of_lt' (Nat.lt_of_lt_of_le (List.mem_range.1 hk') h)] at hvalue

/-- From zero on the values grow. -/
theorem sorted_counted (h : count ≤ UInt32.size) : (counted 0 count).Pairwise (· < ·) := by
  rw [counted, List.pairwise_map]
  refine List.pairwise_lt_range.imp_of_mem fun {k k'} hk hk' hlt => ?_
  rw [UInt32.zero_add, UInt32.zero_add, UInt32.lt_iff_toNat_lt,
    UInt32.toNat_ofNat_of_lt' (Nat.lt_of_lt_of_le (List.mem_range.1 hk) h),
    UInt32.toNat_ofNat_of_lt' (Nat.lt_of_lt_of_le (List.mem_range.1 hk') h)]
  exact hlt

end

end Pid

namespace Machine

/-- The id that an operation hands out, if it is a load that is granted. -/
def grantedId? (m : Machine) : Operation → Option Pid
  | .ask (.load program) => (m.load program).toOption.map (·.value.1)
  | _ => none

/-- The ids that a run hands out, in order. -/
def idsIn (m : Machine) : List Operation → List Pid
  | [] => []
  | op :: ops => (m.grantedId? op).toList ++ (m.after op).value.idsIn ops

section

variable {m : Machine} {op : Operation} {s : Settings} {size loads : Nat}

/-! ## The counter -/

theorem grantedId?_of_not (h : m.grantsLoad op = false) :
    m.grantedId? op = none ∧ (m.after op).value.nextPid = m.nextPid := by
  refine ⟨?_, nextPid_of_moves (moves_after h)⟩
  unfold grantedId?
  split
  · rename_i program
    cases hload : m.load program with
    | error reason => rfl
    | ok loaded =>
      rw [grantsLoad, hload] at h
      cases h
  · rfl

/-- A load that is granted hands out the value of the counter and moves it on. -/
theorem grantedId?_of_grantsLoad (h : m.grantsLoad op = true) :
    m.grantedId? op = some m.nextPid ∧ (m.after op).value.nextPid = m.nextPid + 1 := by
  obtain ⟨program, t, rfl, hload⟩ := exists_load_of_grantsLoad h
  obtain ⟨-, hid, partition, hloaded⟩ := load_eq_ok hload
  constructor
  · rw [grantedId?, hload, ← hid]
    rfl
  · rw [(after_load hload).2.1, hloaded.machine_eq]

/-- The ids of a run are consecutive values of the counter. -/
theorem idsIn_eq (m : Machine) (ops : List Operation) :
    m.idsIn ops = Pid.counted m.nextPid (m.loadsIn ops) := by
  induction ops generalizing m with
  | nil => rfl
  | cons op ops ih =>
    rw [idsIn, loadsIn, ih]
    cases hgrant : m.grantsLoad op with
    | false =>
      obtain ⟨hnone, hsame⟩ := grantedId?_of_not hgrant
      rw [hnone, hsame, Bool.toNat_false, Nat.zero_add]
      rfl
    | true =>
      obtain ⟨hsome, hnext⟩ := grantedId?_of_grantsLoad hgrant
      rw [hsome, hnext, Bool.toNat_true, Nat.add_comm, Pid.counted_succ]
      rfl

/-! ## Any number of loads -/

/-- Nobody is resident. -/
structure Vacant (m : Machine) : Prop where
  housed : m.Housed
  processes_eq : m.processes = []

theorem Booted.vacant (h : Booted s m) : m.Vacant := by
  refine ⟨h.housed, ?_⟩
  rw [h.machine_eq]
  rfl

/-- A program is loaded and killed, as often as there are ids to kill. -/
def visits (pids : List Pid) : List Operation :=
  pids.flatMap fun pid => [.ask (.load []), .ask (.kill pid)]

theorem visits_cons (pid : Pid) (pids : List Pid) :
    visits (pid :: pids) = .ask (.load []) :: .ask (.kill pid) :: visits pids := rfl

theorem value_after_kill {pid : Pid} (h : pid ∈ m.pids) :
    (m.after (.ask (.kill pid))).value = m.without pid := by
  obtain ⟨t, hkill, hvalue⟩ := exists_kill h
  rw [← hvalue]
  simp [after, perform, hkill, bind, Except.bind, pure, Except.pure]

/-- Every machine has a partition, and in a vacant one it is free. -/
theorem Vacant.grantsLoad_nil (h : m.Vacant) : m.grantsLoad (.ask (.load [])) = true := by
  have hfree : m.memory.freeCount = m.memory.partitionCount := by
    have hsum := h.housed.freeCount_add
    rwa [length_residents, h.processes_eq] at hsum
  have hpos : 0 < m.memory.partitionCount := m.memory.inUse_pos
  have hfits : ([] : List UInt8).length ≤ m.memory.partitionSize := Nat.zero_le _
  obtain ⟨loaded, hload⟩ := exists_load hfits (hfree ▸ Nat.ne_of_gt hpos)
  rw [grantsLoad, hload]
  rfl

/-- Who is loaded is killed, and the machine is vacant again. -/
theorem Vacant.round (h : m.Vacant) :
    let loaded := (m.after (.ask (.load []))).value
    let left := (loaded.after (.ask (.kill m.nextPid))).value
    left.Vacant ∧ left.nextPid = m.nextPid + 1 := by
  intro loaded left
  have hgrant := h.grantsLoad_nil
  obtain ⟨program, t, hop, hload⟩ := exists_load_of_grantsLoad hgrant
  cases hop
  obtain ⟨-, -, partition, hloaded⟩ := load_eq_ok hload
  have hvalue : loaded = t.value.2 := (after_load hload).2.1
  rw [← hvalue] at hloaded
  have hmoves : Moves loaded _ left := moves_after rfl
  have hpids : loaded.pids = [m.nextPid] := by
    rw [pids, ← map_pid_residents, hloaded.residents_eq, List.map_append, map_pid_residents,
      h.processes_eq]
    rfl
  obtain ⟨p, hp, hpid⟩ := List.mem_map.1 (hpids ▸ List.mem_singleton_self m.nextPid)
  have hleft : left = loaded.without p.pid := by
    rw [hpid]
    exact value_after_kill (hpids ▸ List.mem_singleton_self m.nextPid)
  have hnone : left.pids = [] := by
    rw [hleft, pids_without (hpids ▸ List.nodup_singleton _) hp, hpids, hpid]
    simp
  refine ⟨⟨(h.housed.load hloaded).moves hmoves, List.map_eq_nil_iff.1 hnone⟩, ?_⟩
  rw [nextPid_of_moves hmoves]
  exact (grantedId?_of_grantsLoad hgrant).2

/-- Kills make room for any number of loads. -/
theorem Vacant.loadsIn_visits (h : m.Vacant) (count : Nat) :
    m.loadsIn (visits (Pid.counted m.nextPid count)) = count := by
  induction count generalizing m with
  | zero => rfl
  | succ count ih =>
    obtain ⟨hvacant, hnext⟩ := h.round
    have hrest := ih hvacant
    rw [hnext] at hrest
    rw [Pid.counted_succ, visits_cons, loadsIn, loadsIn, hrest, h.grantsLoad_nil]
    show 1 + (0 + count) = count + 1
    omega

/-! ## No id is left -/

/-- A guarded machine keeps the last value of its counter to itself. -/
theorem Sound.guardedAfter_spent (hm : m.Sound size) (hgrant : m.grantsLoad op = true)
    (hid : m.nextPid.toNat + 1 = UInt32.size) : m.guardedAfter op = throw .idsSpent := by
  obtain ⟨program, t, rfl, hload⟩ := exists_load_of_grantsLoad hgrant
  obtain ⟨accepted, haccept, -⟩ := exists_of_bind_eq_ok hload
  have hspent : m.guardedLoad program = .error .idsSpent := by
    rw [guardedLoad, hm.guardedAccept_of_ok haccept, if_neg (by omega)]
    rfl
  rw [guardedAfter, hspent]
  rfl

/-- A guarded run stops exactly if it would hand out all values of the counter. -/
theorem Sound.guardedAll_spent (hm : m.Sound size) (howned : m.Owned s loads)
    (ops : List Operation) (hloads : UInt32.size ≤ loads + m.loadsIn ops) :
    (m.guardedAll ops).run.value = .error .idsSpent := by
  induction ops generalizing m loads with
  | nil =>
    have hlt := m.nextPid.toNat_lt
    rw [howned.toNat_nextPid] at hlt
    exact absurd hloads (Nat.not_le_of_lt hlt)
  | cons op ops ih =>
    rw [loadsIn, ← Nat.add_assoc] at hloads
    rw [guardedAll]
    by_cases hone : loads + (m.grantsLoad op).toNat < UInt32.size
    · have hid : m.nextPid.toNat + (m.grantsLoad op).toNat < UInt32.size := by
        rwa [howned.toNat_nextPid]
      have hrest := ih (hm.afterAll [op]) (howned.after op hone) hloads
      rw [hm.guardedAfter_eq op hid]
      have hrun : (liftM (m.after op) >>= (guardedAll · ops) : Guarded Machine).run =
          m.after op >>= fun m => (guardedAll m ops).run := ExceptT.run_bind_lift _ _
      rw [hrun, Traced.value_bind]
      exact hrest
    · have hlt := m.nextPid.toNat_lt
      have hsize : UInt32.size = 2 ^ 32 := rfl
      rw [howned.toNat_nextPid] at hlt
      cases hgrant : m.grantsLoad op with
      | false =>
        rw [hgrant, Bool.toNat_false] at hone
        omega
      | true =>
        rw [hgrant, Bool.toNat_true] at hone
        rw [hm.guardedAfter_spent hgrant (by rw [howned.toNat_nextPid]; omega)]
        rfl

end

section

variable {s : Settings} {booted : Traced Machine}

theorem idsIn_booted (hboot : boot s = .ok booted) (ops : List Operation) :
    booted.value.idsIn ops = Pid.counted 0 (booted.value.loadsIn ops) := by
  rw [idsIn_eq, (boot_eq_ok hboot).machine_eq]

/-- **Process ids are handed out in order.** However a machine is used, its loads get the ids zero,
one, two and so on. The ids grow, and none of them comes again, exactly as long as there are no more
loads than values of the counter. -/
theorem ids_in_order (hboot : boot s = .ok booted) (ops : List Operation) :
    let ids := booted.value.idsIn ops
    let loads := booted.value.loadsIn ops
    ids = (List.range loads).map UInt32.ofNat ∧
      (ids.Pairwise (· < ·) ↔ loads ≤ UInt32.size) ∧ (ids.Nodup ↔ loads ≤ UInt32.size) := by
  intro ids loads
  have hids : ids = Pid.counted 0 loads := idsIn_booted hboot ops
  have hnodup : ids.Nodup ↔ loads ≤ UInt32.size := hids ▸ Pid.nodup_counted_iff
  refine ⟨?_, ⟨fun hsorted => ?_, fun hloads => ?_⟩, hnodup⟩
  · rw [hids, Pid.counted]
    exact List.map_congr_left fun k _ => UInt32.zero_add _
  · refine hnodup.1 (hsorted.imp fun {pid pid'} (hlt : pid < pid') he => ?_)
    exact UInt32.lt_irrefl _ (he ▸ hlt)
  · rw [hids]
    exact Pid.sorted_counted hloads

/-- The partition of the first program is free again, its id is not. -/
example : small.value.idsIn [.ask (.load []), .ask (.kill 0), .ask (.load [])] = [0, 1] := by
  decide +kernel

/-- **Ids come again.** A machine can load any number of programs if it kills them, and behind as
many loads as the counter has values the first id is handed out once more. -/
theorem ids_come_again (hboot : boot s = .ok booted) {count : Nat} (hcount : UInt32.size < count) :
    booted.value.loadsIn (visits (Pid.counted 0 count)) = count ∧
      ¬ (booted.value.idsIn (visits (Pid.counted 0 count))).Nodup := by
  have hbooted := boot_eq_ok hboot
  have hzero : booted.value.nextPid = 0 := by rw [hbooted.machine_eq]
  have hloads := hbooted.vacant.loadsIn_visits count
  rw [hzero] at hloads
  refine ⟨hloads, ?_⟩
  rw [idsIn_booted hboot, hloads, Pid.nodup_counted_iff]
  exact Nat.not_le_of_lt hcount

/-- **A guarded machine hands out no id twice.** It stops, for want of an id, exactly if a run
grants as many loads as the counter has values. -/
theorem guarded_stops_iff (hboot : boot s = .ok booted)
    (hsize : s.partitionSize ≤ maxPartitionSize) (ops : List Operation) :
    (booted.value.guardedAll ops).run.value = .error .idsSpent ↔
      UInt32.size ≤ booted.value.loadsIn ops := by
  have hsound := sound_of_boot hboot hsize
  have howned := (boot_eq_ok hboot).owned
  constructor
  · intro hstop
    by_contra hfew
    rw [hsound.guardedAll_eq howned ops (by omega)] at hstop
    cases hstop
  · intro hloads
    exact hsound.guardedAll_spent howned ops (by omega)

end

end Machine

end Timeshare
