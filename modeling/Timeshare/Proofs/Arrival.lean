import Timeshare.Proofs.Beats
import Timeshare.Proofs.FirstCome

/-!
# Order of arrival

Under first come, first served a process that has the processor keeps it until it leaves the
machine. Seen as one line, the current process first and then the queue, the residents only leave
the line or join it at its end, and whoever runs a cycle is in front. Ids are handed out in order,
so a line that nobody jumps is sorted by ids.
-/
namespace Timeshare

namespace Machine

/-- The request leaves the policy at first come, first served, and a load finds an id. -/
def KeepsFirstCome (m : Machine) (r : Request) : Prop :=
  (∀ policy, r = .setPolicy policy → policy = .firstCome) ∧ HasId m r

/-- The request starts no process out of turn. -/
def StartsInTurn (m : Machine) (r : Request) : Prop :=
  ∀ pid, r = .run pid → m.current.isSome = true

/-- What becomes of the line of residents. Whoever is in front stays there or leaves it. -/
inductive Line (A : Machine → Request → Prop) : Machine → List Turn → Machine → Prop
  | leave {m m' : Machine} (hids : m'.pids.Sublist m.pids)
      (hfront : ∀ pid ∈ m.currentPid?, pid ∈ m'.pids → m'.currentPid? = some pid) : Line A m [] m'
  | join {m m' : Machine} (hids : m'.pids = m.pids ++ [m.nextPid])
      (hfront : m'.currentPid? = m.currentPid?) : Line A m [] m'
  | jump {m m' : Machine} {pid : Pid} (hidle : m.current = none) (hA : A m (.run pid))
      (hids : m'.pids ⊆ m.pids) : Line A m [] m'
  | serve {m m' : Machine} {t : Turn} (hids : m'.pids = m.pids)
      (hfront : m.currentPid? = some t.pid) (hfront' : m'.currentPid? = some t.pid) :
      Line A m [t] m'

end Machine

section

open Machine

variable {A : Machine → Request → Prop} {s : Settings} {loads : Nat} {m m' : Machine}
  {ts ran : List Turn} {beats : List (Traced Machine)}

theorem Act.patient (hA : ∀ m r, A m r → KeepsFirstCome m r) (h : Act A m ts m')
    (hm : m.Patient) : m'.Patient := by
  refine ⟨?_, alive_of_act h hm.alive⟩
  have hpolicy := hm.policy_eq
  cases h with
  | aside h =>
    rw [h]
    exact hpolicy
  | setPolicy h => exact (hA _ _ h).1 _ rfl
  | load h =>
    rw [h.machine_eq]
    exact hpolicy
  | _ => exact hpolicy

/-- Under first come, first served the line moves on by nothing but arrivals and departures. -/
theorem Act.line (h : Act A m ts m') (howned : m.Owned s loads) (hm : m.Patient) :
    Line A m ts m' := by
  have hnever := hm.wantsSwitch_eq_false
  have hfront : ∀ pid ∈ m.currentPid?, pid ∈ m.pids → m.currentPid? = some pid :=
    fun pid hpid _ => hpid
  cases h with
  | aside h =>
    rw [h]
    exact .leave (.refl _) hfront
  | setQuantum => exact .leave (.refl _) hfront
  | setPolicy => exact .leave (.refl _) hfront
  | setSingleStep => exact .leave (.refl _) hfront
  | load h =>
    refine .join ?_ ?_
    · rw [h.machine_eq, pids_eq, pids_eq, List.append_assoc]
      exact congrArg _ List.map_append
    · rw [h.machine_eq]
      rfl
  | start hc hr hA =>
    rename_i p before after
    have hids : (m.handTo p (before ++ after)).pids = p.pid :: (before ++ after).map Process.pid :=
      rfl
    rcases hA with rfl | hA
    · refine .leave ?_ fun pid hpid => ?_
      · rw [hids, pids_of_idle hc, hr]
        exact .refl _
      · rw [Kernel.currentPid?, hc] at hpid
        cases hpid
    · refine .jump hc hA ?_
      rw [hids, pids_of_idle hc, hr, List.map_append, List.map_append]
      exact List.perm_middle.symm.subset
  | rotate _ _ hw => exact absurd hw (by rw [hnever]; decide)
  | renew _ _ hw => exact absurd hw (by rw [hnever]; decide)
  | retire hc hr =>
    rename_i p next rest
    have hids : ((m.freed p).handTo next rest).pids = m.ready.toList.map Process.pid := by
      rw [hr]
      rfl
    have hline := pids_of_current hc
    refine .leave ?_ fun pid hpid hin => ?_
    · rw [hids, hline]
      exact List.sublist_cons_self _ _
    · have hnodup := howned.nodup_pids
      rw [hline] at hnodup
      rw [Kernel.currentPid?, hc] at hpid
      obtain rfl := Option.some.inj hpid
      rw [hids] at hin
      exact absurd hin (List.nodup_cons.1 hnodup).1
  | halt hc hr =>
    rename_i p
    have hids : ((m.freed p).stopped).pids = [] := by
      rw [pids_of_idle rfl]
      show m.ready.toList.map Process.pid = []
      rw [hr]
      rfl
    refine .leave ?_ fun pid _ hin => ?_
    · rw [hids]
      exact List.nil_sublist _
    · rw [hids] at hin
      cases hin
  | drop hr =>
    refine .leave ?_ fun pid hpid _ => hpid
    rw [pids_eq, pids_eq, hr]
    exact ((List.sublist_cons_self _ _).append_left _ |>.map _).append_left _
  | turn hc =>
    refine .serve (pids_turned hc) ?_ (congrArg some (pid_process_cycle ..))
    rw [Kernel.currentPid?, hc]
    rfl

end

namespace Machine

/-- Of all the processes in `ran` only the one in front of the line is left. -/
structure Served (s : Settings) (ran : List Turn) (m : Machine) : Prop where
  owned : m.Owned s m.nextPid.toNat
  patient : m.Patient
  lt : ∀ u ∈ ran, u.pid.toNat < m.nextPid.toNat
  front : ∀ u ∈ ran, u.pid ∈ m.pids → m.currentPid? = some u.pid

/-- The ids of the cycles in `ran` and then those of the line never decrease. -/
def Sorted (ran : List Turn) (m : Machine) : Prop :=
  (ran.map Turn.pid ++ m.pids).Pairwise (· ≤ ·)

section

variable {A : Machine → Request → Prop} {s : Settings} {m m' : Machine} {ts ran : List Turn}
  {beats : List (Traced Machine)}

theorem Served.act (hA : ∀ m r, A m r → KeepsFirstCome m r) (hm : Served s ran m)
    (h : Act A m ts m') : Served s (ran ++ ts) m' := by
  have hid : ∀ m r, A m r → HasId m r := fun m r hr => (hA m r hr).2
  have howned := hm.owned.act hid h
  have hline := h.line hm.owned hm.patient
  refine ⟨howned, h.patient hA hm.patient, fun u hu => ?_, fun u hu hin => ?_⟩
  · rcases List.mem_append.1 hu with hold | hnew
    · exact Nat.lt_of_lt_of_le (hm.lt u hold) (nextPid_le_of_act hid h)
    · exact howned.pid_lt_of_mem_pids (mem_pids_of_currentPid? (h.currentPid?_eq u hnew))
  · rcases List.mem_append.1 hu with hold | hnew
    · cases hline with
      | leave hids hfront =>
        have hwas := hm.front u hold (hids.subset hin)
        exact hfront u.pid hwas hin
      | join hids hfront =>
        rw [hfront]
        rw [hids, List.mem_append, List.mem_singleton] at hin
        rcases hin with hin | hlast
        · exact hm.front u hold hin
        · have hlt := hm.lt u hold
          rw [hlast] at hlt
          exact absurd hlt (Nat.lt_irrefl _)
      | jump hidle _ hids =>
        have hwas := hm.front u hold (hids hin)
        rw [Kernel.currentPid?, hidle] at hwas
        cases hwas
      | serve hids hfront hfront' =>
        rw [hfront', ← hfront]
        exact hm.front u hold (hids ▸ hin)
    · exact h.currentPid?_eq u hnew

/-- Whoever joins the line has the largest id, and whoever runs a cycle the smallest one. -/
theorem Sorted.act (hA : ∀ m r, A m r → StartsInTurn m r) (hserved : Served s ran m)
    (hm : Sorted ran m) (h : Act A m ts m') : Sorted (ran ++ ts) m' := by
  unfold Sorted at hm ⊢
  cases h.line hserved.owned hserved.patient with
  | leave hids =>
    rw [List.append_nil]
    exact hm.sublist (hids.append_left _)
  | join hids =>
    rw [List.append_nil, hids, ← List.append_assoc]
    refine List.pairwise_append.2
      ⟨hm, List.pairwise_singleton _ _, fun pid hpid next hnext => ?_⟩
    obtain rfl := List.mem_singleton.1 hnext
    refine UInt32.le_iff_toNat_le.2 (Nat.le_of_lt ?_)
    rcases List.mem_append.1 hpid with hpid | hpid
    · obtain ⟨u, hu, rfl⟩ := List.mem_map.1 hpid
      exact hserved.lt u hu
    · exact hserved.owned.pid_lt_of_mem_pids hpid
  | jump hidle hrun =>
    have hbusy := hA _ _ hrun _ rfl
    rw [hidle] at hbusy
    cases hbusy
  | serve hids hfront =>
    rename_i t _
    have hline : m.pids = t.pid :: m.ready.toList.map Process.pid := by
      rw [pids_eq, hfront]
      rfl
    rw [hline] at hm
    obtain ⟨hran, hrest, hcross⟩ := List.pairwise_append.1 hm
    rw [hids, hline, List.map_append, List.append_assoc]
    refine List.pairwise_append.2
      ⟨hran, List.pairwise_cons.2 ⟨fun pid hpid => ?_, hrest⟩, fun id hid pid hpid => ?_⟩
    · rcases List.mem_cons.1 hpid with rfl | hpid
      · exact UInt32.le_refl _
      · exact (List.pairwise_cons.1 hrest).1 pid hpid
    · rcases List.mem_cons.1 hpid with rfl | hpid
      · exact hcross id hid _ List.mem_cons_self
      · exact hcross id hid pid hpid

theorem Booted.served {booted : Machine} (h : Booted s booted) (hpolicy : s.policy = .firstCome) :
    Served s [] booted := by
  refine ⟨h.owned.of_nextPid, ⟨?_, ?_⟩, fun u hu => ?_, fun u hu => ?_⟩
  · rw [h.machine_eq]
    exact hpolicy
  · rw [h.machine_eq]
    rfl
  · cases hu
  · cases hu

theorem Booted.sorted {booted : Machine} (h : Booted s booted) : Sorted [] booted := by
  rw [Sorted, pids, ← map_pid_residents, h.residents_eq]
  exact List.Pairwise.nil

end

/-- **First come, first served runs to completion in order of arrival.** In a run under this policy
each beat runs one cycle at most, and when a process runs one, no other process is resident that ran
one before. If all processes are started in turn, the ids of the cycles never decrease. -/
theorem firstCome_in_order {s : Settings} {booted : Traced Machine} (hboot : boot s = .ok booted)
    (hfirst : s.policy = .firstCome) (ops : List Operation)
    (hpolicy : ∀ policy, .ask (.setPolicy policy) ∈ ops → policy = .firstCome)
    (hloads : booted.value.loadsIn ops < UInt32.size) :
    (∀ t ∈ booted.value.beatsIn ops, t.turns.length ≤ 1) ∧
      (∀ before t after, booted.value.beatsIn ops = before ++ t :: after →
        ∀ u ∈ t.turns, ∀ earlier ∈ before.flatMap Traced.turns, earlier.pid ≠ u.pid →
          earlier.pid ∉ t.value.processes.map Process.pid) ∧
      (booted.value.Grants StartsInTurn ops →
        ((booted.value.afterAll ops).turns.map Turn.pid).Pairwise (· ≤ ·)) := by
  have hbooted := boot_eq_ok hboot
  have hgrants : booted.value.Grants KeepsFirstCome ops := by
    refine Grants.and (grants_of_forall fun m r hr policy he => ?_)
      (hbooted.owned.grants_hasId ops (by rwa [Nat.zero_add]))
    exact hpolicy policy (he ▸ hr)
  refine ⟨fun t ht => ?_, fun before t after hbeats u hu earlier hearlier hne hin => ?_,
    fun hturn => ?_⟩
  · obtain ⟨before, after, hbeats⟩ := List.append_of_mem ht
    obtain ⟨m, -, hafter⟩ := (hbeats ▸ hgrants.beats).split
    cases hafter with
    | cons hbeat _ => exact hbeat.length_le_one
  · obtain ⟨m, hbefore, hafter⟩ := (hbeats ▸ hgrants.beats).split
    have hserved := hbefore.keep (P := Served s) [] (fun hact hm => hm.act (fun _ _ => id) hact)
      (hbooted.served hfirst)
    cases hafter with
    | cons hbeat _ =>
      have hlater := hbeat.keep (P := Served s) _ (fun hact hm => hm.act (fun _ _ => id) hact)
        hserved
      have hlast := hlater.front earlier (List.mem_append_left _ hearlier) hin
      rw [hbeat.currentPid?_eq u hu] at hlast
      exact hne (Option.some.inj hlast).symm
  · have hbeats := (hgrants.and hturn).beats
    have hsorted := hbeats.keep (P := fun ran m => Served s ran m ∧ Sorted ran m) []
      (fun hact hm => ⟨hm.1.act (fun _ _ hA => hA.1) hact, hm.2.act (fun _ _ hA => hA.2) hm.1 hact⟩)
      ⟨hbooted.served hfirst, hbooted.sorted⟩
    rw [List.nil_append, turns_beatsIn] at hsorted
    exact (List.pairwise_append.1 hsorted.2).1

/-- Three cycles of the first program, up to its end, and three of the second one. -/
theorem firstCome_in_order_small :
    ∃ booted, boot { smallSettings with policy := .firstCome } = .ok booted ∧
      (∀ policy, .ask (.setPolicy policy) ∈ errands → policy = .firstCome) ∧
      booted.value.loadsIn errands < UInt32.size ∧ booted.value.Grants StartsInTurn errands ∧
      (booted.value.afterAll errands).turns.map Turn.pid = [0, 0, 0, 1, 1, 1] ∧
      ((booted.value.afterAll errands).turns.map Turn.pid).Pairwise (· ≤ ·) := by
  let booted : Traced Machine :=
    (boot { smallSettings with policy := .firstCome }).toOption.get rfl
  have hboot : boot { smallSettings with policy := .firstCome } = .ok booted := rfl
  have hpolicy : ∀ policy, .ask (.setPolicy policy) ∈ errands → policy = .firstCome := by
    simp [errands]
  have hloads : booted.value.loadsIn errands < UInt32.size := by decide +kernel
  have hturn : booted.value.Grants StartsInTurn errands := by
    refine grants_of_forall fun m r hr pid he => ?_
    subst he
    simp [errands] at hr
  have hids : (booted.value.afterAll errands).turns.map Turn.pid = [0, 0, 0, 1, 1, 1] := by
    decide +kernel
  obtain ⟨-, -, hsorted⟩ := firstCome_in_order hboot rfl errands hpolicy hloads
  exact ⟨booted, hboot, hpolicy, hloads, hturn, hids, hsorted hturn⟩

end Machine

end Timeshare
