import Timeshare.Proofs.Coherence

/-!
# Waiting for the processor

Under round robin nobody waits for ever. Everybody in front of a process may run as many cycles as
the quantum allows, and so may whoever is current, less the cycles that were counted already. These
cycles are what a process has ahead of it: each cycle that is run takes one away, and nothing that
is done beside cycles adds any, because new processes and processes that were interrupted queue
behind.
-/
namespace Timeshare

namespace Machine

/-- The ids of the processes that wait for the processor, in order. -/
def queued (m : Machine) : List Pid := m.ready.toList.map Process.pid

/-- The number of cycles that may be run at most while the process waits. -/
def cyclesAhead (m : Machine) (pid : Pid) : Nat :=
  m.queued.idxOf pid * m.scheduler.quantum + (m.scheduler.quantum - m.scheduler.cycles)

/-- The request leaves policy and quantum as they are, and a load finds an id. -/
def KeepsQuantum (m : Machine) (r : Request) : Prop :=
  ((∀ policy, r ≠ .setPolicy policy) ∧ ∀ quantum, r ≠ .setQuantum quantum) ∧ HasId m r

/-- Round robin is under way: somebody is current, and nobody who has ended. -/
structure Rotating (s : Settings) (quantum : Nat) (m : Machine) : Prop where
  owned : m.Owned s m.nextPid.toNat
  policy_eq : m.scheduler.policy = .roundRobin
  quantum_eq : m.scheduler.quantum = quantum
  alive : m.currentTerminated = false
  busy : m.current.isSome = true

section

variable {s : Settings} {quantum loads : Nat} {pid : Pid} {m m' : Machine} {ts : List Turn}
  {beats : List (Traced Machine)}

/-- Who is on the processor does not wait for it. -/
theorem Owned.notMem_queued (hm : m.Owned s loads) {p : Process} (hc : m.current = some p) :
    p.pid ∉ m.queued := by
  have hnodup := hm.nodup_pids
  rw [pids_of_current hc] at hnodup
  exact (List.nodup_cons.1 hnodup).1

/-- A process that is passed over gets one place on, and the quantum begins anew. -/
theorem cyclesAhead_handTo {next : Process} {rest : List Process} (extra : List Process)
    (hr : m.ready.toList = next :: rest) (hne : next.pid ≠ pid) (hp : pid ∈ m.queued) :
    (m.handTo next (rest ++ extra)).cyclesAhead pid ≤ m.cyclesAhead pid := by
  have hqueue : m.queued = next.pid :: rest.map Process.pid := by
    rw [queued, hr]
    rfl
  have hrest : pid ∈ rest.map Process.pid := by
    rw [hqueue, List.mem_cons] at hp
    exact hp.resolve_left hne.symm
  have hold : m.queued.idxOf pid = (rest.map Process.pid).idxOf pid + 1 := by
    rw [hqueue, List.idxOf_cons_ne _ hne]
  have hnew : (m.handTo next (rest ++ extra)).queued.idxOf pid =
      (rest.map Process.pid).idxOf pid := by
    show ((rest ++ extra).map Process.pid).idxOf pid = _
    rw [List.map_append, List.idxOf_append_of_mem hrest]
  have hquantum : (m.handTo next (rest ++ extra)).scheduler.quantum = m.scheduler.quantum := rfl
  rw [cyclesAhead, cyclesAhead, hnew, hold, hquantum, Nat.succ_mul]
  omega

/-- Who leaves the queue brings nobody else further behind. -/
theorem idxOf_le_of_drop (before after : List Pid) {x : Pid} (hne : x ≠ pid) :
    (before ++ after).idxOf pid ≤ (before ++ x :: after).idxOf pid := by
  by_cases hbefore : pid ∈ before
  · rw [List.idxOf_append_of_mem hbefore, List.idxOf_append_of_mem hbefore]
  · rw [List.idxOf_append_of_notMem hbefore, List.idxOf_append_of_notMem hbefore,
      List.idxOf_cons_ne _ hne]
    omega

theorem cyclesAhead_drop {p : Process} {before after : List Process}
    (hr : m.ready.toList = before ++ p :: after) (hne : p.pid ≠ pid) :
    ({ m.freed p with ready := ⟨before ++ after⟩ } : Machine).cyclesAhead pid ≤
      m.cyclesAhead pid := by
  have hqueue : m.queued = before.map Process.pid ++ p.pid :: after.map Process.pid := by
    rw [queued, hr, List.map_append, List.map_cons]
  have hindex := idxOf_le_of_drop (before.map Process.pid) (after.map Process.pid) hne
  rw [← hqueue, ← List.map_append] at hindex
  exact Nat.add_le_add_right (Nat.mul_le_mul_right _ hindex) _

/-- Below the quantum each cycle that is run is one less to wait for. -/
theorem cyclesAhead_turned (hmax : m.scheduler.quantum < UInt32.size)
    (hbelow : m.scheduler.cycles < m.scheduler.quantum) (c : Cycle) :
    1 + (m.turned c).cyclesAhead pid = m.cyclesAhead pid := by
  have hcycles : (m.turned c).scheduler.cycles = m.scheduler.cycles + 1 := by
    refine Nat.min_eq_left ?_
    rw [Scheduler.maxCycles]
    omega
  show 1 + (m.queued.idxOf pid * m.scheduler.quantum +
    (m.scheduler.quantum - (m.turned c).scheduler.cycles)) = _
  rw [hcycles, cyclesAhead]
  omega

/-- A new process queues behind. -/
theorem Loaded.queued_eq {program : List UInt8} {partition : Nat}
    (h : Loaded m m' program partition) : m'.queued = m.queued ++ [m.nextPid] := by
  rw [h.machine_eq]
  exact List.map_append

/-- Nothing but cycles is done while a process waits that it could notice, and each cycle is one
that it had ahead. -/
theorem Rotating.act (hpos : 0 < quantum) (hmax : quantum < UInt32.size)
    (hm : m.Rotating s quantum) (h : Act KeepsQuantum m ts m') (hp : pid ∈ m.queued)
    (hp' : pid ∈ m'.queued) :
    m'.Rotating s quantum ∧ ts.length + m'.cyclesAhead pid ≤ m.cyclesAhead pid := by
  have howned := hm.owned.act (fun m r hA => hA.2) h
  have halive := alive_of_act h hm.alive
  obtain ⟨howned₀, hpolicy, hquantum, -, hbusy⟩ := hm
  have hqueue : m.ready.toList ≠ [] := by
    intro hempty
    rw [queued, hempty] at hp
    cases hp
  -- the process that is on the processor next does not wait any more
  have hnext : ∀ next, m'.current = some next → next.pid ≠ pid := by
    rintro next hc rfl
    exact howned.notMem_queued hc hp'
  cases h with
  | aside h =>
    rw [h] at howned halive ⊢
    refine ⟨⟨howned, hpolicy, hquantum, halive, hbusy⟩, ?_⟩
    rw [List.length_nil, Nat.zero_add]
    exact Nat.le_refl _
  | setQuantum _ hA => exact absurd rfl (hA.1.2 _)
  | setPolicy hA => exact absurd rfl (hA.1.1 _)
  | setSingleStep =>
    refine ⟨⟨howned, hpolicy, hquantum, halive, hbusy⟩, ?_⟩
    rw [List.length_nil, Nat.zero_add]
    exact Nat.le_refl _
  | load h =>
    have hsame : m'.scheduler = m.scheduler ∧ m'.current = m.current := by
      rw [h.machine_eq]
      exact ⟨rfl, rfl⟩
    rw [← hsame.1] at hpolicy hquantum
    rw [← hsame.2] at hbusy
    refine ⟨⟨howned, hpolicy, hquantum, halive, hbusy⟩, ?_⟩
    rw [List.length_nil, Nat.zero_add, cyclesAhead, cyclesAhead, h.queued_eq,
      List.idxOf_append_of_mem hp, hsame.1]
  | start hc =>
    rw [hc] at hbusy
    cases hbusy
  | rotate hc ht hw hr =>
    rename_i p next rest
    refine ⟨⟨howned, hpolicy, hquantum, halive, rfl⟩, ?_⟩
    rw [List.length_nil, Nat.zero_add]
    exact cyclesAhead_handTo _ hr (hnext { next with status := .running } rfl) hp
  | renew _ _ _ hr => exact absurd hr hqueue
  | retire hc hr =>
    rename_i p next rest
    refine ⟨⟨howned, hpolicy, hquantum, halive, rfl⟩, ?_⟩
    have hahead := cyclesAhead_handTo (m := m.freed p) [] hr
      (hnext { next with status := .running } rfl) hp
    rw [List.append_nil] at hahead
    rw [List.length_nil, Nat.zero_add]
    exact hahead
  | halt _ hr => exact absurd hr hqueue
  | drop hr =>
    rename_i p before after
    refine ⟨⟨howned, hpolicy, hquantum, halive, hbusy⟩, ?_⟩
    have hne : p.pid ≠ pid := by
      rintro rfl
      have hnodup := howned₀.nodup_pids
      rw [pids_eq, hr, List.map_append, List.map_cons] at hnodup
      have hleft := (List.nodup_middle.1 (List.nodup_append.1 hnodup).2.1)
      rw [List.nodup_cons, ← List.map_append] at hleft
      exact hleft.1 hp'
    rw [List.length_nil, Nat.zero_add]
    exact cyclesAhead_drop hr hne
  | turn hc hw =>
    refine ⟨⟨howned, hpolicy, hquantum, halive, rfl⟩, ?_⟩
    have hbelow : m.scheduler.cycles < m.scheduler.quantum := by
      rcases hw with hw | hw
      · rw [wantsSwitch, Scheduler.wantsSwitch, hpolicy] at hw
        exact Nat.lt_of_not_le (of_decide_eq_false hw)
      · omega
    exact Nat.le_of_eq (cyclesAhead_turned (by omega) hbelow _)

theorem Rotating.beat (hpos : 0 < quantum) (hmax : quantum < UInt32.size)
    (hm : m.Rotating s quantum) (h : Beat KeepsQuantum m ts m') (hp : pid ∈ m.queued)
    (hp' : pid ∈ m'.queued) :
    m'.Rotating s quantum ∧ ts.length + m'.cyclesAhead pid ≤ m.cyclesAhead pid := by
  rcases h.acts with h | ⟨m₁, hfirst, hlast, hready⟩
  · exact hm.act hpos hmax h hp hp'
  · have hp₁ : pid ∈ m₁.queued := by
      rw [queued, ← hready]
      exact hp'
    obtain ⟨hm₁, hswitched⟩ := hm.act hpos hmax hfirst hp hp₁
    obtain ⟨hm', hturned⟩ := hm₁.act hpos hmax hlast hp₁ hp'
    rw [List.length_nil, Nat.zero_add] at hswitched
    exact ⟨hm', hturned.trans hswitched⟩

/-- While a process waits, no more cycles are run than it has ahead. -/
theorem Rotating.length_turns_le (hpos : 0 < quantum) (hmax : quantum < UInt32.size)
    (hm : m.Rotating s quantum) (h : Beats KeepsQuantum m beats m') (hp : pid ∈ m.queued)
    (hstay : ∀ t ∈ beats, pid ∈ t.value.queued) :
    (beats.flatMap Traced.turns).length + m'.cyclesAhead pid ≤ m.cyclesAhead pid := by
  induction h with
  | refl => exact Nat.le_of_eq (Nat.zero_add _)
  | cons hbeat _ ih =>
    have hnext := hstay _ List.mem_cons_self
    obtain ⟨hm₁, hfirst⟩ := hm.beat hpos hmax hbeat hp hnext
    have hrest := ih hm₁ hnext fun t ht => hstay t (List.mem_cons_of_mem _ ht)
    rw [List.flatMap_cons, List.length_append]
    omega

end

/-- **Round robin bounds every wait.** Take any machine under round robin in which somebody is
current and a process is number `i` of the queue, and go on with it in any way without a change of
policy or quantum. As long as the process has stayed in the queue, at most `i + 1` quanta of cycles
have been run, whatever was counted before. Settings and commands take 32-bit quanta only; the count
of cycles would never reach a longer one. -/
theorem bounded_wait {s : Settings} {booted : Traced Machine} (hboot : boot s = .ok booted)
    (ops later : List Operation) (hloads : booted.value.loadsIn (ops ++ later) < UInt32.size)
    (hpolicy : ∀ policy, .ask (.setPolicy policy) ∉ later)
    (hquantum : ∀ quantum, .ask (.setQuantum quantum) ∉ later) :
    let m := (booted.value.afterAll ops).value
    m.scheduler.policy = .roundRobin → m.scheduler.quantum < UInt32.size →
    m.current.isSome = true →
    ∀ i p, m.ready.toList[i]? = some p →
    ∀ past, past <+: m.beatsIn later →
    (∀ t ∈ past, p.pid ∈ t.value.ready.toList.map Process.pid) →
      (past.flatMap Traced.turns).length ≤ (i + 1) * m.scheduler.quantum := by
  intro m hround hmax hbusy i p hi past hpast hstay
  have hbooted := boot_eq_ok hboot
  rw [loadsIn_append] at hloads
  have howned : m.Owned s (booted.value.loadsIn ops) := hbooted.owned_afterAll ops (by omega)
  have hgrants : m.Grants KeepsQuantum later := by
    refine Grants.and (grants_of_forall fun m r hr => ⟨fun policy he => ?_, fun quantum he => ?_⟩)
      (howned.grants_hasId later hloads)
    · exact hpolicy policy (he ▸ hr)
    · exact hquantum quantum (he ▸ hr)
  obtain ⟨rest, hrest⟩ := hpast
  obtain ⟨m₁, hbeats, -⟩ := (hrest ▸ hgrants.beats).split
  have hm : m.Rotating s m.scheduler.quantum :=
    ⟨howned.of_nextPid, hround, rfl, hbooted.alive_afterAll ops, hbusy⟩
  have hpos : 0 < m.scheduler.quantum := (hbooted.coherent_afterAll ops).quantum_pos
  have hwaits : m.queued[i]? = some p.pid := by
    rw [queued, List.getElem?_map, hi]
    rfl
  have hp := List.mem_of_getElem? hwaits
  have hbound := hm.length_turns_le hpos hmax hbeats hp hstay
  have hindex : m.queued.idxOf p.pid < i + 1 := by
    rw [← List.mem_take_iff_idxOf_lt hp]
    refine List.mem_of_getElem? (i := i) ?_
    rw [List.getElem?_take_of_lt (Nat.lt_succ_self i), hwaits]
  have hahead : m.cyclesAhead p.pid ≤ (i + 1) * m.scheduler.quantum := by
    have hquanta := Nat.mul_le_mul_right m.scheduler.quantum (Nat.le_of_lt_succ hindex)
    rw [cyclesAhead, Nat.succ_mul]
    omega
  omega

/-- Two cycles with a timer in between: as many as may be run before the second program. -/
theorem bounded_wait_small :
    let ops : List Operation := [.ask (.load [0xEA, 0xEA, 0xEA, 0xEA]), .ask (.load [0xA9, 0x05]),
      .ask (.setQuantum 2), .ask .runAll]
    let later : List Operation := [.ask .tick, .ask (.interrupt .timer), .ask .tick]
    let m := (small.value.afterAll ops).value
    small.value.loadsIn (ops ++ later) < UInt32.size ∧
      (∀ policy, .ask (.setPolicy policy) ∉ later) ∧
      (∀ quantum, .ask (.setQuantum quantum) ∉ later) ∧ m.scheduler.policy = .roundRobin ∧
      m.scheduler.quantum = 2 ∧ m.current.isSome = true ∧ m.ready.toList.map Process.pid = [1] ∧
      (∀ t ∈ m.beatsIn later, 1 ∈ t.value.ready.toList.map Process.pid) ∧
      (m.beatsIn later).flatMap Traced.turns = [⟨0, none⟩, ⟨0, none⟩] ∧
      ((m.beatsIn later).flatMap Traced.turns).length ≤ (0 + 1) * 2 := by
  intro ops later m
  have hloads : small.value.loadsIn (ops ++ later) < UInt32.size := by decide +kernel
  have hpolicy : ∀ policy, .ask (.setPolicy policy) ∉ later := by simp [later]
  have hquantum : ∀ quantum, .ask (.setQuantum quantum) ∉ later := by simp [later]
  have hround : m.scheduler.policy = .roundRobin := by decide +kernel
  have htwo : m.scheduler.quantum = 2 := by decide +kernel
  have hbusy : m.current.isSome = true := by decide +kernel
  have hqueue : m.ready.toList = [{ pid := 1, partition := 1, status := .ready }] := by
    decide +kernel
  have hstay : ∀ t ∈ m.beatsIn later, 1 ∈ t.value.ready.toList.map Process.pid := by
    decide +kernel
  have hturns : (m.beatsIn later).flatMap Traced.turns = [⟨0, none⟩, ⟨0, none⟩] := by
    decide +kernel
  have hbound := bounded_wait boot_small ops later hloads hpolicy hquantum hround
    (htwo ▸ by decide) hbusy 0 { pid := 1, partition := 1, status := .ready }
    (by rw [hqueue]; rfl) _ (List.prefix_refl _) hstay
  rw [htwo] at hbound
  refine ⟨hloads, hpolicy, hquantum, hround, htwo, hbusy, ?_, hstay, hturns, hbound⟩
  rw [hqueue]
  rfl

end Machine

end Timeshare
