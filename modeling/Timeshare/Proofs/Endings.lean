import Timeshare.Proofs.Ticks

/-!
# The last instruction of a process

A break, an instruction that does not exist and an address outside the partition are traps that end
a program. The kernel learns of such a trap one tick late, from the interrupt that the cycle raised.
Nothing gets in front of that interrupt, so it is the first one that the next tick services, and the
process is gone before that tick runs a cycle.
-/
namespace Timeshare

theorem Trap.victim?_interrupt {trap : Trap} (h : trap.ends = true) (pid : Pid) :
    (trap.interrupt pid).victim? = some pid := by
  cases trap with
  | call accumulator x y => cases h
  | breakpoint => rfl
  | badOpcode opcode counter => rfl
  | badAddress address => rfl

namespace Machine

/-- The interrupt that waits in front of all others ends the process. -/
structure Doomed (pid : Pid) (i : Interrupt) (m : Machine) : Prop where
  pending_eq : m.interrupts.pending.toList.head? = some i
  victim_eq : i.victim? = some pid
  lt : pid.toNat < m.nextPid.toNat

section

variable {A : Interrupt → Prop} {s : Settings} {pid : Pid} {i : Interrupt} {m m₁ m' : Machine}
  {ticks : List Machine}

theorem Doomed.between (hd : Doomed pid i m) (h : Between A m m') : Doomed pid i m' := by
  obtain ⟨raised, hpending, -⟩ := h.pending_eq
  refine ⟨?_, hd.victim_eq, Nat.lt_of_lt_of_le hd.lt h.nextPid_le⟩
  rw [hpending, List.head?_append, hd.pending_eq]
  rfl

theorem Doomed.atTick (hd : Doomed pid i m) (h : m₁ = m ∨ m₁ = m.interrupt .step) :
    Doomed pid i m₁ := by
  rcases h with rfl | rfl
  · exact hd
  · refine ⟨?_, hd.victim_eq, hd.lt⟩
    have hpushed : (m.interrupt .step).interrupts.pending.toList =
        m.interrupts.pending.toList ++ [.step] := Array.toList_push
    rw [hpushed, List.head?_append, hd.pending_eq]
    rfl

/-- The next tick takes the process out first, and runs no cycle of it. -/
theorem Doomed.gone_tick (hd : Doomed pid i m) (hm : m.AtTick A s) :
    Gone pid m.tick.value ∧ cyclesOf pid m.tick.turns = 0 := by
  obtain ⟨howned, -, halive, -⟩ := hm.orderly
  obtain ⟨rest, hpending⟩ : ∃ rest, m.interrupts.pending.toList = i :: rest := by
    have hhead := hd.pending_eq
    cases hlist : m.interrupts.pending.toList with
    | nil =>
      rw [hlist] at hhead
      cases hhead
    | cons j rest =>
      rw [hlist] at hhead
      exact ⟨rest, by rw [Option.some.inj hhead]⟩
  let first := m.awake.service i
  let later := first.value.serviceAll rest >>= fun m =>
    if m.processor.executing then m.cycle else pure m
  have htick : m.tick.value = later.value ∧ m.tick.turns = first.turns ++ later.turns := by
    rw [tick_eq, hpending, serviceAll_cons, bind_assoc]
    exact ⟨rfl, rfl⟩
  have hlater : first.value.MovesTo later := by
    refine (movesTo_serviceAll _ _).bind ?_
    split
    · exact movesTo_cycle _
    · exact movesTo_pure _
  -- the service of the interrupt runs no cycle and takes the process out
  have hi : i ≠ .step := by
    rintro rfl
    cases hd.victim_eq
  have hawake : m.awake.Owned s m.nextPid.toNat := howned.move (.aside m.beside_awake)
  have hserviced : first.value.Owned s m.nextPid.toNat := hawake.moves (movesTo_service _ _)
  have hdeparts := departs_service hawake.nodup_pids halive i
  have hgone : Gone pid first.value := by
    refine ⟨fun hmem => ?_, ?_⟩
    · have hleft := hdeparts.rotated.mem_iff.1 hmem
      rw [hd.victim_eq, List.mem_filter] at hleft
      simp at hleft
    · rw [hserviced.toNat_nextPid]
      exact hd.lt
  rw [htick.1, htick.2, cyclesOf_append, hgone.cyclesOf_moves hserviced hlater]
  refine ⟨hgone.moves hserviced hlater, ?_⟩
  have hnone : first.turns = [] := turns_service m.awake hi
  rw [hnone]
  rfl

theorem Doomed.ticking (hA : ¬ A .step) (hm : m.Orderly A s) (hd : Doomed pid i m)
    (h : Ticking A m ticks m') :
    (∀ m₁ ∈ ticks, cyclesOf pid m₁.tick.turns = 0) ∧
      ∀ next ∈ ticks.head?, next.interrupts.pending.toList.head? = some i ∧
        pid ∉ next.tick.value.pids := by
  induction h with
  | refl m =>
    refine ⟨fun m₁ hm₁ => absurd hm₁ List.not_mem_nil, fun next hnext => ?_⟩
    cases hnext
  | between hbetween _ ih => exact ih (hm.between hbetween) (hd.between hbetween)
  | tick htick hs _ =>
    rename_i m m₁ m₂ ticks _
    have hat := hm.atTick hA htick
    have hd₁ := hd.atTick htick
    obtain ⟨hgone, hnone⟩ := hd₁.gone_tick hat
    have hrest := (hgone.ticking hA hat.orderly_tick hs).1
    refine ⟨fun x hx => ?_, fun next hnext => ?_⟩
    · rcases List.mem_cons.1 hx with rfl | hx
      · exact hnone
      · exact (hrest x hx).2
    · obtain rfl : m₁ = next := Option.some.inj hnext
      exact ⟨hd₁.pending_eq, hgone.notMem⟩

/-- A cycle that ends its program dooms its process. -/
theorem AtTick.doomed_tick (hm : m.AtTick A s) {r : Resident} (hr : r ∈ m.residents)
    (hcycle : 0 < cyclesOf r.pid m.tick.turns) {trap : Trap}
    (htrap : (r.solo m.memory).trap? = some trap) (hends : trap.ends = true) :
    Doomed r.pid (trap.interrupt r.pid) m.tick.value := by
  obtain ⟨-, hpending⟩ := hm.turns_eq_of_cycle hr hcycle
  have howned := hm.orderly.owned
  rw [htrap] at hpending
  refine ⟨?_, Trap.victim?_interrupt hends r.pid, ?_⟩
  · rw [hpending]
    rfl
  · rw [nextPid_of_moves (movesTo_tick m)]
    exact howned.pid_lt_of_mem_pids (mem_pids_of_mem_residents hr)

end

/-- **A break or a fault is the last instruction of a process.** All cycles of a run are those of
its ticks. A tick that runs a cycle of a process runs no other cycle, and the cycle raises what the
program of the process traps. If that trap ends the program, the process gets no cycle in any later
tick, the next tick services its interrupt first, and after that tick it is not resident. -/
theorem last_instruction {s : Settings} {booted : Traced Machine} (hboot : boot s = .ok booted)
    (ops : List Operation) (hsteps : .ask (.interrupt .step) ∉ ops)
    (hloads : booted.value.loadsIn ops < UInt32.size) :
    (booted.value.afterAll ops).turns = (booted.value.ticksIn ops).flatMap (·.tick.turns) ∧
    ∀ before m after, booted.value.ticksIn ops = before ++ m :: after →
      ∀ pid, 0 < cyclesOf pid m.tick.turns →
        ∃ r ∈ m.residents, r.pid = pid ∧
          m.tick.turns = [⟨pid, (r.solo m.memory).trap?.map (Trap.interrupt pid)⟩] ∧
          ∀ trap, (r.solo m.memory).trap? = some trap → trap.ends = true →
            (∀ later ∈ after, cyclesOf pid later.tick.turns = 0) ∧
            ∀ next ∈ after.head?,
              next.interrupts.pending.toList.head? = some (trap.interrupt pid) ∧
                pid ∉ next.tick.value.pids := by
  have hbooted := boot_eq_ok hboot
  let A : Interrupt → Prop := (· ≠ .step)
  have hA : ¬ A .step := fun h => h rfl
  have hraises : ∀ r, .ask r ∈ ops → ∀ i ∈ r.raises, A i := by
    rintro r hr i hi rfl
    cases r with
    | interrupt i =>
      obtain rfl := List.mem_singleton.1 hi
      exact hsteps hr
    | requestKill pid => cases List.mem_singleton.1 hi
    | _ => cases hi
  rw [← Nat.zero_add (Machine.loadsIn _ _)] at hloads
  have hticking := hbooted.owned.ticking_afterAll ops hraises hloads
  refine ⟨turns_afterAll _ ops, fun before m after hticks pid hcycle => ?_⟩
  rw [hticks] at hticking
  obtain ⟨m₀, hbefore, htick, hafter⟩ := hticking.split
  have horderly : booted.value.Orderly A s := hbooted.orderly
  have hat := (horderly.ticking hA hbefore).atTick hA htick
  obtain ⟨r, hr, rfl⟩ := exists_resident_of_mem_pids
    (hat.orderly.owned.mem_pids_of_cyclesOf (movesTo_tick m) hcycle)
  refine ⟨r, hr, rfl, (hat.turns_eq_of_cycle hr hcycle).1, fun trap htrap hends => ?_⟩
  exact (hat.doomed_tick hr hcycle htrap hends).ticking hA hat.orderly_tick hafter

/-- A break in automatic mode, serviced by a step in front of the timer that came later. -/
theorem last_instruction_small :
    let start : List Operation :=
      [.ask (.load [0x00]), .ask (.load [0xEA]), .ask .runAll, .ask (.interrupt (.keyboard 'a'))]
    let ops := start ++
      [.ask .tick, .ask (.interrupt .timer), .ask (.setSingleStep true), .ask .step, .settle 3]
    let m := (small.value.afterAll start).value
    let next := (small.value.afterAll (ops.take 7)).value.interrupt .step
    .ask (.interrupt .step) ∉ ops ∧ small.value.loadsIn ops < UInt32.size ∧
      (∃ after, small.value.ticksIn ops = m :: next :: after) ∧
      m.tick.turns = [⟨0, some (.cpuBreak 0)⟩] ∧
      next.interrupts.pending.toList.head? = some (.cpuBreak 0) ∧ 0 ∉ next.tick.value.pids := by
  intro start ops m next
  have hsteps : .ask (.interrupt .step) ∉ ops := by simp [ops, start]
  have hloads : small.value.loadsIn ops < UInt32.size := by decide +kernel
  have hticks : ∃ after, small.value.ticksIn ops = m :: next :: after := ⟨_, rfl⟩
  have hturns : m.tick.turns = [⟨0, some (.cpuBreak 0)⟩] := by decide +kernel
  have hcycle : 0 < cyclesOf 0 m.tick.turns := by
    rw [hturns]
    decide
  obtain ⟨after, hafter⟩ := hticks
  obtain ⟨-, hlast⟩ := last_instruction boot_small ops hsteps hloads
  obtain ⟨r, -, -, hone, hend⟩ := hlast [] m (next :: after) hafter 0 hcycle
  -- the only trap that raises a break is a break
  have htrap : (r.solo m.memory).trap? = some .breakpoint := by
    rw [hturns] at hone
    cases htrap : (r.solo m.memory).trap? with
    | none =>
      rw [htrap] at hone
      cases hone
    | some trap =>
      rw [htrap] at hone
      cases trap with
      | breakpoint => rfl
      | _ => cases hone
  obtain ⟨-, hnext⟩ := hend .breakpoint htrap rfl
  obtain ⟨hfirst, hgone⟩ := hnext next rfl
  exact ⟨hsteps, hloads, ⟨after, hafter⟩, hturns, hfirst, hgone⟩

end Machine

end Timeshare
