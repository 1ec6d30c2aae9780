import Timeshare.Proofs.Output

/-!
# Isolation of output

`Machine.Voice` follows one process through a run: how many cycles it got, how many of them have
been heard, and what of the last one still waits to be printed. While a call waits, the process gets
no other cycle and its bytes stay as they are, so it does not matter that the text is read late.
-/
namespace Timeshare

namespace Machine

open Traced

section

variable {A : Interrupt → Prop} {s : Settings} {loads : Nat} {pid : Pid} {m m' : Machine}

/-! ## Calls of one process -/

/-- The partition of a resident is found by its id. -/
theorem Owned.partitionOf?_eq (hm : m.Owned s loads) {r : Resident} (hr : r ∈ m.residents) :
    m.partitionOf? r.pid = some r.partition := by
  obtain ⟨p, hp, hpid⟩ := List.mem_map.1 (mem_pids_of_mem_residents hr)
  cases hfind : m.processes.find? (·.pid = r.pid) with
  | none =>
    rw [List.find?_eq_none] at hfind
    exact absurd (by simpa using hpid) (hfind p hp)
  | some q =>
    have hqpid : q.pid = r.pid := by simpa using List.find?_some hfind
    obtain ⟨r', hr', hpid', hpartition⟩ :=
      exists_resident_of_mem_processes (List.mem_of_find?_eq_some hfind)
    obtain rfl := hm.resident_ext hr' hr (hpid'.trans hqpid)
    rw [Kernel.partitionOf?, hfind, hpartition]
    rfl

theorem partitionOf?_of_notMem (h : pid ∉ m.pids) : m.partitionOf? pid = none := by
  have hfind : m.processes.find? (·.pid = pid) = none := by
    rw [List.find?_eq_none]
    intro p hp hpid
    exact h (List.mem_map.2 ⟨p, hp, by simpa using hpid⟩)
  rw [Kernel.partitionOf?, hfind]
  rfl

theorem texts_systemCall {partition : Nat} (h : m.partitionOf? pid = some partition)
    (accumulator x y : UInt8) :
    (m.systemCall pid accumulator x y).texts =
      (Trap.text? (m.memory.contents partition) (.call accumulator x y)).toList := by
  simp only [systemCall, h, callText?, Trap.text?]
  by_cases h1 : x = 1
  · rw [if_pos h1, if_pos h1]
    rfl
  · rw [if_neg h1, if_neg h1]
    by_cases h2 : x = 2
    · rw [if_pos h2, if_pos h2]
      rfl
    · rw [if_neg h2, if_neg h2]
      rfl

/-- The call of a resident prints what its program would print with the same bytes. -/
theorem Owned.textsOf_saidFor_call (hm : m.Owned s loads) {r : Resident} (hr : r ∈ m.residents)
    (accumulator x y : UInt8) :
    textsOf r.pid (m.saidFor (.sysCall r.pid accumulator x y)) =
      (Trap.text? (m.memory.contents r.partition) (.call accumulator x y)).toList := by
  rw [saidFor, texts_systemCall (hm.partitionOf?_eq hr), textsOf, List.filter_map, List.map_map]
  cases Trap.text? (m.memory.contents r.partition) (.call accumulator x y) with
  | none => rfl
  | some text => simp [Function.comp_def]

/-- The text of a call belongs to the process that is named in the call. -/
theorem textsOf_saidFor_of_ne {i : Interrupt}
    (h : ∀ accumulator x y, i ≠ .sysCall pid accumulator x y) :
    textsOf pid (m.saidFor i) = [] := by
  cases i with
  | sysCall pid' accumulator x y =>
    have hne : pid' ≠ pid := fun he => h accumulator x y (by rw [he])
    rw [saidFor, textsOf, List.filter_map, List.map_map]
    simp [Function.comp_def, hne]
  | _ => rfl

theorem textsOf_saidIn_of_ne {batch : List Interrupt}
    (h : ∀ i ∈ batch, ∀ accumulator x y, i ≠ .sysCall pid accumulator x y) :
    textsOf pid (m.saidIn batch) = [] := by
  induction batch generalizing m with
  | nil => rfl
  | cons i batch ih =>
    rw [saidIn, textsOf_append, textsOf_saidFor_of_ne (h i List.mem_cons_self),
      ih fun j hj => h j (List.mem_cons_of_mem _ hj)]
    rfl

/-- Nothing is printed for who is not there. -/
theorem textsOf_saidFor_of_notMem (h : pid ∉ m.pids) (i : Interrupt) :
    textsOf pid (m.saidFor i) = [] := by
  cases i with
  | sysCall pid' accumulator x y =>
    by_cases he : pid' = pid
    · subst he
      rw [saidFor, systemCall, partitionOf?_of_notMem h]
      rfl
    · refine textsOf_saidFor_of_ne fun accumulator x y hcall => he ?_
      cases hcall
      rfl
  | _ => rfl

theorem Owned.textsOf_saidIn_of_notMem (hm : m.Owned s loads) (h : pid ∉ m.pids)
    (batch : List Interrupt) : textsOf pid (m.saidIn batch) = [] := by
  induction batch generalizing m with
  | nil => rfl
  | cons i batch ih =>
    have hone := movesTo_service m i
    rw [saidIn, textsOf_append, textsOf_saidFor_of_notMem h i,
      ih (hm.moves hone) fun hmem => h (hm.mem_pids_of_moves hone hmem)]
    rfl

theorem Owned.textsOf_saidInTick_of_notMem (hm : m.Owned s loads) (h : pid ∉ m.pids) :
    textsOf pid m.saidInTick = [] :=
  (hm.move (.aside m.beside_awake)).textsOf_saidIn_of_notMem h _

/-! ## One process through a run -/

/-- Interrupts that the console may raise: no steps and no calls. -/
def Calm (i : Interrupt) : Prop :=
  i ≠ .step ∧ ∀ pid accumulator x y, i ≠ .sysCall pid accumulator x y

theorem not_calm_step : ¬ Calm .step := fun h => h.1 rfl

/-- Process `pid`, which began as `s₀`, got `k` cycles, and what the first `j` of them print has
been printed. If there is one cycle more, its trap waits in front. -/
structure Voice (s₀ : Solo) (pid : Pid) (k j : Nat) (m : Machine) : Prop where
  lt : pid.toNat < m.nextPid.toNat
  alive : ∀ i < j, (Solo.step^[i] s₀).ending = false
  near : j = k ∨ k = j + 1
  solo_eq : ∀ r ∈ m.residents, r.pid = pid → r.solo m.memory = Solo.step^[k] s₀
  waiting : pid ∈ m.pids →
    (j = k ∧ ∀ accumulator x y,
      .sysCall pid accumulator x y ∉ m.interrupts.pending.toList) ∨
    (k = j + 1 ∧ ∃ trap, (Solo.step^[j] s₀).trap? = some trap ∧
      m.interrupts.pending.toList.head? = some (trap.interrupt pid))

variable {s₀ : Solo} {k j : Nat}

/-- For who has left nothing waits. -/
theorem Voice.of_gone (hp : Gone pid m) (halive : ∀ i < j, (Solo.step^[i] s₀).ending = false)
    (hnear : j = k ∨ k = j + 1) : Voice s₀ pid k j m where
  lt := hp.lt
  alive := halive
  near := hnear
  solo_eq _ hr hpid := absurd (hpid ▸ mem_pids_of_mem_residents hr) hp.notMem
  waiting hmem := absurd hmem hp.notMem

/-- Between ticks every resident stays as it is. -/
theorem Between.solo_eq (hm : m.Owned s m.nextPid.toNat) (h : Between A m m') {r' : Resident}
    (hr' : r' ∈ m'.residents) (hlt : r'.pid.toNat < m.nextPid.toNat) :
    ∃ r ∈ m.residents, r.pid = r'.pid ∧ r'.solo m'.memory = r.solo m.memory := by
  cases h with
  | quiet h => exact hm.continues h r' hr'
  | load h =>
    rcases h.solo_eq hm.housed hr' with ⟨hr, hsolo⟩ | ⟨hpid, -⟩
    · exact ⟨r', hr, rfl, hsolo⟩
    · rw [hpid] at hlt
      exact absurd hlt (Nat.lt_irrefl _)

theorem Voice.between (hm : m.Owned s m.nextPid.toNat) (hv : Voice s₀ pid k j m)
    (h : Between Calm m m') : Voice s₀ pid k j m' := by
  obtain ⟨raised, hpending, hraised⟩ := h.pending_eq
  refine ⟨Nat.lt_of_lt_of_le hv.lt h.nextPid_le, hv.alive, hv.near, fun r' hr' hpid => ?_,
    fun hmem => ?_⟩
  · obtain ⟨r, hr, hpid', hsolo⟩ := h.solo_eq hm hr' (hpid ▸ hv.lt)
    rw [hsolo]
    exact hv.solo_eq r hr (hpid'.trans hpid)
  · obtain ⟨r', hr', rfl⟩ := exists_resident_of_mem_pids hmem
    obtain ⟨r, hr, hpid', -⟩ := h.solo_eq hm hr' hv.lt
    rw [hpending]
    have hmem : r'.pid ∈ m.pids := hpid' ▸ mem_pids_of_mem_residents hr
    rcases hv.waiting hmem with ⟨hjk, hnone⟩ | ⟨hkj, trap, htrap, hhead⟩
    · refine .inl ⟨hjk, fun accumulator x y hcall => ?_⟩
      rcases List.mem_append.1 hcall with hcall | hcall
      · exact hnone accumulator x y hcall
      · exact (hraised _ hcall).2 _ accumulator x y rfl
    · refine .inr ⟨hkj, trap, htrap, ?_⟩
      rw [List.head?_append, hhead]
      rfl

theorem Voice.atTick {m₁ : Machine} (hv : Voice s₀ pid k j m)
    (h : m₁ = m ∨ m₁ = m.interrupt .step) : Voice s₀ pid k j m₁ := by
  rcases h with rfl | rfl
  · exact hv
  · have hpushed : (m.interrupt .step).interrupts.pending.toList =
        m.interrupts.pending.toList ++ [.step] := Array.toList_push
    refine ⟨hv.lt, hv.alive, hv.near, hv.solo_eq, fun hmem => ?_⟩
    rw [hpushed]
    rcases hv.waiting hmem with ⟨hjk, hnone⟩ | ⟨hkj, trap, htrap, hhead⟩
    · refine .inl ⟨hjk, fun accumulator x y hcall => ?_⟩
      rcases List.mem_append.1 hcall with hcall | hcall
      · exact hnone accumulator x y hcall
      · cases List.mem_singleton.1 hcall
    · refine .inr ⟨hkj, trap, htrap, ?_⟩
      rw [List.head?_append, hhead]
      rfl

/-! ## One tick -/

/-- The batch of a tick has a call in front at most. -/
theorem AtTick.saidInTick_eq (hm : m.AtTick Calm s) :
    textsOf pid m.saidInTick =
      textsOf pid (m.interrupts.pending.toList.head?.toList.flatMap m.awake.saidFor) := by
  obtain ⟨own, rest, hpending, hrest, -⟩ := hm.orderly.pending_eq
  have hcalm : ∀ i ∈ rest, ∀ accumulator x y, i ≠ .sysCall pid accumulator x y := by
    rintro i hi accumulator x y rfl
    rcases hrest _ hi with hcalm | hstep
    · exact hcalm.2 _ _ _ _ rfl
    · cases hstep
  rw [saidInTick, hpending]
  cases own with
  | some i =>
    show textsOf pid (m.awake.saidFor i ++ (m.awake.service i).value.saidIn rest) =
      textsOf pid (m.awake.saidFor i ++ [])
    rw [textsOf_append, textsOf_append, textsOf_saidIn_of_ne hcalm]
    rfl
  | none =>
    rw [Option.toList_none, List.nil_append, textsOf_saidIn_of_ne hcalm]
    cases rest with
    | nil => rfl
    | cons i rest =>
      show [] = textsOf pid (m.awake.saidFor i ++ [])
      rw [List.append_nil, textsOf_saidFor_of_ne (hcalm i List.mem_cons_self)]

theorem AtTick.saidInTick_of_head (hm : m.AtTick Calm s) {i : Interrupt}
    (h : m.interrupts.pending.toList.head? = some i) :
    textsOf pid m.saidInTick = textsOf pid (m.awake.saidFor i) := by
  rw [hm.saidInTick_eq, h, Option.toList_some, List.flatMap_singleton]

/-- If no call of the process waits, nothing is printed for it. -/
theorem AtTick.saidInTick_of_notMem (hm : m.AtTick Calm s)
    (h : ∀ accumulator x y, .sysCall pid accumulator x y ∉ m.interrupts.pending.toList) :
    textsOf pid m.saidInTick = [] := by
  cases hpending : m.interrupts.pending.toList with
  | nil =>
    rw [saidInTick, hpending]
    rfl
  | cons i rest =>
    rw [hm.saidInTick_of_head (by rw [hpending]; rfl)]
    refine textsOf_saidFor_of_ne fun accumulator x y hcall => h accumulator x y ?_
    rw [hpending, hcall]
    exact List.mem_cons_self

/-- A call that waits in front prints what the program prints in the cycle that made the call. -/
theorem Voice.said_call (hm : m.AtTick Calm s) (hv : Voice s₀ pid (j + 1) j m)
    (hmem : pid ∈ m.pids) {accumulator x y : UInt8}
    (htrap : (Solo.step^[j] s₀).trap? = some (.call accumulator x y))
    (hhead : m.interrupts.pending.toList.head? = some (.sysCall pid accumulator x y)) :
    textsOf pid m.saidInTick = (Solo.step^[j] s₀).text?.toList := by
  obtain ⟨r, hr, rfl⟩ := exists_resident_of_mem_pids hmem
  -- the bytes are still those of the instruction, for a call changes none of them
  have hbytes : m.memory.contents r.partition = (Solo.step^[j] s₀).bytes := by
    rw [← Solo.bytes_step_of_call htrap, ← Function.iterate_succ_apply' Solo.step]
    exact congrArg Solo.bytes (hv.solo_eq r hr rfl)
  have hawake : m.awake.Owned s m.nextPid.toNat := hm.orderly.owned.move (.aside m.beside_awake)
  have hsame : m.awake.residents = m.residents := residents_beside m.beside_awake
  have hmemory : m.awake.memory = m.memory := rfl
  have htext := hawake.textsOf_saidFor_call (hsame ▸ hr) accumulator x y
  rw [hmemory, hbytes] at htext
  rw [hm.saidInTick_of_head hhead, htext, Solo.text?, htrap]
  rfl

/-- What waits is printed first, unless it is the end. -/
theorem Voice.heard (hm : m.AtTick Calm s) (hv : Voice s₀ pid k j m) (hmem : pid ∈ m.pids) :
    (∃ i, Doomed pid i m ∧ textsOf pid m.saidInTick = []) ∨
      ((∀ i < k, (Solo.step^[i] s₀).ending = false) ∧
        s₀.output k = s₀.output j ++ textsOf pid m.saidInTick) := by
  rcases hv.waiting hmem with ⟨rfl, hnone⟩ | ⟨rfl, trap, htrap, hhead⟩
  · refine .inr ⟨hv.alive, ?_⟩
    rw [hm.saidInTick_of_notMem hnone, List.append_nil]
  · cases hends : trap.ends with
    | true =>
      refine .inl ⟨trap.interrupt pid, ⟨hhead, Trap.victim?_interrupt hends pid, hv.lt⟩, ?_⟩
      rw [hm.saidInTick_of_head hhead]
      cases trap with
      | call accumulator x y => cases hends
      | _ => rfl
    | false =>
      cases trap with
      | call accumulator x y =>
        have hnot : (Solo.step^[j] s₀).ending = false := by
          rw [Solo.ending, htrap]
          rfl
        refine .inr ⟨fun i hi => ?_, ?_⟩
        · rcases Nat.lt_succ_iff_lt_or_eq.1 hi with hi | rfl
          · exact hv.alive i hi
          · exact hnot
        · rw [hv.said_call hm hmem htrap hhead, Solo.output_succ hv.alive]
      | _ => cases hends

/-- A tick that runs no cycle of the process leaves no call of it waiting. -/
theorem AtTick.notMem_call (hm : m.AtTick Calm s) (h : cyclesOf pid m.tick.turns = 0)
    (accumulator x y : UInt8) :
    .sysCall pid accumulator x y ∉ m.tick.value.interrupts.pending.toList := by
  intro hcall
  rcases hm.turns_tick with ⟨-, hpending⟩ | ⟨r, -, hturns, hpending⟩
  · rw [hpending] at hcall
    cases hcall
  · have hne : r.pid ≠ pid := fun he => by
      rw [hturns, cyclesOf_singleton, if_pos he] at h
      cases h
    rw [hpending, Option.mem_toList] at hcall
    obtain ⟨trap, -, htrap⟩ := Option.map_eq_some_iff.1 hcall
    cases trap with
    | call _ _ _ =>
      cases htrap
      exact hne rfl
    | _ => cases htrap

/-- The cycle of a tick is the next one of its process. -/
theorem AtTick.voice_tick (hm : m.AtTick Calm s) (hlt : pid.toNat < m.nextPid.toNat)
    (halive : ∀ i < k, (Solo.step^[i] s₀).ending = false)
    (hsolo : ∀ r ∈ m.residents, r.pid = pid → r.solo m.memory = Solo.step^[k] s₀) :
    ∃ j, Voice s₀ pid (k + cyclesOf pid m.tick.turns) j m.tick.value ∧
      s₀.output j = s₀.output k := by
  have howned := hm.orderly.owned
  have hmoves := movesTo_tick m
  have hlt' : pid.toNat < m.tick.value.nextPid.toNat := by
    rw [nextPid_of_moves hmoves]
    exact hlt
  have hsolo' : ∀ r ∈ m.tick.value.residents, r.pid = pid →
      r.solo m.tick.value.memory = Solo.step^[k + cyclesOf pid m.tick.turns] s₀ := by
    intro r' hr' hpid'
    obtain ⟨r, hr, hpid, hstep⟩ := howned.continues hmoves r' hr'
    rw [hstep, hsolo r hr (hpid.trans hpid'), hpid', Nat.add_comm, Function.iterate_add_apply]
  cases hcount : cyclesOf pid m.tick.turns with
  | zero =>
    rw [hcount] at hsolo'
    exact ⟨k, ⟨hlt', halive, .inl rfl, hsolo', fun _ => .inl ⟨rfl, hm.notMem_call hcount⟩⟩, rfl⟩
  | succ n =>
    have hsome : 0 < cyclesOf pid m.tick.turns := hcount ▸ Nat.succ_pos n
    obtain ⟨r, hr, rfl⟩ :=
      exists_resident_of_mem_pids (howned.mem_pids_of_cyclesOf hmoves hsome)
    obtain ⟨hturns, hpending⟩ := hm.turns_eq_of_cycle hr hsome
    rw [hsolo r hr rfl] at hpending
    have hone : cyclesOf r.pid m.tick.turns = 1 := by
      rw [hturns, cyclesOf_singleton, if_pos rfl]
    rw [← hcount, hone]
    rw [hone] at hsolo'
    cases htrap : (Solo.step^[k] s₀).trap? with
    | none =>
      -- nothing waits, and the cycle prints nothing
      have hnot : (Solo.step^[k] s₀).ending = false := by
        rw [Solo.ending, htrap]
        rfl
      rw [htrap] at hpending
      refine ⟨k + 1, ⟨hlt', fun i hi => ?_, .inl rfl, hsolo', fun _ => ?_⟩, ?_⟩
      · rcases Nat.lt_succ_iff_lt_or_eq.1 hi with hi | rfl
        · exact halive i hi
        · exact hnot
      · refine .inl ⟨rfl, fun _ _ _ hcall => ?_⟩
        rw [hpending] at hcall
        cases hcall
      · rw [Solo.output_succ halive, Solo.text?, htrap]
        exact List.append_nil _
    | some trap =>
      rw [htrap] at hpending
      refine ⟨k, ⟨hlt', halive, .inr rfl, hsolo', fun _ => .inr ⟨rfl, trap, htrap, ?_⟩⟩, rfl⟩
      rw [hpending]
      rfl

theorem Voice.tick (hm : m.AtTick Calm s) (hv : Voice s₀ pid k j m) :
    ∃ j', Voice s₀ pid (k + cyclesOf pid m.tick.turns) j' m.tick.value ∧
      s₀.output j' = s₀.output j ++ textsOf pid m.saidInTick := by
  have howned := hm.orderly.owned
  by_cases hmem : pid ∈ m.pids
  · rcases hv.heard hm hmem with ⟨i, hdoomed, hsilent⟩ | ⟨halive, hsaid⟩
    · obtain ⟨hgone, hnone⟩ := hdoomed.gone_tick hm
      rw [hsilent, hnone]
      exact ⟨j, .of_gone hgone hv.alive hv.near, (List.append_nil _).symm⟩
    · obtain ⟨j', hv', houtput⟩ := hm.voice_tick hv.lt halive hv.solo_eq
      exact ⟨j', hv', houtput.trans hsaid⟩
  · have hgone : Gone pid m := ⟨hmem, hv.lt⟩
    rw [howned.textsOf_saidInTick_of_notMem hmem, hgone.cyclesOf_moves howned (movesTo_tick m)]
    exact ⟨j, .of_gone (hgone.moves howned (movesTo_tick m)) hv.alive hv.near,
      (List.append_nil _).symm⟩

/-! ## A run -/

/-- What a run prints for a process is what the program prints in the cycles that the run gave to
it, but for the last one. -/
theorem Voice.ticking {ticks : List Machine} (hm : m.Orderly Calm s) (hv : Voice s₀ pid k j m)
    (h : Ticking Calm m ticks m') :
    ∃ j', Voice s₀ pid (k + cyclesOf pid (ticks.flatMap (·.tick.turns))) j' m' ∧
      s₀.output j' = s₀.output j ++ textsOf pid (ticks.flatMap saidInTick) := by
  induction h generalizing k j with
  | refl => exact ⟨j, hv, (List.append_nil _).symm⟩
  | between hbetween _ ih => exact ih (hm.between hbetween) (hv.between hm.owned hbetween)
  | tick htick _ ih =>
    have hat := hm.atTick not_calm_step htick
    obtain ⟨j₁, hv₁, hfirst⟩ := (hv.atTick htick).tick hat
    obtain ⟨j', hv', hrest⟩ := ih hat.orderly_tick hv₁
    rw [List.flatMap_cons, List.flatMap_cons, cyclesOf_append, textsOf_append, ← Nat.add_assoc,
      ← List.append_assoc, ← hfirst]
    exact ⟨j', hv', hrest⟩

/-- A process that was just loaded has not run and has not printed. -/
theorem Orderly.voice_load {program : List UInt8} {partition : Nat} (hm : m.Orderly Calm s)
    (h : Loaded m m' program partition) (hid : m.nextPid.toNat + 1 < UInt32.size) :
    Voice (Solo.load s.partitionSize program) m.nextPid 0 0 m' where
  lt := by
    have hloaded := hm.owned.load hid h
    rw [hloaded.toNat_nextPid]
    exact Nat.lt_succ_self _
  alive i hi := absurd hi (Nat.not_lt_zero i)
  near := .inl rfl
  solo_eq r hr hpid := by
    rcases h.solo_eq hm.owned.housed hr with ⟨hold, -⟩ | ⟨-, hsolo⟩
    · exact absurd (hpid ▸ List.mem_map_of_mem hold) hm.owned.nextPid_notMem
    · rw [hsolo, hm.owned.partitionSize_eq]
      rfl
  waiting _ := by
    refine .inl ⟨rfl, fun accumulator x y hcall => ?_⟩
    obtain ⟨own, rest, hpending, hrest, hown⟩ := hm.pending_eq
    rw [h.machine_eq, hpending, List.mem_append, Option.mem_toList] at hcall
    rcases hcall with hcall | hcall
    · -- a call that waits was raised by a process with a smaller id
      obtain ⟨pid, trap, hi, hlt⟩ := hown _ hcall
      cases trap with
      | call _ _ _ =>
        cases hi
        exact Nat.lt_irrefl _ hlt
      | _ => cases hi
    · exact (hrest _ hcall).2 _ accumulator x y rfl

theorem Ticking.nextPid_le {A : Interrupt → Prop} {ticks : List Machine}
    (h : Ticking A m ticks m') : m.nextPid.toNat ≤ m'.nextPid.toNat := by
  induction h with
  | refl => exact Nat.le_refl _
  | between hbetween _ ih => exact Nat.le_trans hbetween.nextPid_le ih
  | tick htick _ ih =>
    rw [nextPid_of_moves (movesTo_tick _)] at ih
    rcases htick with rfl | rfl
    · exact ih
    · exact ih

/-- Nothing is printed for a process that is still to come. -/
theorem Orderly.textsOf_ticking {ticks : List Machine} (hm : m.Orderly Calm s)
    (h : Ticking Calm m ticks m') (hpid : m'.nextPid.toNat ≤ pid.toNat) :
    textsOf pid (ticks.flatMap saidInTick) = [] := by
  induction h with
  | refl => rfl
  | between hbetween _ ih => exact ih (hm.between hbetween) hpid
  | tick htick hs ih =>
    rename_i m m₁ m₂ ticks
    have hat := hm.atTick not_calm_step htick
    have hnone : pid ∉ m₁.pids := fun hmem => by
      have hlt := hat.orderly.owned.pid_lt_of_mem_pids hmem
      have hle := hs.nextPid_le
      rw [nextPid_of_moves (movesTo_tick m₁)] at hle
      omega
    rw [List.flatMap_cons, textsOf_append, hat.orderly.owned.textsOf_saidInTick_of_notMem hnone,
      ih hat.orderly_tick hpid]
    rfl

/-- A process that was just loaded is followed to the end of the run. -/
theorem Orderly.voice_afterAll {program : List UInt8} {t : Traced (Pid × Machine)}
    {ops : List Operation} (hm : m.Orderly Calm s) (hload : m.load program = .ok t)
    (hraises : ∀ r, .ask r ∈ ops → ∀ i ∈ r.raises, Calm i)
    (hloads : m.nextPid.toNat + 1 + t.value.2.loadsIn ops < UInt32.size) :
    ∃ j, Voice (Solo.load s.partitionSize program) t.value.1
        (cyclesOf t.value.1 (t.value.2.afterAll ops).turns) j (t.value.2.afterAll ops).value ∧
      textsOf t.value.1 (t.value.2.said ops) =
        (Solo.load s.partitionSize program).output j := by
  obtain ⟨-, hpid, partition, hloaded⟩ := load_eq_ok hload
  have hid : m.nextPid.toNat + 1 < UInt32.size := by omega
  have hticking := (hm.owned.load hid hloaded).ticking_afterAll ops hraises hloads
  obtain ⟨j, hvoice, houtput⟩ :=
    (hm.voice_load hloaded hid).ticking (hm.between (.load hloaded hid)) hticking
  rw [← turns_afterAll, Nat.zero_add] at hvoice
  rw [hpid]
  exact ⟨j, hvoice, houtput.symm⟩

/-- What a run prints for a process that it loads is printed after the load. -/
theorem Orderly.textsOf_said {program : List UInt8} {t : Traced (Pid × Machine)}
    {before after : List Operation} (hm : m.Orderly Calm s)
    (hticking : Ticking Calm m (m.ticksIn before) (m.afterAll before).value)
    (hload : (m.afterAll before).value.load program = .ok t) :
    textsOf t.value.1 (m.said (before ++ .ask (.load program) :: after)) =
      textsOf t.value.1 (t.value.2.said after) := by
  obtain ⟨-, hvalue, -⟩ := after_load hload
  obtain ⟨-, hpid, -⟩ := load_eq_ok hload
  have hsplit : m.said (before ++ .ask (.load program) :: after) =
      (m.ticksIn before).flatMap saidInTick ++ t.value.2.said after := by
    rw [said, ticksIn_append, ticksIn, hvalue, List.flatMap_append]
    rfl
  have hcoming : (m.afterAll before).value.nextPid.toNat ≤ t.value.1.toNat := by rw [hpid]
  rw [hsplit, textsOf_append, hm.textsOf_ticking hticking hcoming]
  rfl

/-- Without steps and calls from outside, the console is calm. -/
theorem calm_of_raises {ops : List Operation} (hsteps : .ask (.interrupt .step) ∉ ops)
    (hcalls : ∀ pid accumulator x y, .ask (.interrupt (.sysCall pid accumulator x y)) ∉ ops) :
    ∀ r, .ask r ∈ ops → ∀ i ∈ r.raises, Calm i := by
  intro r hr i hi
  cases r with
  | interrupt i =>
    obtain rfl := List.mem_singleton.1 hi
    refine ⟨?_, fun pid accumulator x y => ?_⟩
    · rintro rfl
      exact hsteps hr
    · rintro rfl
      exact hcalls pid accumulator x y hr
  | requestKill pid =>
    obtain rfl := List.mem_singleton.1 hi
    exact ⟨Interrupt.noConfusion, fun _ _ _ _ => Interrupt.noConfusion⟩
  | _ => cases hi

/-- If the last cycle ended the program, all that it prints has been printed. -/
theorem Voice.output_of_endsAt (hv : Voice s₀ pid k j m) (hend : s₀.EndsAt k) {n : Nat}
    (hn : k ≤ n) : s₀.output j = s₀.output n := by
  cases k with
  | zero => cases hend
  | succ k =>
    obtain ⟨-, hlast⟩ := hend
    rcases hv.near with rfl | hkj
    · have hnot := hv.alive k (Nat.lt_succ_self k)
      rw [hlast] at hnot
      cases hnot
    · obtain rfl := Nat.succ.inj hkj
      exact (Solo.output_of_ending hv.alive hlast (by omega)).symm

end

/-- **Output is isolated.** All that a run prints is printed by system calls. What is printed for a
process is what its program prints alone in as many cycles as the process got, perhaps but for the
last one, and so the beginning of what the program prints alone. If the process came to the end of
its program, it is everything. -/
theorem output_isolated {s : Settings} {booted : Traced Machine} (hboot : boot s = .ok booted)
    (ops : List Operation) (hsteps : .ask (.interrupt .step) ∉ ops)
    (hcalls : ∀ pid accumulator x y, .ask (.interrupt (.sysCall pid accumulator x y)) ∉ ops)
    (hloads : booted.value.loadsIn ops < UInt32.size) :
    (booted.value.afterAll ops).texts = (booted.value.said ops).map Prod.snd ∧
    ∀ pid program turns, booted.value.Admitted ops pid program turns →
      let printed := textsOf pid (booted.value.said ops)
      let alone := Solo.load s.partitionSize program
      let k := cyclesOf pid turns
      (∃ n, n ≤ k ∧ k ≤ n + 1 ∧ printed = alone.output n) ∧
        (∀ n ≥ k, printed <+: alone.output n) ∧
        (alone.EndsAt k → ∀ n ≥ k, printed = alone.output n) := by
  have hbooted := boot_eq_ok hboot
  refine ⟨texts_afterAll _ ops, fun pid program turns hadmitted => ?_⟩
  intro printed alone k
  obtain ⟨before, after, t, rfl, hload, rfl, rfl⟩ := hadmitted
  have hraises := calm_of_raises hsteps hcalls
  obtain ⟨hgrant, hvalue, -⟩ := after_load hload
  rw [loadsIn_append, loadsIn, hgrant, hvalue, Bool.toNat_true] at hloads
  have hticking : Ticking Calm booted.value (booted.value.ticksIn before)
      (booted.value.afterAll before).value :=
    hbooted.owned.ticking_afterAll before
      (fun r hr => hraises r (List.mem_append_left _ hr)) (by omega)
  have horderly := hbooted.orderly.ticking not_calm_step hticking
  have hcount := (hbooted.owned.afterAll before (by omega)).toNat_nextPid
  obtain ⟨j, hvoice, houtput⟩ := horderly.voice_afterAll hload
    (fun r hr => hraises r (List.mem_append_right _ (List.mem_cons_of_mem _ hr))) (by omega)
  have hprinted : printed = alone.output j :=
    (hbooted.orderly.textsOf_said hticking hload).trans houtput
  have hnear : j ≤ k ∧ k ≤ j + 1 := by
    rcases hvoice.near with h | h <;> omega
  rw [hprinted]
  refine ⟨⟨j, hnear.1, hnear.2, rfl⟩, fun n hn => ?_, fun hend n hn => ?_⟩
  · exact Solo.output_prefix (Nat.le_trans hnear.1 hn)
  · exact hvoice.output_of_endsAt hend hn

/-- Two programs that take turns: one prints a number again and again, the other its own bytes
before it breaks. -/
def printing : List Operation :=
  [.ask (.load [0xA2, 0x01, 0xFF, 0xEA]), .ask (.load [0xA2, 0x02, 0xFF, 0x00]),
    .ask (.setQuantum 1), .ask .runAll, .settle 9]

/-- The second program printed what it prints alone, in the middle of what the first one prints. -/
theorem output_isolated_small :
    .ask (.interrupt .step) ∉ printing ∧
      (∀ pid accumulator x y, .ask (.interrupt (.sysCall pid accumulator x y)) ∉ printing) ∧
      small.value.loadsIn printing < UInt32.size ∧
      (small.value.afterAll printing).texts = ["0", "\xa2\x02\xff", "0"] ∧
      (Solo.load 4 [0xA2, 0x02, 0xFF, 0x00]).EndsAt 3 ∧
      textsOf 1 (small.value.said printing) = ["\xa2\x02\xff"] := by
  have hsteps : .ask (.interrupt .step) ∉ printing := by simp [printing]
  have hcalls : ∀ pid accumulator x y,
      .ask (.interrupt (.sysCall pid accumulator x y)) ∉ printing := by simp [printing]
  have hloads : small.value.loadsIn printing < UInt32.size := by decide +kernel
  have htexts : (small.value.afterAll printing).texts = ["0", "\xa2\x02\xff", "0"] := by
    decide +kernel
  have hends : (Solo.load 4 [0xA2, 0x02, 0xFF, 0x00]).EndsAt 3 := by decide +kernel
  let before : List Operation := printing.take 1
  have hgrant : (small.value.afterAll before).value.grantsLoad
      (.ask (.load [0xA2, 0x02, 0xFF, 0x00])) = true := by decide +kernel
  obtain ⟨program, t, hop, hload⟩ := exists_load_of_grantsLoad hgrant
  obtain rfl : [0xA2, 0x02, 0xFF, 0x00] = program := by simpa using hop
  have hpid : t.value.1 = 1 := by
    rw [(load_eq_ok hload).2.1]
    decide +kernel
  have hthree : cyclesOf 1 (t.value.2.afterAll (printing.drop 2)).turns = 3 := by
    rw [← (after_load hload).2.1]
    decide +kernel
  obtain ⟨-, hisolated⟩ := output_isolated boot_small printing hsteps hcalls hloads
  obtain ⟨-, -, hwhole⟩ := hisolated 1 _ _ ⟨before, printing.drop 2, t, rfl, hload, hpid, rfl⟩
  have halone : (Solo.load 4 [0xA2, 0x02, 0xFF, 0x00]).output 3 = ["\xa2\x02\xff"] := rfl
  rw [hthree] at hwhole
  exact ⟨hsteps, hcalls, hloads, htexts, hends, (hwhole hends 3 (Nat.le_refl 3)).trans halone⟩

end Machine

end Timeshare
