import Timeshare.Proofs.Guards
import Timeshare.Proofs.Handover
import Timeshare.Proofs.Refusals

/-!
# No mishaps

The guarded machine: admission, starts and cycles with the guards of `Mishap`, and around them
services, ticks and whole runs. `Machine.Sound` is the invariant under which the guards find
nothing. The live counter and every saved one are inside the partition, and no process that has
ended is on the processor. It is kept by moves and loads, so that a guarded run is the run.

Of what is counted, only the clock has no guard: nothing depends on it.
-/
namespace Timeshare

open Traced

/-! ## Addresses beyond the partition -/

theorem Trap.eq_badAddress_of_interrupt {pid pid' : Pid} {trap : Trap} {address : Nat}
    (h : trap.interrupt pid = .memoryFault pid' address) : trap = .badAddress address := by
  cases trap with
  | badAddress other =>
    obtain ⟨-, rfl⟩ := Interrupt.memoryFault.inj h
    rfl
  | _ => cases h

namespace Solo

/-- An address operand has two bytes. -/
theorem address_lt (s : Solo) : s.address < 2 ^ 16 := by
  have hlow := (s.ahead 1).toNat_lt
  have hhigh := (s.ahead 2).toNat_lt
  unfold address
  omega

theorem badAddress_of_onCell {s : Solo} {next : UInt8 → Solo} {address : Nat}
    (h : (s.onCell next).2 = some (.badAddress address)) :
    address = s.address ∧ s.bytes.length ≤ address := by
  unfold onCell at h
  split at h
  · cases h
  · rename_i hnone
    obtain rfl : s.address = address := Trap.badAddress.inj (Option.some.inj h)
    exact ⟨rfl, List.getElem?_eq_none_iff.1 hnone⟩

/-- An address that is refused is the operand, and lies behind the end of the partition. -/
theorem badAddress_of_trap? {s : Solo} {address : Nat} (h : s.trap? = some (.badAddress address)) :
    address = s.address ∧ s.bytes.length ≤ address := by
  unfold trap? cycle at h
  split at h
  · cases h
  · rename_i opcode _
    cases opcode with
    | load target => exact badAddress_of_onCell h
    | store => exact badAddress_of_onCell h
    | add => exact badAddress_of_onCell h
    | compare => exact badAddress_of_onCell h
    | increment => exact badAddress_of_onCell h
    | _ => cases h

end Solo

/-- A memory fault that the cycle raised is at an address of 16 bits behind the end of a partition
of `size` bytes. -/
def Turn.FaultsBeyond (size : Nat) (t : Turn) : Prop :=
  ∀ pid address, t.raised = some (.memoryFault pid address) → size ≤ address ∧ address < 2 ^ 16

/-! ## The guarded machine -/

/-- Runs one cycle of the current process, who must be there. -/
def Kernel.guardedCycle (k : Kernel) : Guarded Kernel :=
  match k.current with
  | none => throw .idleSwitch
  | some p => do
    let c ← k.processor.guardedCycle p k.memory
    ran ⟨p.pid, c.raised⟩
    pure { k with
      processor := c.processor
      memory := c.memory
      current := some c.process
      interrupts := c.raised.toList.foldl .enqueue k.interrupts }

namespace Machine

/-- The cycle of whoever is on the processor, without a look at the quantum. -/
def guardedTurnNow (m : Machine) : Guarded Machine := do
  let kernel ← m.toKernel.guardedCycle
  let m := { m with toKernel := kernel, scheduler := m.scheduler.recordCycle }
  m.showRegisters
  pure m

/-- Runs one cycle of the current process, after a switch if one is due. -/
def guardedCycle (m : Machine) : Guarded Machine :=
  match m.current with
  | none => pure m
  | some _ => do
    let m ← (if m.wantsSwitch then m.switchAndShow else pure m : Traced Machine)
    m.guardedTurnNow

/-- Services one interrupt. Only a step runs a cycle. -/
def guardedService (m : Machine) (i : Interrupt) : Guarded Machine :=
  match i with
  | .step => do
    report (.servicing i.name)
    if m.singleStep then m.guardedCycle
    else do
      report .stepIgnored
      pure m
  | _ => m.service i

def guardedServiceAll (m : Machine) : List Interrupt → Guarded Machine
  | [] => pure m
  | i :: batch => m.guardedService i >>= (guardedServiceAll · batch)

def guardedTick (m : Machine) : Guarded Machine := do
  report (.ticking (m.clock + 1) m.interrupts.length)
  let m ← m.awake.guardedServiceAll m.interrupts.pending.toList
  if m.processor.executing then m.guardedCycle else pure m

def guardedSettle : Nat → Machine → Guarded (Nat × Machine)
  | 0, m => pure (0, m)
  | n + 1, m =>
    if m.isIdle then pure (0, m)
    else do
      let m ← m.guardedTick
      let (taken, m) ← guardedSettle n m
      pure (taken + 1, m)

/-- Gives a program a free partition and a fresh process id. The partition is cleared before the
program is copied, and a program that cannot be copied is a mishap. -/
def guardedAccept (m : Machine) (program : List UInt8) :
    Except Mishap (Except Error (Process × Machine)) := do
  if m.memory.partitionSize < program.length then
    return .error (.programTooLarge program.length m.memory.partitionSize)
  match m.memory.allocate with
  | .error reason => return .error reason
  | .ok (partition, memory) =>
    let base ← Word.product partition m.memory.partitionSize
    let _ ← Word.sum base m.memory.partitionSize
    match memory.writeBlock base program with
    | .error reason => throw (.rollback reason)
    | .ok memory =>
      if m.nextPid.toNat + 1 < UInt32.size then
        let p : Process := { pid := m.nextPid, partition, status := .ready }
        return .ok (p, { m with memory, nextPid := m.nextPid + 1 })
      else throw .idsSpent

/-- Admits a program to the end of the ready queue. -/
def guardedLoad (m : Machine) (program : List UInt8) :
    Except Mishap (Except Error (Traced (Pid × Machine))) := do
  match ← m.guardedAccept program with
  | .error reason => return .error reason
  | .ok (p, m) => return .ok do
    report (.loaded p.pid program.length p.partition)
    let m := { m with ready := m.ready.enqueue p }
    m.showProcesses
    pure (p.pid, m)

/-- Starts a waiting process out of turn if the processor is free. Who is in the queue must be found
there once more. -/
def guardedRun (m : Machine) (pid : Pid) : Except Mishap (Except Error (Traced Machine)) :=
  if m.currentPid? = some pid then return .ok (pure m)
  else if !m.ready.contains pid then return .error (.noSuchProcess pid)
  else if m.current.isSome then return .ok (pure m)
  else match m.ready.remove? pid with
    | none => throw (.lostProcess pid)
    | some (p, ready) => return .ok do
      let m ← { m with ready }.start p
      m.showAll
      pure m

/-- Carries out an operation. A refused one changes nothing. -/
def guardedAfter (m : Machine) : Operation → Guarded Machine
  | .ask (.load program) => do
    match ← m.guardedLoad program with
    | .ok loaded => liftM (Prod.snd <$> loaded)
    | .error _ => pure m
  | .ask (.run pid) => do
    match ← m.guardedRun pid with
    | .ok started => liftM started
    | .error _ => pure m
  | .ask .step => (m.interrupt .step).guardedTick
  | .ask .tick => m.guardedTick
  | .settle limit => Prod.snd <$> m.guardedSettle limit
  | op => m.after op

/-- Carries out operations in order. -/
def guardedAll (m : Machine) : List Operation → Guarded Machine
  | [] => pure m
  | op :: ops => m.guardedAfter op >>= (guardedAll · ops)

/-! ## Counters -/

/-- The live counter and every saved one are inside a partition of `size` bytes. -/
structure Within (size : Nat) (m : Machine) : Prop where
  live_lt : m.processor.registers.counter < size
  current_lt : ∀ p ∈ m.current, p.registers.counter < size
  ready_lt : ∀ p ∈ m.ready.toList, p.registers.counter < size

section

variable {m m' : Machine} {ts : List Turn} {p : Process} {size : Nat}

/-- A cycle leaves its counter in the partition. -/
theorem Housed.counter_cycle_lt (hm : m.Housed) (hc : m.current = some p) :
    (m.processor.cycle p m.memory).value.processor.registers.counter < m.memory.partitionSize := by
  have hlength := m.memory.length_contents (hm.partition_lt (mem_residents_of_current hc))
  let alone : Solo := ⟨m.processor.registers, m.memory.contents p.partition⟩
  have hinside : alone.Inside alone.step := Solo.inside_step (by
    rw [hlength]
    exact m.memory.partitionSize_pos)
  rw [(hm.cycle_agrees hc).processor_eq, ← hlength]
  exact hinside.2

theorem Within.handTo {next : Process} {ready : List Process} (hnext : next.registers.counter < size)
    (hready : ∀ p ∈ ready, p.registers.counter < size) : (m.handTo next ready).Within size := by
  refine ⟨hnext, fun p hp => ?_, hready⟩
  obtain rfl := Option.some.inj hp
  exact hnext

/-- Registers are saved and restored, and only a cycle moves a counter. -/
theorem Within.move (h : m.Within size) (hm : m.Housed) (hsize : m.memory.partitionSize = size)
    (hmove : Move m ts m') : m'.Within size := by
  cases hmove with
  | aside hbeside =>
    refine ⟨?_, fun p hp => ?_, fun p hp => ?_⟩
    · rw [hbeside.registers_eq]
      exact h.live_lt
    · rw [hbeside.current_eq] at hp
      exact h.current_lt p hp
    · rw [hbeside.ready_eq] at hp
      exact h.ready_lt p hp
  | start hc hr =>
    refine .handTo (h.ready_lt _ ?_) fun p hp => h.ready_lt p ?_
    · rw [hr]
      exact List.mem_append_right _ List.mem_cons_self
    · rw [hr]
      exact ((List.sublist_cons_self _ _).append_left _).subset hp
  | rotate hc ht hr =>
    refine .handTo (h.ready_lt _ (hr ▸ List.mem_cons_self)) fun p hp => ?_
    rcases List.mem_append.1 hp with hp | hp
    · exact h.ready_lt p (hr ▸ List.mem_cons_of_mem _ hp)
    · obtain rfl := List.mem_singleton.1 hp
      exact h.live_lt
  | retire hc hr =>
    exact .handTo (h.ready_lt _ (hr ▸ List.mem_cons_self)) fun p hp =>
      h.ready_lt p (hr ▸ List.mem_cons_of_mem _ hp)
  | halt hc hr => exact ⟨h.live_lt, fun p hp => (nomatch hp), h.ready_lt⟩
  | drop hr =>
    refine ⟨h.live_lt, h.current_lt, fun p hp => h.ready_lt p ?_⟩
    rw [hr]
    exact ((List.sublist_cons_self _ _).append_left _).subset hp
  | turn hc =>
    have hlive := hm.counter_cycle_lt hc
    rw [hsize] at hlive
    refine ⟨hlive, fun q hq => ?_, h.ready_lt⟩
    obtain rfl := Option.some.inj hq
    rcases process_cycle m.processor _ m.memory with hsame | hsaved
    · rw [hsame]
      exact h.current_lt _ hc
    · rw [hsaved]
      exact h.live_lt

end

/-! ## The invariant -/

/-- A machine whose counters are inside the partitions of `size` bytes, and the partitions inside
the words. -/
structure Sound (size : Nat) (m : Machine) : Prop where
  housed : m.Housed
  alive : m.currentTerminated = false
  partitionSize_eq : m.memory.partitionSize = size
  within_size : m.Within size
  size_le : size ≤ maxPartitionSize
  size_lt : m.memory.size < addressSpace

section

variable {size : Nat} {m m' : Machine} {ts : List Turn}

theorem Sound.move (hm : m.Sound size) (h : Move m ts m') : m'.Sound size := by
  have hshift := shift_of_move hm.housed h
  obtain ⟨hpartition, hcount⟩ := hshift.layout_eq
  have hsame : m'.memory.size = m.memory.size := by
    rw [Memory.size_eq_mul, Memory.size_eq_mul, hpartition, hcount]
  exact {
    housed := hm.housed.shift hshift
    alive := alive_of_move h hm.alive
    partitionSize_eq := hpartition.trans hm.partitionSize_eq
    within_size := hm.within_size.move hm.housed hm.partitionSize_eq h
    size_le := hm.size_le
    size_lt := hsame ▸ hm.size_lt }

theorem Sound.moves (hm : m.Sound size) (h : Moves m ts m') : m'.Sound size :=
  h.keep (fun hmove hm => hm.move hmove) hm

/-- A new program begins at the start of its partition. -/
theorem Sound.load {program : List UInt8} {partition : Nat} (hm : m.Sound size)
    (h : Loaded m m' program partition) : m'.Sound size := by
  have hcount : m'.memory.partitionCount = m.memory.partitionCount := by
    rw [Memory.partitionCount, h.inUse_eq]
    exact Array.size_setIfInBounds
  have hsame : m'.memory.size = m.memory.size := by
    rw [Memory.size_eq_mul, Memory.size_eq_mul, h.partitionSize_eq, hcount]
  have hpos : 0 < size := by
    rw [← hm.partitionSize_eq]
    exact m.memory.partitionSize_pos
  refine ⟨hm.housed.load h, ?_, h.partitionSize_eq.trans hm.partitionSize_eq, ?_, hm.size_le,
    hsame ▸ hm.size_lt⟩
  · rw [h.machine_eq]
    exact hm.alive
  · rw [h.machine_eq]
    refine ⟨hm.within_size.live_lt, hm.within_size.current_lt, fun p hp => ?_⟩
    rcases List.mem_append.1 hp with hp | hp
    · exact hm.within_size.ready_lt p hp
    · obtain rfl := List.mem_singleton.1 hp
      exact hpos

theorem Sound.afterAll (hm : m.Sound size) (ops : List Operation) :
    (m.afterAll ops).value.Sound size :=
  keep_afterAll (fun hmoves hm => hm.moves hmoves) (fun hloaded hm => hm.load hloaded) ops hm

theorem sound_of_boot {s : Settings} {booted : Traced Machine} (hboot : boot s = .ok booted)
    (hsize : s.partitionSize ≤ maxPartitionSize) : booted.value.Sound s.partitionSize := by
  have hbooted := boot_eq_ok hboot
  obtain ⟨memory, hlayout, -⟩ := exists_of_bind_eq_ok hboot
  have hpos : 0 < s.partitionSize := by
    rw [← hbooted.partitionSize_eq]
    exact booted.value.memory.partitionSize_pos
  refine ⟨hbooted.housed, ?_, hbooted.partitionSize_eq, ?_, hsize, ?_⟩
  · rw [hbooted.machine_eq]
    rfl
  · rw [hbooted.machine_eq]
    exact ⟨hpos, fun p hp => (nomatch hp), fun p hp => (nomatch hp)⟩
  · rw [Memory.size_eq_mul, hbooted.partitionSize_eq, hbooted.owned.partitionCount_eq]
    exact Memory.lt_addressSpace_of_ofLayout hlayout

/-! ## The guards find nothing -/

theorem Sound.guardedTurnNow_eq (hm : m.Sound size) {p : Process} (hc : m.current = some p) :
    m.guardedTurnNow = liftM m.turnNow := by
  have hpartition := hm.housed.partition_lt (mem_residents_of_current hc)
  have hlive : m.processor.registers.counter < m.memory.partitionSize := by
    rw [hm.partitionSize_eq]
    exact hm.within_size.live_lt
  have hlarge : m.memory.partitionSize ≤ maxPartitionSize := by
    rw [hm.partitionSize_eq]
    exact hm.size_le
  have hcycle := Processor.guardedCycle_eq hpartition hlarge hm.size_lt hlive
  have hkernel : m.toKernel.guardedCycle = liftM m.toKernel.cycle := by
    simp only [Kernel.guardedCycle, Kernel.cycle, hc, hcycle, liftM_bind, liftM_pure]
  simp only [guardedTurnNow, turnNow, hc, hkernel, liftM_bind, liftM_pure]

/-- A switch in the middle of a cycle leaves somebody on the processor. -/
theorem Sound.guardedCycle_eq (hm : m.Sound size) : m.guardedCycle = liftM m.cycle := by
  cases hc : m.current with
  | none =>
    simp only [guardedCycle, cycle, hc]
    rfl
  | some p =>
    have ht : p.isTerminated = false := (currentTerminated_of_current hc).symm.trans hm.alive
    let switched : Traced Machine := if m.wantsSwitch then m.switchAndShow else pure m
    obtain ⟨hsound, hthere⟩ : switched.value.Sound size ∧ switched.value.current.isSome = true := by
      by_cases hw : m.wantsSwitch
      · simp only [switched, if_pos hw]
        exact ⟨hm.moves (movesTo_switchAndShow hc), isSome_current_switch hc ht⟩
      · simp only [switched, if_neg hw]
        refine ⟨hm, ?_⟩
        rw [value_pure, hc]
        rfl
    obtain ⟨q, hq⟩ := Option.isSome_iff_exists.1 hthere
    rw [cycle_eq hc]
    simp only [guardedCycle, hc]
    exact Guarded.lift_bind_eq (hsound.guardedTurnNow_eq hq)

theorem Sound.guardedService_eq (hm : m.Sound size) (i : Interrupt) :
    m.guardedService i = liftM (m.service i) := by
  cases i with
  | step =>
    simp only [guardedService, service, liftM_bind]
    refine congrArg _ (funext fun _ => ?_)
    split
    · exact hm.guardedCycle_eq
    · rfl
  | _ => rfl

theorem Sound.guardedServiceAll_eq (hm : m.Sound size) (batch : List Interrupt) :
    m.guardedServiceAll batch = liftM (m.serviceAll batch) := by
  induction batch generalizing m with
  | nil => rfl
  | cons i batch ih =>
    rw [guardedServiceAll, serviceAll_cons, hm.guardedService_eq]
    exact Guarded.lift_bind_eq (ih (hm.moves (movesTo_service m i)))

theorem Sound.guardedTick_eq (hm : m.Sound size) : m.guardedTick = liftM m.tick := by
  have hawake : m.awake.Sound size := hm.move (.aside m.beside_awake)
  have hserved := hawake.moves (movesTo_serviceAll m.awake m.interrupts.pending.toList)
  rw [tick_eq, liftM_bind, guardedTick, hawake.guardedServiceAll_eq]
  refine congrArg _ (funext fun _ => Guarded.lift_bind_eq ?_)
  split
  · exact hserved.guardedCycle_eq
  · rfl

theorem Sound.guardedSettle_eq (hm : m.Sound size) (n : Nat) :
    guardedSettle n m = liftM (m.settle n) := by
  induction n generalizing m with
  | zero => rfl
  | succ n ih =>
    rw [guardedSettle, settle]
    split
    · rfl
    · rw [hm.guardedTick_eq]
      refine Guarded.lift_bind_eq ?_
      rw [ih (hm.moves (movesTo_tick m)), liftM_bind]
      rfl

/-- A program that fits is copied, and only the id for it may be missing. -/
theorem Sound.guardedAccept_of_ok (hm : m.Sound size) {program : List UInt8}
    {accepted : Process × Machine} (h : m.accept program = .ok accepted) :
    m.guardedAccept program = if m.nextPid.toNat + 1 < UInt32.size then .ok (.ok accepted)
      else .error .idsSpent := by
  unfold guardedAccept
  by_cases hl : m.memory.partitionSize < program.length
  · rw [accept, if_pos hl] at h
    cases h
  · cases ha : m.memory.allocate with
    | error reason =>
      rw [accept, if_neg hl, ha] at h
      cases h
    | ok claimed =>
      obtain ⟨memory, hwrite, haccept⟩ := accept_eq_ok (Nat.le_of_not_lt hl) ha
      obtain rfl := Except.ok.inj (haccept.symm.trans h)
      obtain ⟨partition, cleared⟩ := claimed
      obtain ⟨hp, rfl, -, -⟩ := Memory.allocate_eq_ok ha
      have hfit := m.memory.base_add_size_le hp
      have hcells : m.memory.cells.size < UInt64.size := hm.size_lt
      have hproduct : partition * m.memory.partitionSize < UInt64.size := by
        show m.memory.base partition < UInt64.size
        omega
      have hsum : m.memory.base partition + m.memory.partitionSize < UInt64.size := by omega
      have hbase : Word.product partition m.memory.partitionSize = .ok (m.memory.base partition) :=
        Word.product_eq hproduct
      have hend := Word.sum_eq hsum
      have hcopied : (m.memory.claim partition hp).writeBlock (m.memory.base partition) program =
          .ok memory := hwrite
      simp only [if_neg hl, hbase, hend, hcopied, bind, Except.bind, pure, Except.pure]
      rfl

/-- A program that is refused is refused before anything is counted. -/
theorem guardedAccept_of_error {program : List UInt8} {reason : Error}
    (h : m.accept program = .error reason) : m.guardedAccept program = .ok (.error reason) := by
  unfold guardedAccept
  by_cases hl : m.memory.partitionSize < program.length
  · rw [accept, if_pos hl] at h
    cases h
    rw [if_pos hl]
    rfl
  · cases ha : m.memory.allocate with
    | error reason' =>
      rw [accept, if_neg hl, ha] at h
      cases h
      rw [if_neg hl]
      rfl
    | ok claimed =>
      obtain ⟨memory, -, haccept⟩ := accept_eq_ok (Nat.le_of_not_lt hl) ha
      rw [haccept] at h
      cases h

theorem Sound.guardedAccept_eq (hm : m.Sound size) {program : List UInt8}
    (hid : (m.accept program).toBool = true → m.nextPid.toNat + 1 < UInt32.size) :
    m.guardedAccept program = .ok (m.accept program) := by
  cases ha : m.accept program with
  | error reason => exact guardedAccept_of_error ha
  | ok accepted =>
    rw [ha] at hid
    rw [hm.guardedAccept_of_ok ha, if_pos (hid rfl)]

theorem Sound.guardedLoad_eq (hm : m.Sound size) {program : List UInt8}
    (hid : m.nextPid.toNat + (m.grantsLoad (.ask (.load program))).toNat < UInt32.size) :
    m.guardedLoad program = .ok (m.load program) := by
  have hnext : (m.accept program).toBool = true → m.nextPid.toNat + 1 < UInt32.size := by
    intro haccept
    rw [grantsLoad, Machine.load] at hid
    cases ha : m.accept program with
    | ok accepted =>
      rw [ha] at hid
      exact hid
    | error reason =>
      rw [ha] at haccept
      cases haccept
  rw [guardedLoad, hm.guardedAccept_eq hnext, Machine.load]
  cases m.accept program <;> rfl

/-- Who is in the queue is found in the queue. -/
theorem guardedRun_eq (m : Machine) (pid : Pid) : m.guardedRun pid = .ok (m.run pid) := by
  unfold guardedRun run
  split
  · rfl
  · cases hremove : m.ready.remove? pid with
    | none =>
      have hnone : m.ready.contains pid = false := by
        rw [ReadyQueue.remove?_eq_none_iff] at hremove
        simpa [ReadyQueue.contains] using hremove
      simp only [hnone, Bool.not_false, if_true]
      rfl
    | some found =>
      obtain ⟨before, after, hlist, -, hpid, -⟩ := ReadyQueue.remove?_eq_some hremove
      have hsome : m.ready.contains pid = true := by
        rw [ReadyQueue.contains, hlist]
        simp [hpid]
      simp only [hsome, Bool.not_true, Bool.false_eq_true, if_false]
      split <;> rfl

theorem Sound.guardedAfter_eq (hm : m.Sound size) (op : Operation)
    (hid : m.nextPid.toNat + (m.grantsLoad op).toNat < UInt32.size) :
    m.guardedAfter op = liftM (m.after op) := by
  cases op with
  | settle limit =>
    rw [guardedAfter, hm.guardedSettle_eq, Machine.after, liftM_map]
  | ask r =>
    cases r with
    | load program =>
      rw [guardedAfter, hm.guardedLoad_eq hid, Guarded.ok_bind, Machine.after]
      cases hload : m.load program with
      | error reason =>
        simp [perform, hload, bind, Except.bind]
      | ok loaded =>
        simp [perform, hload, bind, Except.bind, pure, Except.pure]
    | run pid =>
      rw [guardedAfter, guardedRun_eq, Guarded.ok_bind, Machine.after]
      cases hrun : m.run pid with
      | error reason =>
        simp [perform, hrun, bind, Except.bind]
      | ok started =>
        simp [perform, hrun, bind, Except.bind, pure, Except.pure]
    | step =>
      have hraised : (m.interrupt .step).Sound size := hm.move (.aside (m.beside_interrupt _))
      rw [guardedAfter, hraised.guardedTick_eq]
      simp [Machine.after, perform, Machine.step, pure, Except.pure]
    | tick =>
      rw [guardedAfter, hm.guardedTick_eq]
      simp [Machine.after, perform, pure, Except.pure]
    | _ => rfl

theorem Sound.guardedAll_eq {s : Settings} {loads : Nat} (hm : m.Sound size)
    (howned : m.Owned s loads) (ops : List Operation)
    (hloads : loads + m.loadsIn ops < UInt32.size) :
    m.guardedAll ops = liftM (m.afterAll ops) := by
  induction ops generalizing m loads with
  | nil => rfl
  | cons op ops ih =>
    rw [loadsIn, ← Nat.add_assoc] at hloads
    have hone : loads + (m.grantsLoad op).toNat < UInt32.size := by omega
    have hid : m.nextPid.toNat + (m.grantsLoad op).toNat < UInt32.size := by
      rwa [howned.toNat_nextPid]
    rw [guardedAll, afterAll_cons, hm.guardedAfter_eq op hid]
    exact Guarded.lift_bind_eq (ih (hm.afterAll [op]) (howned.after op hone) hloads)

/-- A process that has ended must not be on the processor. -/
example : ({ small.value with
    current := some { status := .terminated }
    scheduler := { policy := .firstCome } } : Machine).guardedCycle.run.value =
      .error .idleSwitch := rfl

/-! ## Faults -/

theorem Sound.faultsBeyond_turns (hm : m.Sound size) (h : Moves m ts m') :
    ∀ t ∈ ts, t.FaultsBeyond size := by
  induction h with
  | refl => exact fun t ht => absurd ht List.not_mem_nil
  | head hmove hs ih =>
    rename_i m m₁ m₂ ts us
    intro t ht
    rcases List.mem_append.1 ht with ht | ht
    · cases hmove with
      | turn hc =>
        obtain rfl := List.mem_singleton.1 ht
        intro pid address hraised
        have hlength :=
          m.memory.length_contents (hm.housed.partition_lt (mem_residents_of_current hc))
        rw [(hm.housed.cycle_agrees hc).raised_eq] at hraised
        obtain ⟨trap, htrap, hinterrupt⟩ := Option.map_eq_some_iff.1 hraised
        obtain rfl := Trap.eq_badAddress_of_interrupt hinterrupt
        obtain ⟨haddress, hbeyond⟩ := Solo.badAddress_of_trap? htrap
        rw [hlength, hm.partitionSize_eq] at hbeyond
        exact ⟨hbeyond, haddress ▸ Solo.address_lt _⟩
      | _ => cases ht
    · exact ih (hm.move hmove) t ht

theorem Sound.faultsBeyond_afterAll (hm : m.Sound size) (ops : List Operation) :
    ∀ t ∈ (m.afterAll ops).turns, t.FaultsBeyond size := by
  induction ops generalizing m with
  | nil => exact fun t ht => absurd ht List.not_mem_nil
  | cons op ops ih =>
    intro t ht
    rw [afterAll_cons, turns_bind] at ht
    rcases List.mem_append.1 ht with ht | ht
    · cases hgrant : m.grantsLoad op with
      | false => exact hm.faultsBeyond_turns (moves_after hgrant) t ht
      | true =>
        obtain ⟨program, u, rfl, hload⟩ := exists_load_of_grantsLoad hgrant
        rw [(after_load hload).2.2] at ht
        cases ht
    · exact ih (hm.afterAll [op]) t ht

end

/-- **Reachable execution meets no mishap.** Whatever is done with a machine whose partitions are not
too large, as long as there are process ids, the guarded run is the run: no word overflows, no
modulus is zero, every opcode and operand is fetched, and no branch is taken that is there for the
sake of caution. All counters are inside the partitions, and a memory fault is at an address operand
behind the end of one. -/
theorem no_mishap {s : Settings} {booted : Traced Machine} (hboot : boot s = .ok booted)
    (hsize : s.partitionSize ≤ 2 ^ 63 - 128) (ops : List Operation)
    (hloads : booted.value.loadsIn ops < UInt32.size) :
    let m := (booted.value.afterAll ops).value
    (booted.value.guardedAll ops).run = .ok <$> booted.value.afterAll ops ∧
      m.processor.registers.counter < s.partitionSize ∧
      (∀ p ∈ m.processes, p.registers.counter < s.partitionSize) ∧
      (∀ partition offset, m.memory.guardedTranslate partition offset =
        .ok (m.memory.translate partition offset)) ∧
      ∀ t ∈ (booted.value.afterAll ops).turns, t.FaultsBeyond s.partitionSize := by
  intro m
  have hstart := sound_of_boot hboot hsize
  have hm : m.Sound s.partitionSize := hstart.afterAll ops
  refine ⟨?_, hm.within_size.live_lt, fun p hp => ?_, fun partition offset => ?_,
    hstart.faultsBeyond_afterAll ops⟩
  · have hguarded := hstart.guardedAll_eq (boot_eq_ok hboot).owned ops (by rwa [Nat.zero_add])
    rw [hguarded]
    rfl
  · rcases List.mem_append.1 hp with hp | hp
    · exact hm.within_size.current_lt p (Option.mem_toList.1 hp)
    · exact hm.within_size.ready_lt p hp
  · exact Memory.guardedTranslate_eq hm.size_lt partition offset

/-- A load far beyond the partition, and a branch back around its start. -/
theorem no_mishap_small :
    let ops : List Operation := [.ask (.load [0xAD, 0xFF, 0xFF]), .ask (.load [0xEA, 0xD0, 0x80]),
      .ask (.setQuantum 1), .ask .runAll, .settle 7]
    boot smallSettings = .ok small ∧ smallSettings.partitionSize ≤ 2 ^ 63 - 128 ∧
      small.value.loadsIn ops < UInt32.size ∧
      ⟨0, some (.memoryFault 0 0xFFFF)⟩ ∈ (small.value.afterAll ops).turns ∧
      (small.value.guardedAll ops).run = .ok <$> small.value.afterAll ops := by
  intro ops
  have hsize : smallSettings.partitionSize ≤ 2 ^ 63 - 128 := by decide
  have hloads : small.value.loadsIn ops < UInt32.size := by decide +kernel
  have hfault : ⟨0, some (.memoryFault 0 0xFFFF)⟩ ∈ (small.value.afterAll ops).turns := by
    decide +kernel
  exact ⟨boot_small, hsize, hloads, hfault, (no_mishap boot_small hsize ops hloads).1⟩

end Machine

end Timeshare
