import Mathlib.Tactic
import Timeshare.Proofs.Residents

/-!
# Runs

A run is any list of operations on a machine: requests, which may be refused, and ticking until the
machine is idle. Between loads a run is made of moves; a load that is granted brings one process,
whose effect `Machine.Loaded` states. What a session does to its machine is an operation here, by
`Session.machine_perform` and `Session.settle_eq`.
-/
namespace Timeshare

inductive Operation where
  | ask (r : Request)
  /-- Ticks until the machine is idle, or until a number of ticks is spent. -/
  | settle (limit : Nat)

namespace Machine

/-- Ticks until the machine is idle, at most `n` times. Answers the number of ticks. -/
def settle : Nat → Machine → Traced (Nat × Machine)
  | 0, m => pure (0, m)
  | n + 1, m =>
    if m.isIdle then pure (0, m)
    else do
      let m ← m.tick
      let (taken, m) ← settle n m
      pure (taken + 1, m)

/-- Carries out an operation. A refused one changes nothing. -/
def after (m : Machine) : Operation → Traced Machine
  | .ask r =>
    match m.perform r with
    | .ok outcome => Prod.snd <$> outcome
    | .error _ => pure m
  | .settle limit => Prod.snd <$> m.settle limit

/-- Carries out operations in order. -/
def afterAll (m : Machine) : List Operation → Traced Machine
  | [] => pure m
  | op :: ops => m.after op >>= (afterAll · ops)

/-- Whether an operation is a load that is granted. -/
def grantsLoad (m : Machine) : Operation → Bool
  | .ask (.load program) => (m.load program).toBool
  | _ => false

/-- The number of loads that are granted in a run. -/
def loadsIn (m : Machine) : List Operation → Nat
  | [] => 0
  | op :: ops => (m.grantsLoad op).toNat + (m.after op).value.loadsIn ops

theorem afterAll_cons (m : Machine) (op : Operation) (ops : List Operation) :
    m.afterAll (op :: ops) = m.after op >>= (afterAll · ops) := rfl

theorem value_afterAll_append (m : Machine) (ops ops' : List Operation) :
    (m.afterAll (ops ++ ops')).value = ((m.afterAll ops).value.afterAll ops').value := by
  induction ops generalizing m with
  | nil => rfl
  | cons op ops ih => exact ih _

theorem loadsIn_append (m : Machine) (ops ops' : List Operation) :
    m.loadsIn (ops ++ ops') = m.loadsIn ops + (m.afterAll ops).value.loadsIn ops' := by
  induction ops generalizing m with
  | nil => exact (Nat.zero_add _).symm
  | cons op ops ih =>
    rw [List.cons_append, loadsIn, loadsIn, ih, Nat.add_assoc]
    rfl

theorem loadsIn_le_length (m : Machine) (ops : List Operation) : m.loadsIn ops ≤ ops.length := by
  induction ops generalizing m with
  | nil => exact Nat.le_refl 0
  | cons op ops ih =>
    have hrest := ih (m.after op).value
    have hone := Bool.toNat_le (m.grantsLoad op)
    rw [loadsIn, List.length_cons]
    omega

theorem moves_settle (n : Nat) (m : Machine) :
    Moves m (m.settle n).turns (m.settle n).value.2 := by
  induction n generalizing m with
  | zero => exact .refl m
  | succ n ih =>
    rw [settle]
    split
    · exact .refl m
    · have hticked := (movesTo_tick m).trans (ih m.tick.value)
      simpa using hticked

/-- An operation that loads nothing is made of moves. -/
theorem moves_after {m : Machine} {op : Operation} (h : m.grantsLoad op = false) :
    Moves m (m.after op).turns (m.after op).value := by
  cases op with
  | settle limit =>
    rw [after, Traced.turns_map, Traced.value_map]
    exact moves_settle limit m
  | ask r =>
    rw [after]
    cases hp : m.perform r with
    | error reason => exact .refl m
    | ok outcome =>
      simp only [Traced.turns_map, Traced.value_map]
      refine moves_perform (fun program hr => ?_) hp
      subst hr
      cases hload : m.load program with
      | ok t => simp [grantsLoad, hload, Except.toBool] at h
      | error reason => simp [perform, hload, bind, Except.bind] at hp

/-! ## Loads -/

/-- What a granted load does: the program is alone with zeros in the lowest free partition, and
its process is the last one in the queue. -/
structure Loaded (m m' : Machine) (program : List UInt8) (partition : Nat) : Prop where
  length_le : program.length ≤ m.memory.partitionSize
  free : m.memory.inUse[partition]? = some false
  lowest : ∀ q < partition, m.memory.inUse[q]? = some true
  machine_eq : m' = { m with
    memory := m'.memory
    nextPid := m.nextPid + 1
    ready := m.ready.enqueue { pid := m.nextPid, partition, status := .ready } }
  inUse_eq : m'.memory.inUse = m.memory.inUse.setIfInBounds partition true
  partitionSize_eq : m'.memory.partitionSize = m.memory.partitionSize
  contents_eq : m'.memory.contents partition = (Solo.load m.memory.partitionSize program).bytes
  others_eq : ∀ q ≠ partition, m'.memory.contents q = m.memory.contents q

/-- A program that fits is copied into the partition that was claimed for it. -/
theorem accept_eq_ok {m : Machine} {program : List UInt8} {claimed : Nat × Memory}
    (hl : program.length ≤ m.memory.partitionSize) (h : m.memory.allocate = .ok claimed) :
    ∃ memory, claimed.2.writeBlock (claimed.2.base claimed.1) program = .ok memory ∧
      m.accept program = .ok ({ pid := m.nextPid, partition := claimed.1, status := .ready },
        { m with memory, nextPid := m.nextPid + 1 }) := by
  obtain ⟨partition, memory⟩ := claimed
  obtain ⟨hp, rfl, -, -⟩ := Memory.allocate_eq_ok h
  obtain ⟨memory, hwrite, -⟩ := m.memory.writeBlock_claim hp program hl
  have hbase : (m.memory.claim partition hp).base partition = m.memory.base partition := rfl
  refine ⟨memory, hwrite, ?_⟩
  simp only [accept, Nat.not_lt.2 hl, if_false, h, hbase, hwrite, bind, Except.bind, pure,
    Except.pure]

theorem load_eq_ok {m : Machine} {program : List UInt8} {t : Traced (Pid × Machine)}
    (h : m.load program = .ok t) :
    t.turns = [] ∧ t.value.1 = m.nextPid ∧
      ∃ partition, Loaded m t.value.2 program partition := by
  unfold load accept at h
  by_cases hl : m.memory.partitionSize < program.length
  · simp [hl, bind, Except.bind, throw, throwThe, MonadExceptOf.throw] at h
  · cases ha : m.memory.allocate with
    | error reason => simp [hl, ha, bind, Except.bind] at h
    | ok claimed =>
      obtain ⟨partition, memory⟩ := claimed
      obtain ⟨hp, rfl, hfree, hlowest⟩ := Memory.allocate_eq_ok ha
      obtain ⟨memory, hwrite, hsize, huse, hself, hother⟩ :=
        m.memory.writeBlock_claim hp program (Nat.le_of_not_lt hl)
      have hbase : (m.memory.claim partition hp).base partition = m.memory.base partition := rfl
      simp only [hl, ha, hbase, hwrite, bind, Except.bind, pure, Except.pure, if_false] at h
      obtain rfl := Except.ok.inj h
      refine ⟨rfl, rfl, partition, Nat.le_of_not_lt hl, ?_, fun q hq => ?_, rfl, ?_, hsize, hself,
        hother⟩
      · rw [Array.getElem?_eq_getElem hp, hfree]
      · rw [Array.getElem?_eq_getElem (by omega), hlowest q hq]
      · rw [huse, Array.setIfInBounds, dif_pos hp]

/-- A load that is granted, as an operation of a run. -/
theorem after_load {m : Machine} {program : List UInt8} {t : Traced (Pid × Machine)}
    (h : m.load program = .ok t) :
    m.grantsLoad (.ask (.load program)) = true ∧
      (m.after (.ask (.load program))).value = t.value.2 ∧
      (m.after (.ask (.load program))).turns = [] := by
  refine ⟨?_, ?_, ?_⟩
  · rw [grantsLoad, h]
    rfl
  · simp only [after, perform, h, bind, Except.bind, pure, Except.pure, Traced.value_map]
  · simp only [after, perform, h, bind, Except.bind, pure, Except.pure, Traced.turns_map,
      (load_eq_ok h).1]

theorem exists_load_of_grantsLoad {m : Machine} {op : Operation} (h : m.grantsLoad op = true) :
    ∃ program t, op = .ask (.load program) ∧ m.load program = .ok t := by
  unfold grantsLoad at h
  split at h
  · rename_i program
    cases hload : m.load program with
    | error reason => simp [hload, Except.toBool] at h
    | ok t => exact ⟨program, t, rfl, hload⟩
  · cases h

/-- What moves and loads keep, a run keeps. -/
theorem keep_afterAll {P : Machine → Prop}
    (hmoves : ∀ {m m' ts}, Moves m ts m' → P m → P m')
    (hload : ∀ {m m' program partition}, Loaded m m' program partition → P m → P m')
    {m : Machine} (ops : List Operation) (hp : P m) : P (m.afterAll ops).value := by
  induction ops generalizing m with
  | nil => exact hp
  | cons op ops ih =>
    rw [afterAll_cons, Traced.value_bind]
    cases hgrant : m.grantsLoad op with
    | false => exact ih (hmoves (moves_after hgrant) hp)
    | true =>
      obtain ⟨program, t, rfl, hok⟩ := exists_load_of_grantsLoad hgrant
      obtain ⟨-, -, partition, hloaded⟩ := load_eq_ok hok
      rw [(after_load hok).2.1]
      exact ih (hload hloaded hp)

theorem Loaded.residents_eq {m m' : Machine} {program : List UInt8} {partition : Nat}
    (h : Loaded m m' program partition) :
    m'.residents = m.residents ++ [⟨m.nextPid, partition, {}⟩] := by
  rw [h.machine_eq]
  simp [Machine.residents_eq, Process.resident]

theorem Loaded.getElem?_inUse {m m' : Machine} {program : List UInt8} {partition : Nat}
    (h : Loaded m m' program partition) (i : Nat) :
    m'.memory.inUse[i]? = if i = partition then some true else m.memory.inUse[i]? := by
  rw [h.inUse_eq]
  exact Memory.getElem?_mark (Array.getElem?_eq_some_iff.1 h.free).1 true i

/-- Nobody lives in a partition that is free. -/
theorem Housed.notMem_of_free {m : Machine} {partition : Nat} (hm : m.Housed)
    (h : m.memory.inUse[partition]? = some false) :
    partition ∉ m.residents.map Resident.partition := fun hmem => by
  have huse := (hm.inUse_iff partition).2 hmem
  rw [h] at huse
  cases huse

/-- A new resident in a partition that was free keeps everybody housed. -/
theorem Housed.load {m m' : Machine} {program : List UInt8} {partition : Nat} (hm : m.Housed)
    (h : Loaded m m' program partition) : m'.Housed := by
  have hpart : m'.residents.map Resident.partition =
      m.residents.map Resident.partition ++ [partition] := by
    rw [h.residents_eq, List.map_append]
    rfl
  refine ⟨?_, fun i => ?_, fun r hr => ?_⟩
  · rw [hpart, ← List.concat_eq_append]
    exact hm.partitions_nodup.concat (hm.notMem_of_free h.free)
  · rw [hpart, h.getElem?_inUse, List.mem_append, List.mem_singleton, ← hm.inUse_iff]
    by_cases hi : i = partition
    · simp [hi]
    · rw [if_neg hi, or_iff_left hi]
  · rw [h.partitionSize_eq]
    rw [h.residents_eq, List.mem_append, List.mem_singleton] at hr
    rcases hr with hr | rfl
    · exact hm.counter_lt r hr
    · exact m.memory.partitionSize_pos

theorem Housed.freeCount_load {m m' : Machine} {program : List UInt8} {partition : Nat}
    (hm : m.Housed) (h : Loaded m m' program partition) :
    m'.memory.freeCount + 1 = m.memory.freeCount := by
  have hbefore := hm.freeCount_add
  have hafter := (hm.load h).freeCount_add
  rw [h.residents_eq, List.length_append, List.length_singleton, Memory.partitionCount, h.inUse_eq,
    Array.size_setIfInBounds] at hafter
  rw [Memory.partitionCount] at hbefore
  omega

/-! ## The start of a run -/

/-- A machine that was just switched on. -/
structure Booted (s : Settings) (m : Machine) : Prop where
  quantum_pos : 0 < s.quantum
  partitionSize_eq : m.memory.partitionSize = s.partitionSize
  inUse_eq : m.memory.inUse = Array.replicate s.partitions false
  machine_eq : m = {
    memory := m.memory
    scheduler := { policy := s.policy, quantum := s.quantum }
    singleStep := s.singleStep
    keyboard := ({} : Keyboard).start
    storage := ({} : Storage).start }

theorem boot_eq_ok {s : Settings} {t : Traced Machine} (h : boot s = .ok t) :
    Booted s t.value := by
  unfold boot at h
  cases hmem : Memory.ofLayout s.partitionSize s.partitions with
  | error reason => simp [hmem, bind, Except.bind] at h
  | ok memory =>
    obtain ⟨hsize, huse⟩ := Memory.ofLayout_eq_ok hmem
    by_cases hq : s.quantum = 0
    · simp [hmem, hq, Scheduler.ofPolicy, Scheduler.setQuantum, bind, Except.bind] at h
    · simp only [hmem, hq, Scheduler.ofPolicy, Scheduler.setQuantum, bind, Except.bind, if_false]
        at h
      obtain rfl := Except.ok.inj h
      exact ⟨Nat.pos_of_ne_zero hq, hsize, huse, rfl⟩

/-- Two partitions of four bytes. -/
def smallSettings : Settings := { partitionSize := 4, partitions := 2 }

/-- A small machine that was just switched on. -/
def small : Traced Machine := (boot smallSettings).toOption.get rfl

theorem boot_small : boot smallSettings = .ok small := rfl

/-- Two programs that share the small machine for seven cycles. -/
def sharing : List Operation :=
  [.ask (.load [0xEA, 0xEA, 0xA9, 0x07]), .ask (.load [0xA9, 0x05, 0xEA, 0xEA]),
    .ask (.setQuantum 1), .ask .runAll, .settle 7]

theorem Booted.residents_eq {s : Settings} {m : Machine} (h : Booted s m) : m.residents = [] := by
  rw [h.machine_eq]
  rfl

theorem Booted.housed {s : Settings} {m : Machine} (h : Booted s m) : m.Housed := by
  refine ⟨?_, fun i => ?_, fun r hr => ?_⟩
  · rw [h.residents_eq]
    exact List.nodup_nil
  · rw [h.residents_eq, h.inUse_eq, Array.getElem?_replicate]
    split <;> simp
  · rw [h.residents_eq] at hr
    cases hr

/-- Whatever happens in a run, every resident keeps a partition of its own. -/
theorem Housed.afterAll {m : Machine} (hm : m.Housed) (ops : List Operation) :
    (m.afterAll ops).value.Housed :=
  keep_afterAll (fun hmoves hm => hm.moves hmoves) (fun hloaded hm => hm.load hloaded) ops hm

end Machine

/-! ## Sessions -/

namespace Session

variable {σ : Type} (c : Console σ)

@[simp]
theorem machine_record (s : Session σ) (n : Notice) : (s.record n).machine = s.machine := by
  unfold record
  split
  · split <;> rfl
  · rfl

@[simp]
theorem machine_playEvent (s : Session σ) (event : Event) :
    (s.playEvent c event).machine = s.machine := by
  unfold playEvent
  split
  · exact s.machine_record _
  · split
    · rfl
    · exact machine_record _ _

/-- Nothing that is shown or recorded reaches the machine. -/
@[simp]
theorem machine_play (s : Session σ) (events : Array Event) :
    (s.play c events).machine = s.machine := by
  rw [play, ← Array.foldl_toList]
  induction events.toList generalizing s with
  | nil => rfl
  | cons event events ih => rw [List.foldl_cons, ih, machine_playEvent]

@[simp]
theorem machine_follow (s : Session σ) (next : Traced Machine) :
    (s.follow c next).machine = next.value := by
  rw [follow, machine_play]

/-- A session carries out requests as its machine does. -/
theorem machine_perform (s : Session σ) (r : Request) :
    (s.perform c r).2.machine = (s.machine.after (.ask r)).value := by
  cases hp : s.machine.perform r with
  | error reason => simp only [perform, Machine.after, hp, Traced.value_pure]
  | ok outcome => simp only [perform, Machine.after, hp, machine_follow]

/-- A session begins with a machine that was just switched on. -/
theorem booted_of_boot {settings : Settings} {screen : σ} {threshold : Option Level}
    {s : Session σ} (h : boot c settings screen threshold = .ok s) :
    Machine.Booted settings s.machine := by
  obtain ⟨booted, hbooted, hs⟩ := exists_of_bind_eq_ok h
  rw [← Except.ok.inj hs, machine_play]
  exact Machine.boot_eq_ok hbooted

/-- The ticks that were taken before are counted, and make no other difference. -/
theorem settleFrom_eq (taken n : Nat) (s : Session σ) :
    settleFrom c taken n s = (taken + (s.settle c n).1, (s.settle c n).2) := by
  induction n generalizing taken s with
  | zero => rfl
  | succ n ih =>
    rw [settle, settleFrom, settleFrom]
    split
    · rfl
    · rw [ih (taken + 1), ih (0 + 1), Nat.zero_add, Nat.add_assoc]

/-- What settling is, one tick at a time. -/
theorem settle_succ (n : Nat) (s : Session σ) :
    s.settle c (n + 1) =
      if s.machine.isIdle then (0, s)
      else
        let settled := (s.follow c s.machine.tick).settle c n
        (settled.1 + 1, settled.2) := by
  rw [settle, settleFrom, settleFrom_eq, Nat.zero_add, Nat.add_comm 1]

/-- A session ticks as often as its machine, whatever the display does with the frames. -/
theorem settle_eq (n : Nat) (s : Session σ) :
    (s.settle c n).1 = (s.machine.settle n).value.1 ∧
      (s.settle c n).2.machine = (s.machine.settle n).value.2 := by
  induction n generalizing s with
  | zero => exact ⟨rfl, rfl⟩
  | succ n ih =>
    rw [settle_succ, Machine.settle]
    split
    · exact ⟨rfl, rfl⟩
    · obtain ⟨hcount, hmachine⟩ := ih (s.follow c s.machine.tick)
      rw [machine_follow] at hcount hmachine
      exact ⟨congrArg (· + 1) hcount, hmachine⟩

end Session

end Timeshare
