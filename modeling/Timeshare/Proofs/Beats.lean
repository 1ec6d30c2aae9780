import Timeshare.Proofs.Ticks

/-!
# The beats of a run

A run is looked at more closely here than between its operations. A beat is the smallest part of a
run that leaves a machine behind: waking up for a tick, the service of one interrupt, the cycle at
the end of a tick, or a request that takes no tick. A beat gives the processor to at most one
process and runs at most one cycle.

`Act` says exactly which machine every part of a beat leaves, with the condition under which it is
done. It differs from `Move` in that it also follows the settings and the count of cycles, and in
that it includes loads.
-/
namespace Timeshare

namespace Machine

open Traced

/-- The services of a batch, each on what the ones before it left. -/
def serviceBeats (m : Machine) : List Interrupt → List (Traced Machine)
  | [] => []
  | i :: batch => m.service i :: (m.service i).value.serviceBeats batch

/-- What is done at the end of a tick: a cycle, if the processor executes on its own. -/
def lastBeat (m : Machine) : Traced Machine := if m.processor.executing then m.cycle else pure m

/-- The beats of a tick: waking up, the services of what was pending, and the end of the tick. -/
def tickBeats (m : Machine) : List (Traced Machine) :=
  let batch := m.interrupts.pending.toList
  pure m.awake :: (m.awake.serviceBeats batch ++ [(m.awake.serviceAll batch).value.lastBeat])

def beatsOf (m : Machine) : Operation → List (Traced Machine)
  | .ask .tick => m.tickBeats
  | .ask .step => pure (m.interrupt .step) :: (m.interrupt .step).tickBeats
  | .ask r => [m.after (.ask r)]
  | .settle limit => (m.settleTicks limit).flatMap tickBeats

/-- The beats of a run, in order. -/
def beatsIn (m : Machine) : List Operation → List (Traced Machine)
  | [] => []
  | op :: ops => m.beatsOf op ++ (m.after op).value.beatsIn ops

/-- Every request that a run grants satisfies `A` in the machine that grants it. -/
def Grants (A : Machine → Request → Prop) (m : Machine) : List Operation → Prop
  | [] => True
  | op :: ops =>
    (∀ r t, op = .ask r → m.perform r = .ok t → A m r) ∧ (m.after op).value.Grants A ops

end Machine

open Machine in
/-- A part of a beat, with the cycles that it runs. Loads, starts out of turn and changes of
settings are requests that satisfy `A`. -/
inductive Act (A : Machine → Request → Prop) : Machine → List Turn → Machine → Prop
  | aside {m m' : Machine} (h : m' = { m with
      clock := m'.clock
      interrupts := m'.interrupts
      keyboard := m'.keyboard
      storage := m'.storage }) : Act A m [] m'
  | setQuantum {m : Machine} {quantum : Nat} (hq : 0 < quantum) (hA : A m (.setQuantum quantum)) :
      Act A m [] { m with scheduler := { m.scheduler with quantum } }
  | setPolicy {m : Machine} {policy : Policy} (hA : A m (.setPolicy policy)) :
      Act A m [] { m with scheduler := { m.scheduler with policy } }
  | setSingleStep {m : Machine} {enabled : Bool} (hA : A m (.setSingleStep enabled)) :
      Act A m [] (m.setSingleStep enabled)
  | load {m m' : Machine} {program : List UInt8} {partition : Nat}
      (h : Loaded m m' program partition) (hA : A m (.load program)) : Act A m [] m'
  | start {m : Machine} {p : Process} {before after : List Process} (hc : m.current = none)
      (hr : m.ready.toList = before ++ p :: after) (hA : before = [] ∨ A m (.run p.pid)) :
      Act A m [] (m.handTo p (before ++ after))
  | rotate {m : Machine} {p next : Process} {rest : List Process} (hc : m.current = some p)
      (ht : p.isTerminated = false) (hw : m.wantsSwitch = true)
      (hr : m.ready.toList = next :: rest) :
      Act A m [] (m.handTo next
        (rest ++ [{ p.save m.processor.registers with status := .waiting }]))
  | renew {m : Machine} {p : Process} (hc : m.current = some p) (ht : p.isTerminated = false)
      (hw : m.wantsSwitch = true) (hr : m.ready.toList = []) : Act A m [] m.resetCycles
  | retire {m : Machine} {p next : Process} {rest : List Process} (hc : m.current = some p)
      (hr : m.ready.toList = next :: rest) : Act A m [] ((m.freed p).handTo next rest)
  | halt {m : Machine} {p : Process} (hc : m.current = some p) (hr : m.ready.toList = []) :
      Act A m [] (m.freed p).stopped
  | drop {m : Machine} {p : Process} {before after : List Process}
      (hr : m.ready.toList = before ++ p :: after) :
      Act A m [] { m.freed p with ready := ⟨before ++ after⟩ }
  | turn {m : Machine} {p : Process} (hc : m.current = some p)
      (hw : m.wantsSwitch = false ∨ m.scheduler.cycles = 0) :
      Act A m [⟨p.pid, (m.processor.cycle p m.memory).value.raised⟩]
        (m.turned (m.processor.cycle p m.memory).value)

/-- A beat is one act. Only the switch that is due before a cycle comes in front of another one. -/
inductive Beat (A : Machine → Request → Prop) : Machine → List Turn → Machine → Prop
  | act {m m' : Machine} {ts : List Turn} (h : Act A m ts m') : Beat A m ts m'
  | switched {m m₁ : Machine} {p : Process} (h : Act A m [] m₁) (hc : m₁.current = some p)
      (h0 : m₁.scheduler.cycles = 0) :
      Beat A m [⟨p.pid, (m₁.processor.cycle p m₁.memory).value.raised⟩]
        (m₁.turned (m₁.processor.cycle p m₁.memory).value)

/-- A run from `m` to `m'` in the given beats. -/
inductive Beats (A : Machine → Request → Prop) : Machine → List (Traced Machine) → Machine → Prop
  | refl (m : Machine) : Beats A m [] m
  | cons {m m' : Machine} {t : Traced Machine} {beats : List (Traced Machine)}
      (h : Beat A m t.turns t.value) (hs : Beats A t.value beats m') : Beats A m (t :: beats) m'

section

variable {A B : Machine → Request → Prop} {m m₁ m' : Machine} {ts : List Turn}
  {beats beats' : List (Traced Machine)}

theorem Beats.single {t : Traced Machine} (h : Beat A m t.turns t.value) :
    Beats A m [t] t.value := .cons h (.refl _)

theorem Beats.trans (h : Beats A m beats m₁) (h' : Beats A m₁ beats' m') :
    Beats A m (beats ++ beats') m' := by
  induction h with
  | refl => exact h'
  | cons hbeat _ ih => exact .cons hbeat (ih h')

/-- A run is cut in two at any of its beats. -/
theorem Beats.split (h : Beats A m (beats ++ beats') m') :
    ∃ m₁, Beats A m beats m₁ ∧ Beats A m₁ beats' m' := by
  induction beats generalizing m with
  | nil => exact ⟨m, .refl m, h⟩
  | cons t beats ih =>
    cases h with
    | cons hbeat hs =>
      obtain ⟨m₁, hbefore, hafter⟩ := ih hs
      exact ⟨m₁, .cons hbeat hbefore, hafter⟩

/-- A beat is made of acts. -/
theorem Beat.acts (h : Beat A m ts m') :
    Act A m ts m' ∨ ∃ m₁, Act A m [] m₁ ∧ Act A m₁ ts m' ∧ m'.ready = m₁.ready := by
  cases h with
  | act h => exact .inl h
  | switched h hc h0 => exact .inr ⟨_, h, .turn hc (.inr h0), rfl⟩

/-- An act is a move or a load. -/
theorem Act.cases_move (h : Act A m ts m') :
    Move m ts m' ∨ ts = [] ∧ ∃ program partition, Machine.Loaded m m' program partition ∧
      A m (.load program) := by
  cases h with
  | aside h =>
    rw [h]
    exact .inl (.aside ⟨rfl, rfl, rfl, rfl, rfl, rfl⟩)
  | setQuantum => exact .inl (.aside ⟨rfl, rfl, rfl, rfl, rfl, rfl⟩)
  | setPolicy => exact .inl (.aside ⟨rfl, rfl, rfl, rfl, rfl, rfl⟩)
  | setSingleStep => exact .inl (.aside ⟨rfl, rfl, rfl, rfl, rfl, rfl⟩)
  | load h hA => exact .inr ⟨rfl, _, _, h, hA⟩
  | start hc hr => exact .inl (.start hc hr)
  | rotate hc ht _ hr => exact .inl (.rotate hc ht hr)
  | renew => exact .inl (.aside ⟨rfl, rfl, rfl, rfl, rfl, rfl⟩)
  | retire hc hr => exact .inl (.retire hc hr)
  | halt hc hr => exact .inl (.halt hc hr)
  | drop hr => exact .inl (.drop hr)
  | turn hc => exact .inl (.turn hc)

theorem Act.length_le_one (h : Act A m ts m') : ts.length ≤ 1 := by
  cases h with
  | turn => exact Nat.le_refl 1
  | _ => exact Nat.zero_le 1

theorem Beat.length_le_one (h : Beat A m ts m') : ts.length ≤ 1 := by
  rcases h.acts with h | ⟨_, _, h, _⟩
  · exact h.length_le_one
  · exact h.length_le_one

/-- Whoever runs a cycle is on the processor when it is over. -/
theorem Act.currentPid?_eq (h : Act A m ts m') : ∀ u ∈ ts, m'.currentPid? = some u.pid := by
  intro u hu
  cases h with
  | turn =>
    rw [List.mem_singleton.1 hu]
    exact congrArg some (Machine.pid_process_cycle ..)
  | _ => cases hu

theorem Beat.currentPid?_eq (h : Beat A m ts m') : ∀ u ∈ ts, m'.currentPid? = some u.pid := by
  rcases h.acts with h | ⟨_, _, h, _⟩
  · exact h.currentPid?_eq
  · exact h.currentPid?_eq

/-- What acts keep, beats keep. -/
theorem Beat.keep {P : List Turn → Machine → Prop} (before : List Turn)
    (hact : ∀ {m ts m' before}, Act A m ts m' → P before m → P (before ++ ts) m')
    (h : Beat A m ts m') (hp : P before m) : P (before ++ ts) m' := by
  rcases h.acts with h | ⟨m₁, hfirst, hlast, _⟩
  · exact hact h hp
  · have hmid := hact hfirst hp
    rw [List.append_nil] at hmid
    exact hact hlast hmid

/-- What acts keep, with the cycles that were run so far, a run keeps. -/
theorem Beats.keep {P : List Turn → Machine → Prop} (before : List Turn)
    (hact : ∀ {m ts m' before}, Act A m ts m' → P before m → P (before ++ ts) m')
    (h : Beats A m beats m') (hp : P before m) : P (before ++ beats.flatMap Traced.turns) m' := by
  induction h generalizing before with
  | refl => simpa using hp
  | cons hbeat _ ih =>
    have hlater := ih _ (hbeat.keep before hact hp)
    rwa [List.append_assoc] at hlater

end

namespace Machine

open Traced

/-! ## What the beats are -/

section

variable {A : Machine → Request → Prop} {m : Machine} {t : Traced Machine}

/-- The switch that is due is an act, and the quantum is whole after it. -/
theorem act_switch {p : Process} (hc : m.current = some p) (hw : m.wantsSwitch = true) :
    Act A m [] m.switch.value ∧ m.switch.value.scheduler.cycles = 0 := by
  cases switched hc with
  | alone ht hr h =>
    rw [h]
    exact ⟨.renew hc ht hw hr, rfl⟩
  | rotate ht hr h =>
    rw [h]
    exact ⟨.rotate hc ht hw hr, rfl⟩
  | halt _ hr h =>
    rw [h]
    exact ⟨.halt hc hr, rfl⟩
  | retire _ hr h =>
    rw [h]
    exact ⟨.retire hc hr, rfl⟩

theorem beat_pure (h : Act A m [] t.value) (hturns : t.turns = []) : Beat A m t.turns t.value := by
  rw [hturns]
  exact .act h

theorem beat_cycle (m : Machine) : Beat A m m.cycle.turns m.cycle.value := by
  cases hc : m.current with
  | none =>
    rw [cycle, hc]
    exact .act (.aside rfl)
  | some p =>
    rw [cycle_eq hc, turns_bind, value_bind]
    cases hw : m.wantsSwitch with
    | false =>
      rw [if_neg (by simp)]
      show Beat A m ([] ++ m.turnNow.turns) m.turnNow.value
      rw [List.nil_append, turns_turnNow hc, value_turnNow hc]
      exact .act (.turn hc (.inl hw))
    | true =>
      rw [if_pos rfl, turns_switchAndShow, value_switchAndShow, List.nil_append]
      obtain ⟨hact, hzero⟩ := act_switch (A := A) hc hw
      cases hc' : m.switch.value.current with
      | none =>
        rw [turnNow, hc']
        exact .act hact
      | some p' =>
        rw [turns_turnNow hc', value_turnNow hc']
        exact .switched hact hc' hzero

theorem beat_lastBeat (m : Machine) : Beat A m m.lastBeat.turns m.lastBeat.value := by
  unfold lastBeat
  split
  · exact m.beat_cycle
  · exact .act (.aside rfl)

theorem act_terminate {pid : Pid} (h : m.terminate pid = .ok t) : Act A m [] t.value := by
  rcases terminate_eq_ok h with ⟨p, hc, -, rfl⟩ | ⟨p, before, after, -, hr, -, -, hv, -⟩
  · rw [value_terminateCurrent]
    cases hr : m.ready.toList with
    | nil => exact .halt hc hr
    | cons next rest => exact .retire hc hr
  · rw [hv]
    exact .drop hr

theorem act_kill {pid : Pid} (h : m.kill pid = .ok t) : Act A m [] t.value := by
  obtain ⟨ended, hend, rfl⟩ := kill_eq_ok h
  have hact : Act A m [] ended.value := act_terminate hend
  exact hact

theorem act_terminateRaiser (m : Machine) (pid : Pid) (kind : String) :
    Act A m [] (m.terminateRaiser pid kind).value := by
  unfold terminateRaiser
  split
  · rename_i hend
    exact act_terminate hend
  · exact .aside rfl

theorem act_timer (m : Machine) : Act A m [] (m.service .timer).value := by
  unfold service
  rw [value_bind]
  cases hc : m.current with
  | none => exact .aside rfl
  | some p =>
    simp only [Option.isSome_some, Bool.true_and]
    split
    · rename_i hw
      exact (act_switch hc hw).1
    · exact .aside rfl

theorem beat_service (m : Machine) (i : Interrupt) :
    Beat A m (m.service i).turns (m.service i).value := by
  cases i with
  | step =>
    unfold service
    rw [turns_bind, value_bind]
    simp only
    split
    · exact m.beat_cycle
    · exact .act (.aside rfl)
  | timer => exact beat_pure m.act_timer (m.turns_service nofun)
  | keyboard key => exact beat_pure (.aside rfl) (m.turns_service nofun)
  | sysCall pid accumulator x y => exact beat_pure (.aside rfl) (m.turns_service nofun)
  | unknownOpcode pid opcode counter =>
    exact beat_pure (m.act_terminateRaiser pid _) (m.turns_service nofun)
  | memoryFault pid address =>
    exact beat_pure (m.act_terminateRaiser pid _) (m.turns_service nofun)
  | cpuBreak pid => exact beat_pure (m.act_terminateRaiser pid _) (m.turns_service nofun)
  | disk request => exact beat_pure (.aside rfl) (m.turns_service nofun)
  | kill pid =>
    refine beat_pure ?_ (m.turns_service nofun)
    unfold service
    rw [value_bind]
    simp only
    split
    · rename_i hkill
      exact act_kill hkill
    · exact .aside rfl

theorem act_perform {r : Request} {t : Traced (Reply × Machine)} (hr : r.takesTick = false)
    (h : m.perform r = .ok t) (hA : A m r) : Act A m [] t.value.2 := by
  cases performed h with
  | load hload =>
    obtain ⟨-, -, partition, hloaded⟩ := load_eq_ok hload
    rw [value_map]
    exact .load hloaded hA
  | run hrun =>
    rename_i pid t
    rw [value_map]
    unfold run at hrun
    split at hrun
    · obtain rfl := Except.ok.inj hrun
      exact .aside rfl
    · split at hrun
      · cases hrun
      · rename_i p ready hremove
        obtain ⟨before, after, hlist, rfl, rfl, -⟩ := ReadyQueue.remove?_eq_some hremove
        split at hrun
        · obtain rfl := Except.ok.inj hrun
          exact .aside rfl
        · rename_i hidle
          obtain rfl := Except.ok.inj hrun
          exact .start (by simpa using hidle) hlist (.inr hA)
  | runAll =>
    rw [value_map]
    unfold runAll
    split
    · exact .aside rfl
    · rename_i hidle
      simp only
      split
      · rename_i p ready hnext
        have hlist : m.ready.toList = [] ++ p :: ready.toList := ReadyQueue.dequeue?_eq_some hnext
        exact .start (by simpa using hidle) hlist (.inl rfl)
      · exact .aside rfl
  | step => cases hr
  | tick => cases hr
  | setQuantum hset =>
    rename_i quantum scheduler
    unfold Scheduler.setQuantum at hset
    split at hset
    · cases hset
    · rename_i hq
      obtain rfl := Except.ok.inj hset
      exact .setQuantum (Nat.pos_of_ne_zero hq) hA
  | setPolicy => exact .setPolicy hA
  | setSingleStep => exact .setSingleStep hA
  | kill hkill =>
    rw [value_map]
    exact act_kill hkill
  | requestKill _ => exact .aside rfl
  | interrupt => exact .aside rfl
  | takeInput => exact .aside rfl

/-! ## Runs in beats -/

theorem beats_serviceBeats (m : Machine) (batch : List Interrupt) :
    Beats A m (m.serviceBeats batch) (m.serviceAll batch).value := by
  induction batch generalizing m with
  | nil => exact .refl m
  | cons i batch ih =>
    rw [serviceAll_cons]
    exact .cons (m.beat_service i) (ih _)

theorem beats_tickBeats (m : Machine) : Beats A m m.tickBeats m.tick.value := by
  have hawake : Beat A m (pure m.awake : Traced Machine).turns m.awake := .act (.aside rfl)
  refine .cons hawake ((m.awake.beats_serviceBeats _).trans ?_)
  exact .single (beat_lastBeat _)

theorem beats_settle (n : Nat) (m : Machine) :
    Beats A m ((m.settleTicks n).flatMap tickBeats) (m.settle n).value.2 := by
  induction n generalizing m with
  | zero => exact .refl m
  | succ n ih =>
    rw [settle, settleTicks]
    split
    · exact .refl m
    · exact m.beats_tickBeats.trans (ih m.tick.value)

theorem beatsOf_of_takesTick_eq_false {r : Request} (h : r.takesTick = false) :
    m.beatsOf (.ask r) = [m.after (.ask r)] := by
  cases r with
  | tick => cases h
  | step => cases h
  | _ => rfl

theorem beats_beatsOf {op : Operation} (hA : ∀ r t, op = .ask r → m.perform r = .ok t → A m r) :
    Beats A m (m.beatsOf op) (m.after op).value := by
  cases op with
  | settle limit => exact beats_settle limit m
  | ask r =>
    cases htick : r.takesTick with
    | true =>
      cases r with
      | tick => exact m.beats_tickBeats
      | step =>
        have hraised : Beat A m (pure (m.interrupt .step) : Traced Machine).turns
            (m.interrupt .step) := .act (.aside rfl)
        exact .cons hraised (m.interrupt .step).beats_tickBeats
      | _ => cases htick
    | false =>
      rw [beatsOf_of_takesTick_eq_false htick]
      refine .single ?_
      rw [after]
      cases hp : m.perform r with
      | error reason => exact .act (.aside rfl)
      | ok outcome =>
        exact beat_pure (act_perform htick hp (hA r outcome rfl hp))
          ((turns_map _ _).trans (perform_between htick hp).1)

/-- Every run is a run in beats. -/
theorem Grants.beats {ops : List Operation} (h : m.Grants A ops) :
    Beats A m (m.beatsIn ops) (m.afterAll ops).value := by
  induction ops generalizing m with
  | nil => exact .refl m
  | cons op ops ih =>
    obtain ⟨hop, hops⟩ := h
    exact (beats_beatsOf hop).trans (ih hops)

theorem turns_serviceBeats (m : Machine) (batch : List Interrupt) :
    (m.serviceBeats batch).flatMap Traced.turns = (m.serviceAll batch).turns := by
  induction batch generalizing m with
  | nil => rfl
  | cons i batch ih => rw [serviceAll_cons, turns_bind, serviceBeats, List.flatMap_cons, ih]

theorem turns_tickBeats (m : Machine) : m.tickBeats.flatMap Traced.turns = m.tick.turns := by
  have htick : m.tick.turns = (m.awake.serviceAll m.interrupts.pending.toList).turns ++
      (m.awake.serviceAll m.interrupts.pending.toList).value.lastBeat.turns := by
    rw [tick_eq]
    rfl
  rw [htick, tickBeats, List.flatMap_cons, List.flatMap_append, turns_serviceBeats, turns_pure,
    List.nil_append, List.flatMap_singleton]

/-- The cycles of a run are those of its beats. -/
theorem turns_beatsIn (m : Machine) (ops : List Operation) :
    (m.beatsIn ops).flatMap Traced.turns = (m.afterAll ops).turns := by
  induction ops generalizing m with
  | nil => rfl
  | cons op ops ih =>
    have hop : (m.beatsOf op).flatMap Traced.turns = (m.after op).turns := by
      cases op with
      | settle limit =>
        rw [beatsOf, List.flatMap_assoc, turns_after]
        exact List.flatMap_congr fun m _ => m.turns_tickBeats
      | ask r =>
        cases htick : r.takesTick with
        | true =>
          cases r with
          | tick => rw [turns_after, beatsOf, turns_tickBeats, ticksOf, List.flatMap_singleton]
          | step =>
            rw [turns_after, beatsOf, List.flatMap_cons, turns_tickBeats, ticksOf,
              List.flatMap_singleton]
            rfl
          | _ => cases htick
        | false => rw [beatsOf_of_takesTick_eq_false htick, List.flatMap_singleton]
    rw [beatsIn, List.flatMap_append, hop, ih, afterAll_cons, turns_bind]

end

/-! ## What a run grants -/

section

variable {A B : Machine → Request → Prop} {s : Settings} {loads : Nat} {m : Machine}

/-- Every request satisfies what all requests satisfy. -/
theorem grants_of_forall {ops : List Operation} (h : ∀ m r, .ask r ∈ ops → A m r) :
    m.Grants A ops := by
  induction ops generalizing m with
  | nil => trivial
  | cons op ops ih =>
    refine ⟨fun r _ hop _ => h m r (hop ▸ List.mem_cons_self), ih fun m r hr => ?_⟩
    exact h m r (List.mem_cons_of_mem _ hr)

theorem Grants.and {ops : List Operation} (h : m.Grants A ops) (h' : m.Grants B ops) :
    m.Grants (fun m r => A m r ∧ B m r) ops := by
  induction ops generalizing m with
  | nil => trivial
  | cons op ops ih =>
    exact ⟨fun r t hop ht => ⟨h.1 r t hop ht, h'.1 r t hop ht⟩, ih h.2 h'.2⟩

/-- There is an id left for the process of a load. -/
def HasId (m : Machine) (r : Request) : Prop :=
  ∀ program, r = .load program → m.nextPid.toNat + 1 < UInt32.size

/-- If the ids of a run suffice, each load finds one. -/
theorem Owned.grants_hasId (ops : List Operation) (hm : m.Owned s loads)
    (hloads : loads + m.loadsIn ops < UInt32.size) : m.Grants HasId ops := by
  induction ops generalizing m loads with
  | nil => trivial
  | cons op ops ih =>
    rw [loadsIn, ← Nat.add_assoc] at hloads
    have hone : loads + (m.grantsLoad op).toNat < UInt32.size :=
      Nat.lt_of_le_of_lt (Nat.le_add_right _ _) hloads
    refine ⟨fun r t hop ht program hr => ?_, ih (hm.after op hone) hloads⟩
    subst hop hr
    have hgrant : m.grantsLoad (.ask (.load program)) = true := by
      cases hload : m.load program with
      | error reason => simp [perform, hload, bind, Except.bind] at ht
      | ok u => exact (after_load hload).1
    rw [hgrant] at hone
    rw [hm.toNat_nextPid]
    exact hone

theorem Owned.act {m' : Machine} {ts : List Turn} (hm : m.Owned s m.nextPid.toNat)
    (hA : ∀ m r, A m r → HasId m r) (h : Act A m ts m') : m'.Owned s m'.nextPid.toNat := by
  rcases h.cases_move with hmove | ⟨-, program, partition, hloaded, hid⟩
  · exact (hm.move hmove).of_nextPid
  · exact (hm.load (hA m _ hid program rfl) hloaded).of_nextPid

/-- Ids are handed out in order. -/
theorem nextPid_le_of_act {m' : Machine} {ts : List Turn} (hA : ∀ m r, A m r → HasId m r)
    (h : Act A m ts m') : m.nextPid.toNat ≤ m'.nextPid.toNat := by
  rcases h.cases_move with hmove | ⟨-, program, partition, hloaded, hid⟩
  · rw [hmove.nextPid_eq]
  · exact hloaded.nextPid_le (hA m _ hid program rfl)

theorem alive_of_act {m' : Machine} {ts : List Turn} (h : Act A m ts m')
    (halive : m.currentTerminated = false) : m'.currentTerminated = false := by
  rcases h.cases_move with hmove | ⟨-, program, partition, hloaded, -⟩
  · exact alive_of_move hmove halive
  · rw [hloaded.machine_eq]
    exact halive

end

end Machine

end Timeshare
