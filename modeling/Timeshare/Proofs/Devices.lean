import Timeshare.Proofs.Runs

/-!
# What reaches the drivers

A machine hands every interrupt that it services to the keyboard or to the storage, if it is one of
theirs, and touches neither of them otherwise. Since a driver ignores what is not meant for it, this
is one equation: a service is what both drivers make of the interrupt. Scheduling, cycles and the
end of a process never get to a device.
-/
namespace Timeshare

/-- The keyboard looks at keys only. -/
theorem Keyboard.value_service_of_ne (k : Keyboard) {i : Interrupt} (h : ∀ key, i ≠ .keyboard key) :
    (k.service i).value = k := by
  unfold Keyboard.service
  split
  · split
    · exact absurd rfl (h _)
    · rfl
  · rfl

/-- The storage looks at disk requests only. -/
theorem Storage.value_service_of_ne (s : Storage) {i : Interrupt}
    (h : ∀ request, i ≠ .disk request) : (s.service i).value = s := by
  unfold Storage.service
  split
  · split
    · exact absurd rfl (h _)
    · exact absurd rfl (h _)
    · rfl
  · rfl

/-- Whether one of the drivers is meant. -/
def Interrupt.forDevice : Interrupt → Bool
  | .keyboard _ => true
  | .disk _ => true
  | _ => false

/-- Both devices. -/
structure Devices where
  keyboard : Keyboard
  storage : Storage

namespace Devices

/-- What both drivers make of an interrupt. -/
def serve (d : Devices) (i : Interrupt) : Devices :=
  ⟨(d.keyboard.service i).value, (d.storage.service i).value⟩

def serveAll (d : Devices) (batch : List Interrupt) : Devices := batch.foldl serve d

theorem serve_of_not_forDevice (d : Devices) {i : Interrupt} (h : i.forDevice = false) :
    d.serve i = d := by
  have hkey : ∀ key, i ≠ .keyboard key := by
    rintro key rfl
    cases h
  have hdisk : ∀ request, i ≠ .disk request := by
    rintro request rfl
    cases h
  rw [serve, d.keyboard.value_service_of_ne hkey, d.storage.value_service_of_ne hdisk]

end Devices

namespace Machine

open Traced

/-- The devices of a machine. -/
def devices (m : Machine) : Devices := ⟨m.keyboard, m.storage⟩

section

variable {m : Machine} {t : Traced Machine}

/-! ## What leaves the devices alone -/

theorem devices_switch {p : Process} (hc : m.current = some p) :
    m.switch.value.devices = m.devices := by
  cases switched hc with
  | alone _ _ h | rotate _ _ h | halt _ _ h | retire _ _ h =>
    rw [h]
    rfl

theorem devices_terminate {pid : Pid} (h : m.terminate pid = .ok t) :
    t.value.devices = m.devices := by
  rcases terminate_eq_ok h with ⟨p, -, -, rfl⟩ | ⟨p, before, after, -, -, -, -, hvalue, -⟩
  · rw [value_terminateCurrent]
    cases m.ready.toList <;> rfl
  · rw [hvalue]
    rfl

theorem devices_kill {pid : Pid} (h : m.kill pid = .ok t) : t.value.devices = m.devices := by
  obtain ⟨ended, hend, rfl⟩ := kill_eq_ok h
  have hended := devices_terminate hend
  exact hended

theorem devices_terminateRaiser (m : Machine) (pid : Pid) (kind : String) :
    (m.terminateRaiser pid kind).value.devices = m.devices := by
  unfold terminateRaiser
  split
  · rename_i hend
    exact devices_terminate hend
  · rfl

theorem devices_turnNow (m : Machine) : m.turnNow.value.devices = m.devices := by
  cases hc : m.current with
  | none =>
    rw [turnNow, hc]
    rfl
  | some p =>
    rw [value_turnNow hc]
    rfl

theorem devices_cycle (m : Machine) : m.cycle.value.devices = m.devices := by
  cases hc : m.current with
  | none =>
    rw [cycle, hc]
    rfl
  | some p =>
    rw [cycle_eq hc, value_bind, devices_turnNow]
    split
    · rw [value_switchAndShow, devices_switch hc]
    · rfl

/-! ## Services and ticks -/

/-- A service is what both drivers make of the interrupt. -/
theorem devices_service (m : Machine) (i : Interrupt) :
    (m.service i).value.devices = m.devices.serve i := by
  unfold service
  rw [value_bind]
  cases i with
  | keyboard key =>
    have hstorage := m.storage.value_service_of_ne (i := .keyboard key) (fun _ => nofun)
    rw [Devices.serve, show m.devices.storage = m.storage from rfl, hstorage]
    rfl
  | disk request =>
    have hkeyboard := m.keyboard.value_service_of_ne (i := .disk request) (fun _ => nofun)
    rw [Devices.serve, show m.devices.keyboard = m.keyboard from rfl, hkeyboard]
    rfl
  | timer =>
    rw [m.devices.serve_of_not_forDevice rfl]
    cases hc : m.current with
    | none => rfl
    | some p =>
      simp only [Option.isSome_some, Bool.true_and]
      split
      · exact devices_switch hc
      · rfl
  | sysCall pid accumulator x y =>
    rw [m.devices.serve_of_not_forDevice rfl]
    rfl
  | step =>
    rw [m.devices.serve_of_not_forDevice rfl]
    simp only
    split
    · exact m.devices_cycle
    · rfl
  | unknownOpcode pid opcode counter =>
    rw [m.devices.serve_of_not_forDevice rfl]
    exact m.devices_terminateRaiser pid _
  | memoryFault pid address =>
    rw [m.devices.serve_of_not_forDevice rfl]
    exact m.devices_terminateRaiser pid _
  | cpuBreak pid =>
    rw [m.devices.serve_of_not_forDevice rfl]
    exact m.devices_terminateRaiser pid _
  | kill pid =>
    rw [m.devices.serve_of_not_forDevice rfl]
    simp only
    split
    · rename_i hkill
      exact devices_kill hkill
    · rfl

theorem devices_serviceAll (m : Machine) (batch : List Interrupt) :
    (m.serviceAll batch).value.devices = m.devices.serveAll batch := by
  induction batch generalizing m with
  | nil => rfl
  | cons i batch ih =>
    rw [serviceAll_cons, value_bind, ih, devices_service]
    rfl

/-- A tick hands all that was pending to the drivers, in order. -/
theorem devices_tick (m : Machine) :
    m.tick.value.devices = m.devices.serveAll m.interrupts.pending.toList := by
  have hserved := m.awake.devices_serviceAll m.interrupts.pending.toList
  rw [tick_eq]
  simp only [value_bind]
  split
  · rw [devices_cycle, hserved]
    rfl
  · exact hserved

/-! ## Requests -/

theorem devices_run {pid : Pid} (h : m.run pid = .ok t) : t.value.devices = m.devices := by
  unfold run at h
  split at h
  · obtain rfl := Except.ok.inj h
    rfl
  · split at h
    · cases h
    · split at h
      · obtain rfl := Except.ok.inj h
        rfl
      · obtain rfl := Except.ok.inj h
        rfl

theorem devices_runAll (m : Machine) : m.runAll.value.devices = m.devices := by
  unfold runAll
  split
  · rfl
  · simp only
    split <;> rfl

end

end Machine

end Timeshare
