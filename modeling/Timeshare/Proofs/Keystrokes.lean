import Timeshare.Proofs.Devices
import Timeshare.Proofs.Displays
import Timeshare.Proofs.Ticks

/-!
# Keystrokes

What is typed waits in two places before it is read: as an interrupt in the queue, and from the next
tick on as a character in the buffer of the keyboard. Read in this order, the characters of both are
what is unread of a machine, and they are accounted for like goods in a store: `Machine.Keeps` says
that what was there and what came in is what went out and what is there. A tick moves characters
from the queue to the buffer and leaves the account as it is.

The books are kept over all activities of a session, operations and commands of the shell alike.
-/
namespace Timeshare

/-- The character that an interrupt types. -/
def Interrupt.key? : Interrupt → Option Char
  | .keyboard key => some key
  | _ => none

/-- The characters that interrupts type. -/
def typedIn (batch : List Interrupt) : List Char := batch.filterMap Interrupt.key?

theorem typedIn_append (batch batch' : List Interrupt) :
    typedIn (batch ++ batch') = typedIn batch ++ typedIn batch' := List.filterMap_append

/-- Whether a request asks for what was typed. -/
def Request.reads : Request → Bool
  | .takeInput => true
  | _ => false

/-- The text that was read from the keyboard. -/
def Reply.read : Reply → List Char
  | .text line => line.toList
  | _ => []

namespace Keyboard

/-- A keyboard with its driver puts every character behind the others. -/
theorem value_service_of_loaded {k : Keyboard} (h : k.loaded = true) (i : Interrupt) :
    (k.service i).value.loaded = true ∧
      (k.service i).value.buffer.toList = k.buffer.toList ++ typedIn [i] := by
  unfold service
  rw [if_pos h]
  cases i with
  | keyboard key => exact ⟨h, String.toList_push key⟩
  | _ => exact ⟨h, (List.append_nil _).symm⟩

end Keyboard

theorem Devices.buffer_serveAll {d : Devices} (h : d.keyboard.loaded = true)
    (batch : List Interrupt) :
    (d.serveAll batch).keyboard.loaded = true ∧
      (d.serveAll batch).keyboard.buffer.toList = d.keyboard.buffer.toList ++ typedIn batch := by
  induction batch generalizing d with
  | nil => exact ⟨h, (List.append_nil _).symm⟩
  | cons i batch ih =>
    obtain ⟨hloaded, hbuffer⟩ := d.keyboard.value_service_of_loaded h i
    obtain ⟨hloaded', hbuffer'⟩ := ih (d := d.serve i) hloaded
    refine ⟨hloaded', hbuffer'.trans ?_⟩
    rw [← List.singleton_append, typedIn_append, ← List.append_assoc, ← hbuffer]
    rfl

namespace Machine

open Traced

/-- What was typed and is not read yet: the buffer, then what is still in the queue. -/
def unread (m : Machine) : List Char :=
  m.keyboard.buffer.toList ++ typedIn m.interrupts.pending.toList

/-- From `m` to `m'`, what comes in goes out or is there, in order. -/
structure Keeps (m : Machine) (input output : List Char) (m' : Machine) : Prop where
  loaded : m'.keyboard.loaded = true
  balance : m.unread ++ input = output ++ m'.unread

section

variable {m m₁ m' : Machine} {input input' output output' : List Char}

theorem Keeps.refl (h : m.keyboard.loaded = true) : m.Keeps [] [] m :=
  ⟨h, List.append_nil _⟩

theorem Keeps.trans (h : m.Keeps input output m₁) (h' : m₁.Keeps input' output' m') :
    m.Keeps (input ++ input') (output ++ output') m' where
  loaded := h'.loaded
  balance := by
    rw [← List.append_assoc, h.balance, List.append_assoc, h'.balance, List.append_assoc]

/-- Neither the devices nor the keys in the queue are touched. -/
theorem keeps_of_eq {raised : List Interrupt} (h : m.keyboard.loaded = true)
    (hdevices : m'.devices = m.devices)
    (hpending : m'.interrupts.pending.toList = m.interrupts.pending.toList ++ raised)
    (hraised : typedIn raised = input) : m.Keeps input [] m' := by
  have hkeyboard : m'.keyboard = m.keyboard := congrArg Devices.keyboard hdevices
  constructor
  · rw [hkeyboard]
    exact h
  · rw [unread, unread, hkeyboard, hpending, typedIn_append, hraised, List.append_assoc,
      List.nil_append]

/-- A tick moves the characters in the queue to the end of the buffer. -/
theorem keeps_tick (h : m.keyboard.loaded = true) : m.Keeps [] [] m.tick.value := by
  obtain ⟨hloaded, hbuffer⟩ :=
    m.devices.buffer_serveAll h m.interrupts.pending.toList
  rw [← devices_tick] at hloaded hbuffer
  have hnothing : typedIn m.tick.value.interrupts.pending.toList = [] :=
    m.filterMap_pending_tick fun _ trap => by cases trap <;> rfl
  constructor
  · exact hloaded
  · show m.unread ++ [] = [] ++ (m.tick.value.devices.keyboard.buffer.toList ++ _)
    rw [hbuffer, hnothing, List.append_nil, List.append_nil]
    rfl

theorem keeps_settle (h : m.keyboard.loaded = true) (n : Nat) :
    m.Keeps [] [] (m.settle n).value.2 := by
  induction n generalizing m with
  | zero => exact .refl h
  | succ n ih =>
    rw [settle]
    split
    · exact .refl h
    · have hticked := keeps_tick h
      exact hticked.trans (ih hticked.loaded)

/-- Only who asks for the input gets a text. -/
theorem read_perform {r : Request} {t : Traced (Reply × Machine)} (hr : r.reads = false)
    (h : m.perform r = .ok t) : t.value.1.read = [] := by
  cases performed h with
  | takeInput => cases hr
  | _ => rfl

/-- Between ticks the devices are left alone, unless the keyboard is read. -/
theorem devices_between {r : Request} {t : Traced (Reply × Machine)} (htick : r.takesTick = false)
    (hread : r.reads = false) (h : m.perform r = .ok t) : t.value.2.devices = m.devices := by
  cases performed h with
  | takeInput => cases hread
  | step => cases htick
  | tick => cases htick
  | load hload =>
    obtain ⟨-, -, partition, hloaded⟩ := load_eq_ok hload
    rw [value_map, hloaded.machine_eq]
    rfl
  | run hrun => exact devices_run hrun
  | runAll => exact m.devices_runAll
  | kill hkill => exact devices_kill hkill
  | _ => rfl

/-- Between ticks the storage is left alone. -/
theorem storage_between {r : Request} {t : Traced (Reply × Machine)} (htick : r.takesTick = false)
    (h : m.perform r = .ok t) : t.value.2.storage = m.storage := by
  cases hread : r.reads with
  | false => exact congrArg Devices.storage (devices_between htick hread h)
  | true =>
    cases performed h with
    | takeInput => rfl
    | _ => cases hread

/-- What a request types is what it raises, and what it reads is its reply. -/
theorem keeps_perform (h : m.keyboard.loaded = true) {r : Request} {t : Traced (Reply × Machine)}
    (hr : m.perform r = .ok t) : m.Keeps (typedIn r.raises) t.value.1.read t.value.2 := by
  cases htick : r.takesTick with
  | true =>
    cases performed hr with
    | tick => exact keeps_tick h
    | step =>
      have hraised : m.Keeps [] [] (m.interrupt .step) :=
        keeps_of_eq h rfl Array.toList_push rfl
      exact hraised.trans (keeps_tick h)
    | _ => cases htick
  | false =>
    cases hread : r.reads with
    | true =>
      cases performed hr with
      | takeInput =>
        constructor
        · exact h
        · exact List.append_nil _
      | _ => cases hread
    | false =>
      obtain ⟨-, hpending⟩ := perform_between htick hr
      rw [read_perform hread hr]
      exact keeps_of_eq h (devices_between htick hread hr) hpending rfl

end

end Machine

/-! ## Activities of a session -/

/-- Something that is done with a session: an operation, or a command of the shell. -/
inductive Activity where
  | operation (op : Operation)
  | command (command : Command)

/-- The characters that an activity types. -/
def Activity.typed : Activity → List Char
  | .operation (.ask r) => typedIn r.raises
  | .operation (.settle _) => []
  | .command (.key text) => text.toList
  | .command _ => []

namespace Session

variable {σ : Type}

/-- The session after an activity. -/
def carryOut (c : Console σ) (s : Session σ) : Activity → Session σ
  | .operation op => (s.operate c op).2
  | .command command => (command.execute c s).2

/-- The characters that an activity reads from the keyboard. The shell shows them with a line feed
behind. -/
def readBy (c : Console σ) (s : Session σ) : Activity → List Char
  | .operation op =>
    match (s.operate c op).1 with
    | .reply (.ok reply) => reply.read
    | _ => []
  | .command .input => (Command.input.execute c s).1.text.toList.dropLast
  | .command _ => []

/-- The session after activities, one after the other. -/
def carryOutAll (c : Console σ) (s : Session σ) (activities : List Activity) : Session σ :=
  activities.foldl (carryOut c) s

/-- The characters that activities read, in order. -/
def readIn (c : Console σ) (s : Session σ) : List Activity → List Char
  | [] => []
  | activity :: activities =>
    s.readBy c activity ++ (s.carryOut c activity).readIn c activities

section

variable (c : Console σ) {s : Session σ}

/-- What a session reads by a request is the reply. -/
theorem keeps_performed (h : s.machine.keyboard.loaded = true) (r : Request) :
    s.machine.Keeps (typedIn r.raises)
      (match (s.perform c r).1 with
        | .ok reply => reply.read
        | .error _ => [])
      (s.perform c r).2.machine := by
  unfold perform
  cases hr : s.machine.perform r with
  | error reason =>
    -- only what is not for the keyboard can be refused
    have hnothing : typedIn r.raises = [] := by
      cases r with
      | interrupt i => cases hr
      | _ => rfl
    rw [hnothing]
    exact .refl h
  | ok outcome =>
    rw [machine_follow]
    exact Machine.keeps_perform h hr

theorem keeps_act (h : s.machine.keyboard.loaded = true) (r : Request) (hr : r.reads = false) :
    s.machine.Keeps (typedIn r.raises) [] (s.act c r).machine := by
  have hkeeps := keeps_performed c h r
  have hquiet : (match (s.perform c r).1 with
      | .ok reply => reply.read
      | .error _ => []) = [] := by
    unfold perform
    cases hp : s.machine.perform r with
    | error reason => rfl
    | ok outcome => exact Machine.read_perform hr hp
  rw [hquiet] at hkeeps
  exact hkeeps

theorem keeps_operated (h : s.machine.keyboard.loaded = true) (op : Operation) :
    s.machine.Keeps (Activity.operation op).typed (s.readBy c (.operation op))
      (s.operate c op).2.machine := by
  cases op with
  | ask r =>
    have hkeeps := keeps_performed c h r
    simp only [readBy, operate]
    cases hp : (s.perform c r).1 with
    | error reason =>
      rw [hp] at hkeeps
      exact hkeeps
    | ok reply =>
      rw [hp] at hkeeps
      exact hkeeps
  | settle limit =>
    show s.machine.Keeps [] [] (s.settle c limit).2.machine
    rw [(s.settle_eq c limit).2]
    exact Machine.keeps_settle h limit

theorem keeps_ticks (h : s.machine.keyboard.loaded = true) (n : Nat) :
    s.machine.Keeps [] [] (s.ticks c n).machine := by
  induction n generalizing s with
  | zero => exact .refl h
  | succ n ih =>
    have hticked : s.machine.Keeps [] [] (s.follow c s.machine.tick).machine := by
      rw [machine_follow]
      exact Machine.keeps_tick h
    exact hticked.trans (ih hticked.loaded)

/-- The characters of a text are typed one after the other. -/
theorem keeps_typing (h : s.machine.keyboard.loaded = true) (keys : List Char) :
    s.machine.Keeps keys []
      (Command.actAll c s (keys.map fun key => .interrupt (.keyboard key))).machine := by
  induction keys generalizing s with
  | nil => exact .refl h
  | cons key keys ih =>
    have htyped : s.machine.Keeps [key] [] (s.act c (.interrupt (.keyboard key))).machine :=
      keeps_act c h (.interrupt (.keyboard key)) rfl
    exact htyped.trans (ih htyped.loaded)

/-- A command other than the reading one reads nothing. -/
theorem keeps_executed (h : s.machine.keyboard.loaded = true) (command : Command) :
    s.machine.Keeps (Activity.command command).typed (s.readBy c (.command command))
      (command.execute c s).2.machine := by
  cases command with
  | input =>
    have hread : s.readBy c (.command .input) = s.machine.keyboard.buffer.toList := by
      show (s.machine.keyboard.buffer ++ "\n").toList.dropLast = _
      rw [String.toList_append]
      exact List.dropLast_concat
    rw [hread, Command.execute, Command.session_attempt]
    exact keeps_performed c h .takeInput
  | key text => exact keeps_typing c h text.toList
  | tick count => exact keeps_ticks c h count
  | run pid =>
    rw [Command.execute, Command.session_attempt]
    exact keeps_act c h (.run pid) rfl
  | quantum cycles =>
    rw [Command.execute, Command.session_attempt]
    exact keeps_act c h (.setQuantum cycles) rfl
  | kill pid =>
    rw [Command.execute, Command.session_attempt]
    exact keeps_act c h (.requestKill pid) rfl
  | runAll => exact keeps_act c h .runAll rfl
  | step => exact keeps_act c h .step rfl
  | stepMode enabled => exact keeps_act c h (.setSingleStep enabled) rfl
  | timer => exact keeps_act c h (.interrupt .timer) rfl
  | format => exact keeps_act c h (.interrupt (.disk .format)) rfl
  -- what follows an argument that may be wrong
  | load program =>
    simp only [Command.execute]
    split
    · rename_i bytes _
      rw [Command.session_attempt]
      exact keeps_act c h (.load bytes) rfl
    · exact .refl h
  | policy name =>
    simp only [Command.execute]
    split
    · rename_i policy _
      exact keeps_act c h (.setPolicy policy) rfl
    · exact .refl h
  | diskWrite place text =>
    simp only [Command.execute]
    split
    · rename_i bytes _
      exact keeps_act c h (.interrupt (.disk (.write place bytes))) rfl
    · exact .refl h
  | _ => exact .refl h

theorem keeps_carryOut (h : s.machine.keyboard.loaded = true) (activity : Activity) :
    s.machine.Keeps activity.typed (s.readBy c activity) (s.carryOut c activity).machine := by
  cases activity with
  | operation op => exact keeps_operated c h op
  | command command => exact keeps_executed c h command

theorem keeps_carryOutAll (h : s.machine.keyboard.loaded = true) (activities : List Activity) :
    s.machine.Keeps (activities.flatMap Activity.typed) (s.readIn c activities)
      (s.carryOutAll c activities).machine := by
  induction activities generalizing s with
  | nil => exact .refl h
  | cons activity activities ih =>
    have hfirst := keeps_carryOut c h activity
    exact hfirst.trans (ih hfirst.loaded)

end

/-- **No keystroke is lost, duplicated or reordered.** Whatever is done with a machine since it was
switched on, by operations and commands in any order, the characters that were read, those in the
buffer of the keyboard and those in the queue are together the characters that were typed. -/
theorem keystrokes_kept {c : Console σ} {settings : Settings} {screen : σ}
    {threshold : Option Level} {s : Session σ}
    (hboot : boot c settings screen threshold = .ok s) (activities : List Activity) :
    let m := (s.carryOutAll c activities).machine
    s.readIn c activities ++ m.keyboard.buffer.toList ++ typedIn m.interrupts.pending.toList =
      activities.flatMap Activity.typed := by
  intro m
  have hstart := (booted_of_boot c hboot).machine_eq
  have hloaded : s.machine.keyboard.loaded = true := by
    rw [hstart]
    rfl
  have hnothing : s.machine.unread = [] := by
    rw [hstart]
    rfl
  have hbalance := (keeps_carryOutAll c hloaded activities).balance
  rw [hnothing, List.nil_append] at hbalance
  rw [hbalance, Machine.unread, List.append_assoc]

/-- Two characters that were read, one in the buffer and one in the queue. -/
theorem keystrokes_kept_small :
    let c : Console Unit := { draw := fun u _ => (none, u), write := fun u _ => (none, u) }
    let s : Session Unit := { machine := Machine.small.value, screen := () }
    let activities : List Activity := [.command (.key "ab"), .operation (.ask .tick),
      .command (.key "c"), .command .input, .operation (.settle 3),
      .operation (.ask (.interrupt (.keyboard 'd')))]
    let m := (s.carryOutAll c activities).machine
    boot c Machine.smallSettings () none = .ok s ∧ s.readIn c activities = ['a', 'b'] ∧
      m.keyboard.buffer.toList = ['c'] ∧ typedIn m.interrupts.pending.toList = ['d'] ∧
      ['a', 'b'] ++ ['c'] ++ ['d'] = activities.flatMap Activity.typed := by
  intro c s activities m
  have hboot : boot c Machine.smallSettings () none = .ok s := rfl
  have hread : s.readIn c activities = ['a', 'b'] := by decide +kernel
  have hbuffer : m.keyboard.buffer.toList = ['c'] := by decide +kernel
  have hqueue : typedIn m.interrupts.pending.toList = ['d'] := by decide +kernel
  have hkept := keystrokes_kept hboot activities
  refine ⟨hboot, hread, hbuffer, hqueue, ?_⟩
  rw [← hread, ← hbuffer, ← hqueue]
  exact hkept

end Session

end Timeshare
