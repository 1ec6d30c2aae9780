import Timeshare.Proofs.Following
import Timeshare.Shell

/-!
# Displays

A session shows the frames of its machine one after the other and goes on whatever the display
answers. Two sessions with the same machine therefore stay alike under all operations and commands,
each on a display of its own, and their screens keep every relation that showing a frame on both
keeps.

The operations in place call the display in the middle of their work and see what it answers. The
last result says of them that a display never feeds back.
-/
namespace Timeshare

variable {σ τ : Type}

/-- Showing the same frame on both consoles keeps the relation between their states. -/
def Console.Keeps (c : Console σ) (d : Console τ) (R : σ → τ → Prop) : Prop :=
  ∀ x y f, R x y → R (c.draw x f).2 (d.draw y f).2

/-- Trying a request is making it. -/
theorem Command.session_attempt (c : Console σ) (s : Session σ) (label : String) (r : Request) :
    (attempt c s label r).2 = (s.perform c r).2 := by
  unfold attempt
  split <;> rename_i hp <;> rw [hp]

namespace Session

/-- The machines are the same and the screens are related. -/
structure Alike (R : σ → τ → Prop) (s : Session σ) (s' : Session τ) : Prop where
  machine_eq : s'.machine = s.machine
  screen : R s.screen s'.screen

/-- An operation of a session: what it answers, and the session after it. -/
def operate (c : Console σ) (s : Session σ) : Operation → Response × Session σ
  | .ask r =>
    let (answer, s) := s.perform c r
    (.reply answer, s)
  | .settle limit =>
    let (count, s) := s.settle c limit
    (.ticks count, s)

section

variable {c : Console σ} {d : Console τ} {R : σ → τ → Prop} {s : Session σ} {s' : Session τ}

/-! ## Events -/

@[simp]
theorem screen_record (s : Session σ) (n : Notice) : (s.record n).screen = s.screen := by
  unfold record
  split
  · split <;> rfl
  · rfl

@[simp]
theorem screen_playEvent_notice (s : Session σ) (n : Notice) :
    (s.playEvent c (.notice n)).screen = s.screen := s.screen_record n

/-- A failure of the display is recorded, and the screen is what the display left. -/
@[simp]
theorem screen_playEvent_frame (s : Session σ) (f : Frame) :
    (s.playEvent c (.frame f)).screen = (c.draw s.screen f).2 := by
  simp only [playEvent]
  split
  · rename_i screen hdraw
    rw [hdraw]
  · rename_i reason screen hdraw
    rw [hdraw, screen_record]

theorem Alike.playEvent (hkeeps : c.Keeps d R) (h : Alike R s s') (event : Event) :
    Alike R (s.playEvent c event) (s'.playEvent d event) := by
  refine ⟨?_, ?_⟩
  · rw [machine_playEvent, machine_playEvent, h.machine_eq]
  · cases event with
    | notice n =>
      rw [screen_playEvent_notice, screen_playEvent_notice]
      exact h.screen
    | frame f =>
      rw [screen_playEvent_frame, screen_playEvent_frame]
      exact hkeeps _ _ f h.screen

theorem Alike.play (hkeeps : c.Keeps d R) (h : Alike R s s') (events : Array Event) :
    Alike R (s.play c events) (s'.play d events) := by
  rw [Session.play, Session.play, ← Array.foldl_toList, ← Array.foldl_toList]
  induction events.toList generalizing s s' with
  | nil => exact h
  | cons event events ih => exact ih (h.playEvent hkeeps event)

/-! ## Requests and ticks -/

theorem Alike.follow (hkeeps : c.Keeps d R) (h : Alike R s s') (next : Traced Machine) :
    Alike R (s.follow c next) (s'.follow d next) := by
  have hmoved : Alike R { s with machine := next.value } { s' with machine := next.value } :=
    ⟨rfl, h.screen⟩
  exact hmoved.play hkeeps next.events

theorem Alike.perform (hkeeps : c.Keeps d R) (h : Alike R s s') (r : Request) :
    (s'.perform d r).1 = (s.perform c r).1 ∧ Alike R (s.perform c r).2 (s'.perform d r).2 := by
  simp only [Session.perform, h.machine_eq]
  cases s.machine.perform r with
  | error reason => exact ⟨rfl, h⟩
  | ok outcome => exact ⟨rfl, h.follow hkeeps _⟩

theorem Alike.act (hkeeps : c.Keeps d R) (h : Alike R s s') (r : Request) :
    Alike R (s.act c r) (s'.act d r) := (h.perform hkeeps r).2

theorem Alike.ticks (hkeeps : c.Keeps d R) (h : Alike R s s') (n : Nat) :
    Alike R (s.ticks c n) (s'.ticks d n) := by
  induction n generalizing s s' with
  | zero => exact h
  | succ n ih =>
    rw [Session.ticks, Session.ticks, h.machine_eq]
    exact ih (h.follow hkeeps _)

/-! ## Commands -/

theorem Alike.actAll (hkeeps : c.Keeps d R) (h : Alike R s s') (rs : List Request) :
    Alike R (Command.actAll c s rs) (Command.actAll d s' rs) := by
  induction rs generalizing s s' with
  | nil => exact h
  | cons r rs ih => exact ih (h.act hkeeps r)

theorem Alike.attempt (hkeeps : c.Keeps d R) (h : Alike R s s') (label : String) (r : Request) :
    (Command.attempt d s' label r).1 = (Command.attempt c s label r).1 ∧
      Alike R (Command.attempt c s label r).2 (Command.attempt d s' label r).2 := by
  obtain ⟨hanswer, hnext⟩ := h.perform hkeeps r
  unfold Command.attempt
  generalize s.perform c r = x, s'.perform d r = y at hanswer hnext
  obtain ⟨answer, t⟩ := x
  obtain ⟨answer', t'⟩ := y
  obtain rfl : answer' = answer := hanswer
  cases answer' with
  | error reason => exact ⟨rfl, hnext⟩
  | ok reply => cases reply <;> exact ⟨rfl, hnext⟩

/-- A command answers the same on any display. -/
theorem Alike.execute (hkeeps : c.Keeps d R) (h : Alike R s s') (command : Command) :
    (command.execute d s').1 = (command.execute c s).1 ∧
      Alike R (command.execute c s).2 (command.execute d s').2 := by
  cases command with
  | run | quantum | kill | input => exact h.attempt hkeeps _ _
  | runAll | step | stepMode | timer | format =>
    simp only [Command.execute]
    exact ⟨trivial, h.act hkeeps _⟩
  | tick count => exact ⟨rfl, h.ticks hkeeps count⟩
  | key text => exact ⟨rfl, h.actAll hkeeps _⟩
  -- what follows an argument that may be wrong
  | load program =>
    simp only [Command.execute]
    split
    · exact h.attempt hkeeps _ _
    · exact ⟨rfl, h⟩
  | policy | diskWrite =>
    simp only [Command.execute]
    split
    · exact ⟨rfl, h.act hkeeps _⟩
    · exact ⟨rfl, h⟩
  -- what is read off the machine
  | diskRead | memory | processes =>
    simp only [Command.execute, h.machine_eq]
    exact ⟨trivial, h⟩
  | _ => exact ⟨rfl, h⟩

end

end Session

namespace InPlace

/-- **The display never feeds back.** Two machines that are built from the same settings answer the
same to every call and are the same after it, each with a display of its own that is called in the
middle of the work and may fail at any frame. If one of them cannot be built, neither can the
other, for the same reason. Calls in place answer what the traced machine answers, which knows no
display. -/
theorem display_feeds_nothing_back (c : Console σ) (d : Console τ) (settings : Settings)
    (screen : σ) (screen' : τ) (threshold threshold' : Option Level) (calls : List Call) :
    (Session.boot d settings screen' threshold').map (fun s => (s.machine, callAll d s calls)) =
      (Session.boot c settings screen threshold).map (fun s => (s.machine, callAll c s calls)) ∧
    ∀ s : Session σ, callAll c s calls = s.machine.callAll calls := by
  refine ⟨?_, fun s => callAll_eq c s calls⟩
  unfold Session.boot
  cases Machine.boot settings with
  | error reason => rfl
  | ok booted =>
    refine congrArg Except.ok (Prod.ext ?_ ?_)
    · simp only [Session.machine_play]
    · simp only [callAll_eq, Session.machine_play]

end InPlace

end Timeshare
