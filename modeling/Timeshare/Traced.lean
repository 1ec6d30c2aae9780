import Timeshare.Notice

/-!
# Traced computations

The machine computes a next state and, beside it, what there is to show and to report. Showing is
left to whoever runs the machine, so that nothing a display does can reach the state. The trace of
a computation also says which processes it gave the processor to, cycle by cycle.
-/
namespace Timeshare

/-- One call of the display. -/
inductive Frame where
  | registers (registers : Registers) (executing : Bool)
  | processes (processes : List Process)
  | print (text : String)
deriving Repr, Inhabited

/-- Something to report or to show. -/
inductive Event where
  | notice (notice : Notice)
  | frame (frame : Frame)
deriving Repr, Inhabited

/-- A cycle that was run: whose it was, and the interrupt that it raised. -/
structure Turn where
  pid : Pid
  raised : Option Interrupt := none
deriving DecidableEq, Repr, Inhabited

/-- What happened on the way to a value, the first one first: the events, and the cycles that were
run. Cycles are neither shown nor reported. -/
structure Trace where
  events : Array Event := #[]
  turns : List Turn := []
deriving Inhabited

instance : Coe (Array Event) Trace := ⟨fun events => { events }⟩

instance : Append Trace := ⟨fun s t => ⟨s.events ++ t.events, s.turns ++ t.turns⟩⟩

/-- A value and what happened on the way to it. -/
structure Traced (α : Type) where
  value : α
  trace : Trace := {}
deriving Inhabited

namespace Traced

variable {α β : Type}

def events (x : Traced α) : Array Event := x.trace.events

def turns (x : Traced α) : List Turn := x.trace.turns

instance : Monad Traced where
  pure value := { value }
  bind x f := match x with
    | ⟨a, before⟩ => match f a with
      | ⟨b, after⟩ => ⟨b, before ++ after⟩

/-- Reports a notice. -/
def report (n : Notice) : Traced Unit := ⟨(), #[Event.notice n]⟩

/-- Shows a frame. -/
def present (f : Frame) : Traced Unit := ⟨(), #[Event.frame f]⟩

/-- Notes a cycle. -/
def ran (t : Turn) : Traced Unit := ⟨(), { turns := [t] }⟩

@[simp]
theorem value_pure (a : α) : (pure a : Traced α).value = a := rfl

@[simp]
theorem events_pure (a : α) : (pure a : Traced α).events = #[] := rfl

@[simp]
theorem turns_pure (a : α) : (pure a : Traced α).turns = [] := rfl

@[simp]
theorem value_bind (x : Traced α) (f : α → Traced β) : (x >>= f).value = (f x.value).value := rfl

@[simp]
theorem events_bind (x : Traced α) (f : α → Traced β) :
    (x >>= f).events = x.events ++ (f x.value).events := rfl

@[simp]
theorem turns_bind (x : Traced α) (f : α → Traced β) :
    (x >>= f).turns = x.turns ++ (f x.value).turns := rfl

@[ext]
theorem ext {x y : Traced α} (hv : x.value = y.value) (he : x.events = y.events)
    (ht : x.turns = y.turns) : x = y := by
  obtain ⟨_, _, _⟩ := x
  obtain ⟨_, _, _⟩ := y
  simp_all [events, turns]

instance : LawfulMonad Traced :=
  LawfulMonad.mk' Traced
    (fun x => by
      apply ext
      · rfl
      · exact Array.append_empty
      · exact List.append_nil _)
    (fun a f => by apply ext <;> simp)
    (fun x f g => by apply ext <;> simp [Array.append_assoc])

@[simp]
theorem value_map (f : α → β) (x : Traced α) : (f <$> x).value = f x.value := rfl

@[simp]
theorem events_map (f : α → β) (x : Traced α) : (f <$> x).events = x.events := by
  rw [← bind_pure_comp]; exact Array.append_empty

@[simp]
theorem turns_map (f : α → β) (x : Traced α) : (f <$> x).turns = x.turns := by
  rw [← bind_pure_comp]; exact List.append_nil _

@[simp]
theorem events_report (n : Notice) : (report n).events = #[.notice n] := rfl

@[simp]
theorem turns_report (n : Notice) : (report n).turns = [] := rfl

@[simp]
theorem events_present (f : Frame) : (present f).events = #[.frame f] := rfl

@[simp]
theorem turns_present (f : Frame) : (present f).turns = [] := rfl

@[simp]
theorem events_ran (t : Turn) : (ran t).events = #[] := rfl

@[simp]
theorem turns_ran (t : Turn) : (ran t).turns = [t] := rfl

end Traced

end Timeshare
