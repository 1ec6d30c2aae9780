import Timeshare.Proofs.Runs

/-!
# What can be seen of a run

The display sees frames, in order, and whoever asks gets an answer. Notices are for the log and are
left out here. `Machine.observeAll` lists for each operation of a run what it answers, what it shows
and the machine that it leaves.
-/
namespace Timeshare

def Event.frame? : Event → Option Frame
  | .frame f => some f
  | .notice _ => none

/-- The text that a frame prints. -/
def Frame.text? : Frame → Option String
  | .print text => some text
  | _ => none

namespace Traced

variable {α β : Type}

/-- The calls of the display, in order. -/
def frames (x : Traced α) : List Frame := x.events.toList.filterMap Event.frame?

/-- The printed texts, in order. -/
def texts (x : Traced α) : List String := x.frames.filterMap Frame.text?

@[simp]
theorem frames_pure (a : α) : (pure a : Traced α).frames = [] := rfl

@[simp]
theorem frames_bind (x : Traced α) (f : α → Traced β) :
    (x >>= f).frames = x.frames ++ (f x.value).frames := by
  rw [frames, events_bind, Array.toList_append, List.filterMap_append]
  rfl

@[simp]
theorem frames_map (f : α → β) (x : Traced α) : (f <$> x).frames = x.frames := by
  rw [frames, events_map]
  rfl

@[simp]
theorem frames_report (n : Notice) : (report n).frames = [] := rfl

@[simp]
theorem frames_present (f : Frame) : (present f).frames = [f] := rfl

@[simp]
theorem frames_ran (t : Turn) : (ran t).frames = [] := rfl

@[simp]
theorem texts_pure (a : α) : (pure a : Traced α).texts = [] := rfl

@[simp]
theorem texts_bind (x : Traced α) (f : α → Traced β) :
    (x >>= f).texts = x.texts ++ (f x.value).texts := by
  rw [texts, frames_bind, List.filterMap_append]
  rfl

@[simp]
theorem texts_map (f : α → β) (x : Traced α) : (f <$> x).texts = x.texts := by
  rw [texts, frames_map]
  rfl

@[simp]
theorem texts_report (n : Notice) : (report n).texts = [] := rfl

@[simp]
theorem texts_print (text : String) : (present (.print text)).texts = [text] := rfl

end Traced

/-- What an operation answers: a request its reply or its error, a settling the number of its
ticks. -/
inductive Response where
  | reply (reply : Except Error Reply)
  | ticks (count : Nat)

/-- What is seen of one operation. -/
structure Observation where
  answer : Response
  frames : List Frame
  machine : Machine

namespace Machine

/-- What is seen of an operation. A refused one shows and changes nothing. -/
def observe (m : Machine) : Operation → Observation
  | .ask r =>
    match m.perform r with
    | .ok outcome => ⟨.reply (.ok outcome.value.1), outcome.frames, outcome.value.2⟩
    | .error reason => ⟨.reply (.error reason), [], m⟩
  | .settle limit =>
    let outcome := m.settle limit
    ⟨.ticks outcome.value.1, outcome.frames, outcome.value.2⟩

/-- What is seen of operations one after the other. -/
def observeAll (m : Machine) : List Operation → List Observation
  | [] => []
  | op :: ops => m.observe op :: (m.observe op).machine.observeAll ops

/-! ## What is shown -/

open Traced

theorem frames_showRegisters (m : Machine) :
    m.showRegisters.frames = [.registers m.processor.registers m.processor.executing] := rfl

theorem frames_showAll (m : Machine) :
    m.showAll.frames =
      [.registers m.processor.registers m.processor.executing, .processes m.processes] := rfl

@[simp]
theorem frames_release (k : Kernel) (p : Process) : (k.release p).frames = [] := rfl

/-- A switch shows nothing by itself. -/
@[simp]
theorem frames_switch (m : Machine) : m.switch.frames = [] := by
  have hdisplace : ∀ (m : Machine) (next : Pid), (m.displace next).frames = [] := by
    intro m next
    unfold displace
    split
    · rfl
    · split <;> simp
  have hhalt : ∀ m : Machine, m.halt.frames = [] := by
    intro m
    unfold halt
    split <;> simp
  unfold switch
  split
  · simp [hdisplace]
  · split
    · exact hhalt m
    · rfl

theorem frames_switchAndShow (m : Machine) :
    m.switchAndShow.frames = m.switchAndShow.value.showAll.frames := by
  simp [switchAndShow, frames_showAll]

@[simp]
theorem frames_processorCycle (c : Processor) (p : Process) (memory : Memory) :
    (c.cycle p memory).frames = [] := by
  unfold Processor.cycle
  simp only
  split
  · rfl
  · split <;> rfl

/-- A cycle shows the registers that it leaves. -/
theorem frames_turnNow {m : Machine} {p : Process} (hc : m.current = some p) :
    m.turnNow.frames = m.turnNow.value.showRegisters.frames := by
  unfold turnNow
  simp [Kernel.cycle, hc, frames_showRegisters]

@[simp]
theorem frames_keyboardService (k : Keyboard) (i : Interrupt) : (k.service i).frames = [] := by
  unfold Keyboard.service
  split
  · split <;> rfl
  · rfl

@[simp]
theorem frames_storageService (s : Storage) (i : Interrupt) : (s.service i).frames = [] := by
  unfold Storage.service
  split
  · split
    · rfl
    · split <;> rfl
    · rfl
  · rfl

/-! ## Observers -/

/-- An observer sees the machines of the run. -/
theorem machine_observe (m : Machine) (op : Operation) :
    (m.observe op).machine = (m.after op).value := by
  cases op with
  | settle limit => rfl
  | ask r =>
    rw [observe, after]
    cases m.perform r <;> rfl

end Machine

end Timeshare
