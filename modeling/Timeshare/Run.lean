import Timeshare.Batch
import Timeshare.Invocation
import Timeshare.SettingsText

/-!
# Runs

A run carries out an invocation: it finds the settings, builds the machine, loads the programs,
and then works them off as a batch or hands the machine to the shell. Options of the command line
win over the settings of a file.
-/
namespace Timeshare

namespace Failure

/-- What failed, and behind it what made it fail. -/
def chain : Failure → List String
  | reading path reason => s!"reading {path}" :: reason.chain
  | loading path reason => s!"loading {path}" :: reason.chain
  | refused reason => reason.chain
  | needsShell => ["single-step mode needs --interactive"]
  | shell reason => [reason]

/-- The lines for the causes of a failure. A cause that is not the only one has its number in
front. -/
def causeLines : List String → List String
  | [] => []
  | [cause] => ["", "Caused by:", s!"    {cause}"]
  | causes => "" :: "Caused by:" :: causes.mapIdx fun i cause => s!"    {i}: {cause}"

/-- What a failed run reports. -/
def report (f : Failure) : String :=
  match f.chain with
  | [] => ""
  | outer :: causes =>
    String.join ((s!"Error: {outer}" :: causeLines causes).map (· ++ "\n"))

end Failure

namespace Invocation

/-- The settings that an invocation asks for. -/
def settings (i : Invocation) (files : Files) : Except Failure Settings := do
  let s ← match i.config with
    | some path => (files.text path >>= SettingsText.parse).mapError (.reading path)
    | none => pure {}
  let policy ← match i.policy with
    | some name => (Policy.parse name).mapError .refused
    | none => pure s.policy
  if (s.singleStep || i.step) && !i.interactive then throw .needsShell
  return {
    policy
    quantum := i.quantum.getD s.quantum
    partitionSize := s.partitionSize
    partitions := s.partitions
    singleStep := s.singleStep || i.step
    maxTicks := i.maxTicks.getD s.maxTicks
    verbose := s.verbose || i.verbose }

end Invocation

/-- The console of a run. -/
def Settings.console (s : Settings) : Console Writer :=
  .ofStyle (if s.verbose then Frame.verbose else Frame.quiet)

/-- A run that has loaded its programs. -/
structure Run where
  settings : Settings
  session : Session Writer

namespace Run

/-- Starts an invocation. A failed start leaves what was written before. -/
def start (i : Invocation) (files : Files) : Except (Failure × Writer) Run := do
  let settings ← (i.settings files).mapError (·, {})
  let session ← (Session.boot settings.console settings {}).mapError (.refused ·, {})
  match session.loadFiles settings.console files i.programs with
  | (some failure, session) => throw (failure, session.screen)
  | (none, session) => return { settings, session }

/-- Works the programs off as a batch and shows what is left of them. -/
def batch (r : Run) : Writer :=
  let c := r.settings.console
  ((r.session.runBatch c r.settings.maxTicks).writeTable c).screen

/-- Hands the machine to the shell. -/
def shell (r : Run) (input : ByteArray) : Option Failure × Writer :=
  let (failure, session) := Shell.run r.settings.console r.session (Shell.linesOf input)
  (failure.map .shell, session.screen)

end Run

/-- Carries out an invocation: why it fails, if it does, and what it writes. -/
def Invocation.run (i : Invocation) (files : Files) (input : ByteArray) :
    Option Failure × Writer :=
  match Run.start i files with
  | .error (failure, writer) => (some failure, writer)
  | .ok r => if i.interactive then r.shell input else (none, r.batch)

end Timeshare
