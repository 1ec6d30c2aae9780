import Timeshare.ProgramText
import Timeshare.Shell

/-!
# Batches

A batch loads programs from files, starts all of them, and lets the machine tick until it is idle
or a number of ticks is spent. The first file that fails ends the loading.
-/
namespace Timeshare

/-- The bytes of the file at a path, or why there are none. -/
abbrev Files := String → Except String ByteArray

/-- The text of a file. -/
def Files.text (files : Files) (path : String) : Except Error String :=
  match files path with
  | .error reason => .error (.failedIO reason)
  | .ok bytes =>
    match String.fromUTF8? bytes with
    | some text => .ok text
    | none => .error (.failedIO Shell.notText)

/-- The program that a file holds. -/
def Files.program (files : Files) (path : String) : Except Error (List UInt8) := do
  ProgramText.parse (← files.text path)

/-- Why a run fails. -/
inductive Failure where
  | reading (path : String) (reason : Error)
  | loading (path : String) (reason : Error)
  | refused (reason : Error)
  /-- Single-step mode without a shell, in which nothing would ever run. -/
  | needsShell
  | shell (reason : ShellFailure)
deriving DecidableEq, Repr, Inhabited

namespace Session

variable {σ : Type}

/-- Loads a program. A refused one changes nothing. -/
def load (c : Console σ) (s : Session σ) (program : List UInt8) : Except Error Pid × Session σ :=
  match s.machine.load program with
  | .error reason => (.error reason, s)
  | .ok loaded => (.ok loaded.value.1, s.follow c (Prod.snd <$> loaded))

/-- Loads the programs of files in order and writes a line for each. -/
def loadFiles (c : Console σ) (files : Files) (s : Session σ) :
    List String → Option Failure × Session σ
  | [] => (none, s)
  | path :: rest =>
    match files.program path with
    | .error reason => (some (.reading path reason), s)
    | .ok program =>
      match s.load c program with
      | (.error reason, s) => (some (.loading path reason), s)
      | (.ok pid, s) =>
        let (_, s) := Shell.write c s s!"{path} -> pid {pid}\n"
        loadFiles c files s rest

/-- Starts every process and ticks until the machine is idle, at most `maxTicks` times. -/
def runBatch (c : Console σ) (maxTicks : Nat) (s : Session σ) : Session σ :=
  ((s.act c .runAll).settle c maxTicks).2

/-- Writes the process table behind an empty line. -/
def writeTable (c : Console σ) (s : Session σ) : Session σ :=
  (Shell.write c s ("\n" ++ processTable s.machine.processes)).2

end Session

end Timeshare
