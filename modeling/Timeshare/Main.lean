import Timeshare.Run

/-!
# The program

Reads the files that the command line names, and carries the invocation out. With a shell on it,
input is read line by line, so that every command is answered before the next one is typed.
-/
namespace Timeshare

/-- Why a file cannot be read, in the words and with the number of the operating system. -/
def reasonOf : IO.Error → String
  | .noFileOrDirectory .. => "No such file or directory (os error 2)"
  | .permissionDenied .. => "Permission denied (os error 13)"
  | .inappropriateType _ 21 _ => "Is a directory (os error 21)"
  | .inappropriateType .. => "Not a directory (os error 20)"
  | e => toString e

/-- The contents of the file at a path. -/
def readFile (path : String) : IO (String × Except String ByteArray) := do
  try
    return (path, .ok (← IO.FS.readBinFile path))
  catch e =>
    return (path, .error (reasonOf e))

/-- Writes out what is written so far. -/
def flush (w : Writer) : IO Writer := do
  let output ← IO.getStdout
  output.write w.written
  output.flush
  return { w with written := .empty }

/-- The next line, without its line feed. -/
partial def nextLine (input : IO.FS.Stream) (line : ByteArray := .empty) :
    IO (Option ByteArray) := do
  let next ← input.read 1
  match next.toList with
  | [] => return if line.isEmpty then none else some line
  | 10 :: _ => return some line
  | _ => nextLine input (line ++ next)

/-- Hands the machine to the shell. -/
partial def converse (c : Console Writer) (s : Session Writer) : IO (Option Failure) := do
  let (failure, s) := Shell.write c s promptText
  let s := { s with screen := ← flush s.screen }
  if let some reason := failure then return some (.shell reason)
  match ← nextLine (← IO.getStdin) with
  | none => return none
  | some bytes =>
    match String.fromUTF8? bytes with
    | none => return some (.shell Shell.notText)
    | some line =>
      let (outcome, s) := Shell.respond c s line
      let s := { s with screen := ← flush s.screen }
      match outcome with
      | .error reason => return some (.shell reason)
      | .ok true => converse c s
      | .ok false => return none

/-- Carries out an invocation. -/
def Invocation.carryOut (i : Invocation) : IO (Option Failure) := do
  let known ← (i.config.toList ++ i.programs).mapM readFile
  let files : Files := fun path => (known.lookup path).getD (.error "not read")
  match Run.start i files with
  | .error (failure, writer) =>
    discard (flush writer)
    return some failure
  | .ok run =>
    let session := { run.session with screen := ← flush run.session.screen }
    if i.interactive then converse run.settings.console session
    else
      discard (flush { run with session }.batch)
      return none

end Timeshare

def main (args : List String) : IO UInt32 := do
  match Timeshare.Invocation.parse args with
  | .error .help =>
    IO.print Timeshare.usageText
    return 0
  | .error misuse =>
    IO.eprint misuse.message
    return 2
  | .ok i =>
    match ← i.carryOut with
    | none => return 0
    | some failure =>
      IO.eprint failure.report
      return 1
