import Timeshare.Command
import Timeshare.ProgramText
import Timeshare.Session

/-!
# The shell

The shell reads commands line by line, carries each out and writes its answer and a prompt. It
ends at `quit`, at the end of input, at a line that is not text, and at the first write of its own
that fails. A display that fails does not end it.
-/
namespace Timeshare

open Numeral

/-- What the shell writes on `help`. -/
def helpText : String :=
  "load <hex..>    load a program into a free partition\n" ++
  "run <pid>       start a loaded process\n" ++
  "runall          start every loaded process\n" ++
  "step            execute one tick in single-step mode\n" ++
  "stepmode on|off toggle single-step mode\n" ++
  "tick [n]        advance the clock n ticks (default 1)\n" ++
  "quantum <n>     set the round robin quantum\n" ++
  "policy rr|fcfs  set the scheduling policy\n" ++
  "kill <pid>      terminate a process on the next tick\n" ++
  "timer           raise a timer interrupt\n" ++
  "key <text>      type characters on the keyboard\n" ++
  "input           show and clear the keyboard buffer\n" ++
  "format          format the disk\n" ++
  "disk write <t> <s> <b> <hex..>\n" ++
  "                write a disk block on the next tick\n" ++
  "disk read <t> <s> <b>\n" ++
  "                show a disk block\n" ++
  "mem <addr> [len]\n" ++
  "                show physical memory, both in hex\n" ++
  "ps              show the process table\n" ++
  "help            show this text\n" ++
  "quit            leave the shell\n"

def promptText : String := "> "

/-- What a command answers: a text to write, and whether the shell goes on. -/
structure Answer where
  text : String := ""
  goesOn : Bool := true
deriving DecidableEq, Repr, Inhabited

namespace Machine

/-- The bytes at `address`, one line of them. -/
def memoryText (m : Machine) (address length : Nat) : String :=
  let block :=
    if address + length < addressSpace then m.memory.readBlock address (address + length)
    else .error (.outOfBounds address (addressSpace - 1))
  match block with
  | .ok bytes => s!"{hexUpper 4 address}: {hexBytes bytes}\n"
  | .error reason => s!"mem failed: {reason.message}\n"

def blockText (m : Machine) (key : BlockKey) : String :=
  match m.storage.disk.read key with
  | .ok block => s!"{key.text}: {hexBytes block.toBytes}\n"
  | .error reason => s!"disk read failed: {reason.message}\n"

/-- The process table and a line on the machine. -/
def statusText (m : Machine) : String :=
  let memory := m.memory
  let scheduler := m.scheduler
  processTable m.processes ++
  s!"{memory.freeCount} of {memory.partitionCount} partitions free, " ++
  s!"policy {scheduler.policy.name}, quantum {scheduler.quantum}, {m.mode.name} mode\n"

end Machine

namespace Command

variable {σ : Type}

/-- Carries out requests in order that are always granted. -/
def actAll (c : Console σ) (s : Session σ) (rs : List Request) : Session σ :=
  rs.foldl (Session.act c) s

/-- Carries out a request. A refusal is the answer, behind `label`. -/
def attempt (c : Console σ) (s : Session σ) (label : String) (r : Request) : Answer × Session σ :=
  match s.perform c r with
  | (.ok (.pid pid), s) => ({ text := s!"loaded pid {pid}\n" }, s)
  | (.ok (.text text), s) => ({ text := text ++ "\n" }, s)
  | (.ok .done, s) => ({}, s)
  | (.error reason, s) => ({ text := s!"{label}{reason.message}\n" }, s)

/-- Carries out a command. -/
def execute (c : Console σ) (s : Session σ) : Command → Answer × Session σ
  | help => ({ text := helpText }, s)
  | load program =>
    match ProgramText.parse program with
    | .ok bytes => attempt c s "load failed: " (.load bytes)
    | .error reason => ({ text := s!"load failed: {reason.message}\n" }, s)
  | run pid => attempt c s "run failed: " (.run pid)
  | runAll => ({}, s.act c .runAll)
  | step => ({}, s.act c .step)
  | stepMode enabled => ({}, s.act c (.setSingleStep enabled))
  | tick count => ({}, s.ticks c count)
  | quantum cycles => attempt c s "" (.setQuantum cycles)
  | policy name =>
    match Policy.parse name with
    | .ok p => ({}, s.act c (.setPolicy p))
    | .error reason => ({ text := s!"{reason.message}\n" }, s)
  | kill pid => attempt c s "kill failed: " (.requestKill pid)
  | timer => ({}, s.act c (.interrupt .timer))
  | key text => ({}, actAll c s (text.toList.map fun typed => .interrupt (.keyboard typed)))
  | input => attempt c s "" .takeInput
  | format => ({}, s.act c (.interrupt (.disk .format)))
  | diskWrite place text =>
    match ProgramText.parse text with
    | .ok bytes => ({}, s.act c (.interrupt (.disk (.write place bytes))))
    | .error reason => ({ text := s!"disk write failed: {reason.message}\n" }, s)
  | diskRead place => ({ text := s.machine.blockText place }, s)
  | memory address length => ({ text := s.machine.memoryText address length }, s)
  | processes => ({ text := s.machine.statusText }, s)
  | quit => ({ goesOn := false }, s)
  | empty => ({}, s)
  | invalid reason => ({ text := reason ++ "\n" }, s)

end Command

/-- How a shell ends other than by `quit` or the end of input. -/
abbrev ShellFailure := String

namespace Shell

variable {σ : Type}

/-- The failure at a line that is not UTF-8. -/
def notText : ShellFailure := "stream did not contain valid UTF-8"

/-- Writes a text. -/
def write (c : Console σ) (s : Session σ) (text : String) : Option ShellFailure × Session σ :=
  match c.write s.screen text with
  | (failure, screen) => (failure, { s with screen })

/-- Carries out one line and writes its answer. Answers the failure, or whether the shell goes on.
-/
def respond (c : Console σ) (s : Session σ) (line : String) :
    Except ShellFailure Bool × Session σ :=
  let (answer, s) := (Command.parse line).execute c s
  match write c s answer.text with
  | (some failure, s) => (.error failure, s)
  | (none, s) => (.ok answer.goesOn, s)

/-- Writes the prompt and carries out the lines, each of which is text or not. -/
def run (c : Console σ) (s : Session σ) (lines : List (Option String)) :
    Option ShellFailure × Session σ :=
  match write c s promptText with
  | (some failure, s) => (some failure, s)
  | (none, s) =>
    match lines with
    | [] => (none, s)
    | none :: _ => (some notText, s)
    | some line :: rest =>
      match respond c s line with
      | (.error failure, s) => (some failure, s)
      | (.ok false, s) => (none, s)
      | (.ok true, s) => run c s rest

/-- The lines of an input, the last one with or without its line feed. -/
def linesOf (input : ByteArray) : List (Option String) :=
  let lines := (input.toList.splitOn 10).map fun line => String.fromUTF8? line.toByteArray
  if lines.getLast? = some (some "") then lines.dropLast else lines

end Shell

end Timeshare
