import Timeshare.BlockKey
import Timeshare.Process
import Timeshare.Text.Blank
import Timeshare.Text.LowerCase
import Timeshare.Text.Numeral

/-!
# Commands

The commands of the shell and how a line is read as one. A line is its words: the first, in any
letter case, names the command, and the rest are its arguments. Arguments that a command does not
take are passed over.
-/
namespace Timeshare

open Numeral

inductive Command where
  | help
  | load (program : String)
  | run (pid : Pid)
  | runAll
  | step
  | stepMode (enabled : Bool)
  | tick (count : Nat)
  | quantum (cycles : Nat)
  | policy (name : String)
  | kill (pid : Pid)
  | timer
  | key (text : String)
  | input
  | format
  | diskWrite (key : BlockKey) (bytes : String)
  | diskRead (key : BlockKey)
  | memory (address length : Nat)
  | processes
  | quit
  | empty
  /-- A line that is no command, and what to tell about it. -/
  | invalid (reason : String)
deriving DecidableEq, Repr, Inhabited

namespace Command

/-- A decimal numeral below `bound`. -/
def number? (bound : Nat) (word : String) : Option Nat := read? 10 bound word.toList

def pid? (word : String) : Option Pid := (number? UInt32.size word).map Nat.toUInt32

def byte? (word : String) : Option UInt8 := (number? UInt8.size word).map Nat.toUInt8

/-- A hexadecimal address. -/
def address? (word : String) : Option Nat := read? 16 UInt64.size word.toList

/-- The number of bytes that `mem` shows where no length is given. -/
def defaultLength : Nat := 16

/-- The argument words as one text. -/
def joined (words : List String) : String := String.intercalate " " words

def blockKey? (track sector block : String) : Option BlockKey := do
  return ⟨← byte? track, ← byte? sector, ← byte? block⟩

def parseRun : List String → Option Command
  | word :: _ => (pid? word).map run
  | [] => none

def parseKill : List String → Option Command
  | word :: _ => (pid? word).map kill
  | [] => none

def parseStepMode : List String → Option Command
  | "on" :: _ => some (stepMode true)
  | "off" :: _ => some (stepMode false)
  | _ => none

def parseTick : List String → Option Command
  | word :: _ => (number? UInt64.size word).map tick
  | [] => some (tick 1)

def parseQuantum : List String → Option Command
  | word :: _ => (number? UInt32.size word).map quantum
  | [] => none

def parsePolicy : List String → Option Command
  | word :: _ => some (policy word)
  | [] => none

def parseDisk : List String → Option Command
  | "write" :: track :: sector :: block :: bytes =>
    (blockKey? track sector block).map (diskWrite · (joined bytes))
  | "read" :: track :: sector :: block :: _ => (blockKey? track sector block).map diskRead
  | _ => none

def parseMemory : List String → Option Command
  | [address] => (address? address).map (memory · defaultLength)
  | address :: length :: _ => do return memory (← address? address) (← address? length)
  | [] => none

/-- The command that was read, or how to use it. -/
def orUsage (usage : String) (c : Option Command) : Command :=
  c.getD (invalid ("usage: " ++ usage))

/-- Reads the arguments of the command with this name, which is in lower case. -/
def ofWords (name : String) (arguments : List String) : Command :=
  match name with
  | "help" | "?" => help
  | "load" => load (joined arguments)
  | "run" => orUsage "run <pid>" (parseRun arguments)
  | "runall" => runAll
  | "step" => step
  | "stepmode" => orUsage "stepmode on|off" (parseStepMode arguments)
  | "tick" => orUsage "tick [n]" (parseTick arguments)
  | "quantum" => orUsage "quantum <n>" (parseQuantum arguments)
  | "policy" => orUsage "policy rr|fcfs" (parsePolicy arguments)
  | "kill" => orUsage "kill <pid>" (parseKill arguments)
  | "timer" => timer
  | "key" => key (joined arguments)
  | "input" => input
  | "format" => format
  | "disk" => orUsage "disk write|read <t> <s> <b> [hex..]" (parseDisk arguments)
  | "mem" => orUsage "mem <addr> [len]" (parseMemory arguments)
  | "ps" => processes
  | "quit" | "exit" => quit
  | other => invalid ("unknown command: " ++ other)

/-- Reads a line. -/
def parse (line : String) : Command :=
  match words line with
  | [] => empty
  | name :: arguments => ofWords (lowerCase name) arguments

end Command

end Timeshare
