import Timeshare.Interrupt
import Timeshare.Opcode
import Timeshare.Policy

/-!
# Log notices

What the machine reports about its work: one constructor per kind of notice, its severity and its
wording.
-/
namespace Timeshare

open Numeral

/-- Severities, the gravest first. -/
inductive Level where
  | warn
  | info
  | debug
  | trace
deriving DecidableEq, Repr, Inhabited

namespace Level

def name : Level → String
  | warn => "WARN"
  | info => "INFO"
  | debug => "DEBUG"
  | trace => "TRACE"

/-- The rank in order of gravity, the gravest being zero. -/
def rank : Level → Nat
  | warn => 0
  | info => 1
  | debug => 2
  | trace => 3

end Level

/-- The devices that have a driver. -/
inductive Device where
  | keyboard
  | fileSystem
deriving DecidableEq, Repr, Inhabited

def Device.name : Device → String
  | .keyboard => "keyboard"
  | .fileSystem => "file system"

inductive Notice where
  | memoryLayout (partitions size : Nat)
  | executing (pid : Pid) (counter : Nat) (opcode : Opcode)
  | loaded (pid : Pid) (length partition : Nat)
  | released (pid : Pid) (partition free : Nat)
  | starting (pid : Pid)
  | switching (source target : Pid) (cycles : Nat) (policy : Policy)
  | stopping
  | policySet (policy : Policy)
  | killed (pid : Pid)
  | killFailed (reason : Error)
  | ticking (clock pending : Nat)
  | servicing (kind : String)
  | stepIgnored
  | badOpcode (pid : Pid) (opcode : UInt8) (counter : Nat)
  | badAddress (pid : Pid) (address : Nat)
  | broke (pid : Pid)
  | dropped (kind : String) (reason : Error)
  | callDropped (pid : Pid)
  | callUnsupported (x accumulator : UInt8)
  | displayFailed (reason : String)
  | driverMissing (device : Device) (kind : String)
  | driverIgnored (device : Device) (kind : String)
  | formatting
  | diskWriteFailed (key : BlockKey) (reason : Error)
deriving Repr, Inhabited

namespace Notice

def level : Notice → Level
  | memoryLayout .. | loaded .. | released .. | policySet _ | killed _ => .info
  | executing .. | ticking .. => .trace
  | killFailed _ | badOpcode .. | badAddress .. | callUnsupported .. | displayFailed _
  | driverMissing .. | driverIgnored .. | diskWriteFailed .. => .warn
  | starting _ | switching .. | stopping | servicing _ | stepIgnored | broke _ | dropped ..
  | callDropped _ | formatting => .debug

def text : Notice → String
  | memoryLayout partitions size => s!"memory: {partitions} partitions of {size} bytes"
  | executing pid counter opcode =>
    s!"pid {pid} {hex 2 counter}: {opcode.mnemonic} ({hexUpper 2 opcode.byte.toNat})"
  | loaded pid length partition => s!"loaded pid {pid} ({length} bytes) into partition {partition}"
  | released pid partition free =>
    s!"pid {pid} terminated, partition {partition} freed ({free} free)"
  | starting pid => s!"starting pid {pid}"
  | switching source target cycles policy =>
    s!"switching pid {source} -> pid {target} after {cycles} cycles ({policy.name})"
  | stopping => "no runnable processes, stopping the cpu"
  | policySet policy => s!"scheduling policy set to {policy.name}"
  | killed pid => s!"killed pid {pid}"
  | killFailed reason => s!"kill interrupt failed: {reason.message}"
  | ticking clock pending => s!"tick {clock} ({pending} interrupts pending)"
  | servicing kind => s!"servicing {kind} interrupt"
  | stepIgnored => "step ignored outside single-step mode"
  | badOpcode pid opcode counter =>
    s!"unknown opcode {hex 2 opcode.toNat} at {hex 2 counter} in pid {pid}"
  | badAddress pid address => s!"memory fault at {hex 4 address} in pid {pid}"
  | broke pid => s!"break from pid {pid}"
  | dropped kind reason => s!"dropping {kind} interrupt: {reason.message}"
  | callDropped pid => s!"dropping sys call from pid {pid}, no longer resident"
  | callUnsupported x accumulator =>
    s!"unsupported sys call x={hex 2 x.toNat} (acc={hex 2 accumulator.toNat})"
  | displayFailed reason => s!"display failed: {reason}"
  | driverMissing device kind => s!"{device.name} driver not loaded, dropping {kind} interrupt"
  | driverIgnored device kind => s!"{device.name} driver ignored {kind} interrupt"
  | formatting => "formatting disk"
  | diskWriteFailed key reason => s!"disk write to {key.text} failed: {reason.message}"

/-- The log line: the severity, then the wording. -/
def line (n : Notice) : String := n.level.name ++ " " ++ n.text

end Notice

end Timeshare
