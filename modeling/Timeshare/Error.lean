import Timeshare.Process
import Timeshare.BlockKey
import Timeshare.Text.Numeral

/-!
# Errors

Why an operation was refused, one constructor per cause, and the wording of each.
-/
namespace Timeshare

open Numeral

inductive Error where
  | outOfBounds (address limit : Nat)
  | unknownOpcode (opcode : UInt8)
  | invalidLayout
  | capacityExceeded
  | programTooLarge (length partitionSize : Nat)
  | invalidPolicy (name : String)
  | invalidQuantum
  | noSuchProcess (pid : Pid)
  | noSuchBlock (key : BlockKey)
  | blockTooLarge (length blockSize : Nat)
  | badProgramText (word : String)
  | failedIO (reason : String)
  | badSettings (reason : String)
deriving DecidableEq, Repr, Inhabited

def Error.message : Error → String
  | .outOfBounds address limit =>
    s!"out of bounds memory access at {hex 4 address} (limit {hex 4 limit})"
  | .unknownOpcode opcode => s!"unknown opcode {hex 2 opcode.toNat}"
  | .invalidLayout => "memory layout needs at least one partition of at least one byte"
  | .capacityExceeded => "no free memory partition"
  | .programTooLarge length partitionSize =>
    s!"program of {length} bytes does not fit a {partitionSize} byte partition"
  | .invalidPolicy name => s!"unknown scheduling policy: {name}"
  | .invalidQuantum => "quantum must be at least one cycle"
  | .noSuchProcess pid => s!"no process with id {pid}"
  | .noSuchBlock key => s!"no block at {key.text}"
  | .blockTooLarge length blockSize => s!"{length} bytes do not fit a {blockSize} byte block"
  | .badProgramText word => s!"failed to parse program byte: {word}"
  | .failedIO reason => s!"io error: {reason}"
  | .badSettings reason => s!"config error: {reason}"

/-- The wording of an error, and behind it that of the failure it wraps. -/
def Error.chain (e : Error) : List String :=
  match e with
  | .failedIO reason | .badSettings reason => [e.message, reason]
  | _ => [e.message]

end Timeshare
