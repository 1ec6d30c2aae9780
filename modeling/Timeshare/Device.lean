import Timeshare.Disk
import Timeshare.Traced

/-!
# Device drivers

The keyboard keeps what was typed until it is asked for; the storage applies disk requests. A
driver that is not loaded drops every interrupt, and a loaded one ignores those of other kinds.
-/
namespace Timeshare

structure Keyboard where
  loaded : Bool := false
  buffer : String := ""
deriving Inhabited

namespace Keyboard

def start (k : Keyboard) : Keyboard := { k with loaded := true }

def service (k : Keyboard) (i : Interrupt) : Traced Keyboard :=
  if k.loaded then
    match i with
    | .keyboard key => pure { k with buffer := k.buffer.push key }
    | _ => do
      Traced.report (.driverIgnored .keyboard i.name)
      pure k
  else do
    Traced.report (.driverMissing .keyboard i.name)
    pure k

/-- What was typed since the last time, and the emptied keyboard. -/
def take (k : Keyboard) : String × Keyboard := (k.buffer, { k with buffer := "" })

end Keyboard

structure Storage where
  loaded : Bool := false
  disk : Disk := {}
deriving Inhabited

namespace Storage

def start (s : Storage) : Storage := { s with loaded := true }

def service (s : Storage) (i : Interrupt) : Traced Storage :=
  if s.loaded then
    match i with
    | .disk .format => do
      Traced.report .formatting
      pure { s with disk := s.disk.format }
    | .disk (.write key bytes) =>
      match s.disk.write key bytes with
      | .ok disk => pure { s with disk }
      | .error reason => do
        Traced.report (.diskWriteFailed key reason)
        pure s
    | _ => do
      Traced.report (.driverIgnored .fileSystem i.name)
      pure s
  else do
    Traced.report (.driverMissing .fileSystem i.name)
    pure s

end Storage

end Timeshare
