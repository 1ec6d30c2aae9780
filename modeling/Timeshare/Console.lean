import Timeshare.Display

/-!
# Consoles

A console takes frames from the machine and text from the shell, and may fail at either. The usual
one puts both on one writer.
-/
namespace Timeshare

/-- A sink of bytes. It takes `room` more bytes, or any number, and a write that does not fit takes
what fits and fails. -/
structure Writer where
  written : ByteArray := .empty
  room : Option Nat := none
  /-- What a failing write reports. -/
  reason : String := ""

namespace Writer

/-- Writes a text, with the reason if that fails. -/
def write (w : Writer) (text : String) : Option String × Writer :=
  let bytes := text.toUTF8
  match w.room with
  | none => (none, { w with written := w.written ++ bytes })
  | some room =>
    if bytes.size ≤ room then
      (none, { w with written := w.written ++ bytes, room := some (room - bytes.size) })
    else
      (some w.reason, { w with written := w.written ++ bytes.extract 0 room, room := some 0 })

end Writer

/-- What a console in state `σ` does with a frame and with a text: the reason where it fails, and
its next state. -/
structure Console (σ : Type) where
  draw : σ → Frame → Option String × σ
  write : σ → String → Option String × σ

namespace Console

/-- The console that writes frames in a given style to the same writer as everything else. -/
def ofStyle (style : Frame → String) : Console Writer where
  draw w f := w.write (style f)
  write w text := w.write text

end Console

end Timeshare
