import Timeshare.Traced

/-!
# Display texts

How a frame reads on a console. A quiet console shows only what programs print; a verbose one
shows the registers and the process table too.
-/
namespace Timeshare

open Numeral

def flag (b : Bool) : String := if b then "1" else "0"

/-- The register line. -/
def Registers.line (r : Registers) (executing : Bool) : String :=
  let state := if executing then "executing" else "idle"
  s!"PC {hexUpper 2 r.counter} | ACC {hexUpper 2 r.accumulator.toNat} | X {hexUpper 2 r.x.toNat}" ++
  s!" | Y {hexUpper 2 r.y.toNat} | Z {flag r.zero} | {state}\n"

def alignRight (width : Nat) (text : String) : String :=
  String.ofList (padLeft width ' ' text.toList)

def alignLeft (width : Nat) (text : String) : String :=
  String.ofList (padRight width ' ' text.toList)

/-- A row of the process table. Columns grow where a value is wider. -/
def Process.row (p : Process) : String :=
  let r := p.registers
  let place := alignRight 4 (toString p.partition)
  let status := alignLeft 10 p.status.name
  s!" {decimal 3 p.pid.toNat} | {place} | {status} | {hexUpper 2 r.counter}" ++
  s!" | {hexUpper 2 r.accumulator.toNat}  | {hexUpper 2 r.x.toNat} | {hexUpper 2 r.y.toNat}" ++
  s!" | {flag r.zero}\n"

/-- The process table: two lines of heading and a row for each process. -/
def processTable (ps : List Process) : String :=
  " PID | Part | State      | PC | ACC | X  | Y  | Z\n" ++
  "-----|------|------------|----|-----|----|----|--\n" ++
  String.join (ps.map Process.row)

namespace Frame

/-- What a verbose console shows of a frame. -/
def verbose : Frame → String
  | .registers r executing => r.line executing
  | .processes ps => processTable ps
  | .print text => text

/-- What a quiet console shows of a frame. -/
def quiet : Frame → String
  | .registers .. => ""
  | .processes _ => ""
  | .print text => text

end Frame

end Timeshare
