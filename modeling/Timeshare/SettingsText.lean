import Timeshare.Error
import Timeshare.Settings
import Timeshare.Toml.Document

/-!
# Settings text

Settings are written as a TOML document. What the document leaves out keeps its default, and keys
without a meaning are passed over. The two sections are tables, or arrays of their fields in
order; a date in their place has no fields.
-/
namespace Timeshare.SettingsText

open Toml

/-- A field of a table, and what its value makes of the settings, unless the field cannot have
that value. -/
structure Field where
  key : String
  set? : Value → Settings → Option Settings

/-- A natural number below a bound. -/
def natural? (bound : Nat) : Value → Option Nat
  | .integer n => if 0 ≤ n ∧ n < bound then some n.toNat else none
  | _ => none

def boolean? : Value → Option Bool
  | .boolean b => some b
  | _ => none

/-- A policy is its name, or a table with its name as the only key and nothing behind it. -/
def policy? : Value → Option Policy
  | .string name => Policy.ofName? name
  | .table _ [(name, .table _ [])] => Policy.ofName? name
  | .table _ [(name, .array _ [])] => Policy.ofName? name
  | _ => none

/-- Sets the fields that a table has. A value that no field takes must still have its numbers in
range. -/
def setEntries (fields : List Field) (es : Entries) (s : Settings) : Except Error Settings :=
  es.foldlM (fun s (key, v) =>
    let next := match fields.find? (·.key == key) with
      | some field => field.set? v s
      | none => if v.inRange then some s else none
    match next with
    | some s => .ok s
    | none => .error (.badSettings s!"{key} cannot have this value")) s

/-- Sets fields in order, as far as there are values, and leaves further values alone. -/
def setItems (fields : List Field) (vs : List Value) (s : Settings) : Option Settings :=
  (fields.zip vs).foldlM (fun s (field, v) => field.set? v s) s

/-- The field for a section. A date counts as a section without fields. -/
def sectionField (key : String) (fields : List Field) : Field where
  key
  set? v s := match v with
    | .table _ es => (setEntries fields es s).toOption
    | .array _ vs => setItems fields vs s
    | .datetime => some s
    | _ => none

def schedulerFields : List Field := [
  ⟨"policy", fun v s => (policy? v).map fun policy => { s with policy }⟩,
  ⟨"quantum", fun v s => (natural? UInt32.size v).map fun quantum => { s with quantum }⟩]

def memoryFields : List Field := [
  ⟨"partition_size", fun v s =>
    (natural? UInt64.size v).map fun partitionSize => { s with partitionSize }⟩,
  ⟨"partitions", fun v s => (natural? UInt64.size v).map fun partitions => { s with partitions }⟩]

def fields : List Field := [
  sectionField "scheduler" schedulerFields,
  sectionField "memory" memoryFields,
  ⟨"single_step", fun v s => (boolean? v).map fun singleStep => { s with singleStep }⟩,
  ⟨"max_ticks", fun v s => (natural? UInt64.size v).map fun maxTicks => { s with maxTicks }⟩,
  ⟨"verbose", fun v s => (boolean? v).map fun verbose => { s with verbose }⟩]

/-- Reads settings. -/
def parse (text : String) : Except Error Settings :=
  match Toml.parse? text with
  | some es => setEntries fields es {}
  | none => .error (.badSettings "not a TOML document")

end Timeshare.SettingsText
