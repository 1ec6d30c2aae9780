/-!
# TOML values

The values of a TOML document and the rules by which tables grow: a key is defined once, an inline
table is closed, and a table that was opened by a header or by dotted keys is not opened again the
other way.
-/
namespace Timeshare.Toml

/-- How a table came to be. -/
inductive Origin where
  /-- The document itself, or a table with a header of its own. -/
  | header
  /-- A table that so far is only on the way to one with a header. -/
  | implied
  /-- A table on the way to a dotted key. -/
  | dotted
  | inline
deriving DecidableEq, Repr, Inhabited

/-- Of a float only whether it is in range is kept, and nothing of a date. -/
inductive Value where
  | string (text : String)
  | integer (n : Int)
  | float (inRange : Bool)
  | boolean (b : Bool)
  | datetime
  | array (ofTables : Bool) (items : List Value)
  | table (origin : Origin) (entries : List (String × Value))
deriving Repr, Inhabited

mutual

/-- Whether every number in a value is in range: an integer has at most 128 bits, with or without
a sign, and a float rounds to a finite double. -/
def Value.inRange : Value → Bool
  | .integer n => -(Nat.pow 2 127 : Int) ≤ n && n < Nat.pow 2 128
  | .float inRange => inRange
  | .array _ items => Value.allInRange items
  | .table _ entries => Value.entriesInRange entries
  | _ => true

def Value.allInRange : List Value → Bool
  | [] => true
  | v :: vs => v.inRange && Value.allInRange vs

def Value.entriesInRange : List (String × Value) → Bool
  | [] => true
  | (_, v) :: es => v.inRange && Value.entriesInRange es

end

abbrev Entries := List (String × Value)

namespace Entries

def find? (es : Entries) (key : String) : Option Value := es.lookup key

/-- Gives a key its value in place, or adds it at the end. -/
def put (key : String) (v : Value) : Entries → Entries
  | [] => [(key, v)]
  | (k, w) :: es => if k = key then (key, v) :: es else (k, w) :: put key v es

end Entries

/-- A table under construction. -/
structure Table where
  origin : Origin := .header
  entries : Entries := []
deriving Inhabited

namespace Table

def toValue (t : Table) : Value := .table t.origin t.entries

/-- Adds a key that is not there yet. -/
def define? (t : Table) (key : String) (v : Value) : Option Table :=
  match t.entries.find? key with
  | some _ => none
  | none => some { t with entries := t.entries.put key v }

/-- Whether a path may go through a table. A header's path passes all but inline tables, a dotted
key only tables without a header. -/
def passable (via : Origin) (t : Table) : Bool :=
  match via with
  | .dotted => t.origin = .implied ∨ t.origin = .dotted
  | _ => t.origin ≠ .inline

/-- Edits the table at the end of a path. Tables that are missing on the way are made, with origin
`via`, and an array of tables stands for its last table. -/
def editAt? (via : Origin) (edit : Table → Option Table) : List String → Table → Option Table
  | [], t => edit t
  | key :: path, t => do
    let child ← match t.entries.find? key with
      | none => toValue <$> editAt? via edit path ⟨via, []⟩
      | some (.table origin entries) =>
        let child : Table := ⟨origin, entries⟩
        if child.passable via then toValue <$> editAt? via edit path child else none
      | some (.array true items) =>
        match items.getLast? with
        | some (.table origin entries) => do
          let last ← editAt? via edit path ⟨origin, entries⟩
          pure (.array true (items.dropLast ++ [last.toValue]))
        | _ => none
      | some _ => none
    return { t with entries := t.entries.put key child }

/-- Defines a dotted key. The table that gets the last part must have been made by dotted keys. -/
def defineAt? (path : List String) (key : String) (v : Value) (t : Table) : Option Table :=
  if path.isEmpty then t.define? key v
  else
    editAt? .dotted (fun t => if t.origin = .dotted then t.define? key v else none) path t

/-- Opens the table of a header. -/
def openTable? (path : List String) (key : String) (t : Table) : Option Table :=
  editAt? .implied (fun t =>
    match t.entries.find? key with
    | none => t.define? key (toValue {})
    | some (.table .implied entries) =>
      some { t with entries := t.entries.put key (.table .header entries) }
    | some _ => none) path t

/-- Opens the next table of an array of tables. -/
def openItem? (path : List String) (key : String) (t : Table) : Option Table :=
  editAt? .implied (fun t =>
    match t.entries.find? key with
    | none => t.define? key (.array true [toValue {}])
    | some (.array true items) =>
      some { t with entries := t.entries.put key (.array true (items ++ [toValue {}])) }
    | some _ => none) path t

end Table

end Timeshare.Toml
