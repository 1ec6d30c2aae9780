import Timeshare.Toml.Quoted
import Timeshare.Toml.Scalar

/-!
# TOML documents

A document is read from front to back. Every line opens a table or defines a key in the table that
was opened last; arrays and inline tables may run over several lines.
-/
namespace Timeshare.Toml

/-- A reader takes what it understands from the front of a text. -/
abbrev Reader := StateT (List Char) Option

namespace Reader

def fail {α : Type} : Reader α := fun _ => none

/-- The next character, which stays where it is. -/
def peek : Reader (Option Char) := return (← get).head?

/-- Takes this text. -/
def expect (text : List Char) : Reader Unit := fun cs =>
  if text.isPrefixOf cs then some ((), cs.drop text.length) else none

/-- Takes the longest run of characters with a property. -/
def span (p : Char → Bool) : Reader (List Char) := fun cs =>
  some (cs.takeWhile p, cs.dropWhile p)

/-- Takes blanks and tabs. -/
def space : Reader Unit := discard (span fun c => c = ' ' || c = '\t')

/-- Takes a comment, if one starts here, up to the end of its line. -/
def comment : Reader Unit := do
  if (← peek) = some '#' then discard (span Quoted.isPlain)

/-- Takes a line break. -/
def lineBreak : Reader Unit := expect ['\n'] <|> expect ['\r', '\n']

/-- Takes the rest of a line: white space and perhaps a comment. -/
def restOfLine : Reader Unit := do
  space
  comment
  if (← peek).isSome then lineBreak

/-- Takes white space, comments and line breaks; `fuel` bounds the line breaks. -/
def trivia : Nat → Reader Unit
  | 0 => fail
  | fuel + 1 => do
    space
    comment
    match ← peek with
    | some '\n' | some '\r' =>
      lineBreak
      trivia fuel
    | _ => pure ()

def isBare (c : Char) : Bool := c.isAlphanum || c = '-' || c = '_'

/-- Takes one part of a key. -/
def keyPart : Reader String := do
  let bare ← span isBare
  if bare.isEmpty then fun cs => Quoted.readKey? cs else return String.ofList bare

/-- The number of parts that a dotted key may have. -/
def maxParts : Nat := 80

/-- Takes a dotted key of at most so many parts behind `parts`, which are in reverse order. -/
def keyBehind (parts : List String) : Nat → Reader (List String × String)
  | 0 => fail
  | more + 1 => do
    space
    let part ← keyPart
    space
    if (← peek) = some '.' then
      expect ['.']
      keyBehind (part :: parts) more
    else return (parts.reverse, part)

/-- Takes a dotted key: the parts before the last one, and the last one. -/
def dottedKey : Reader (List String × String) := keyBehind [] maxParts

/-- Takes an unquoted scalar. One blank may stand between a date and a time. -/
def scalar : Reader Value := do
  let isPart (c : Char) : Bool := !(" \t\r\n,]\x7d#".toList.contains c)
  let text ← span isPart
  let rest ← get
  let text ← match rest with
    | ' ' :: c :: _ =>
      if Scalar.isDate text && c.isDigit then
        set (rest.drop 1)
        pure (text ++ ' ' :: (← span isPart))
      else pure text
    | _ => pure text
  Scalar.read? text

/-- The number of arrays and inline tables that may be open at once. -/
def maxDepth : Nat := 80

/-- Takes what stands behind an element: a comma, with true, or the closing bracket, with false. -/
def separator (fuel : Nat) (close : Char) : Reader Bool := do
  trivia fuel
  match ← peek with
  | some ',' => expect [','] *> trivia fuel *> pure true
  | _ => expect [close] *> pure false

mutual

/-- Takes a value; `depth` more arrays and inline tables may be opened, and `fuel` bounds the
parts. -/
def value (depth : Nat) : Nat → Reader Value
  | 0 => fail
  | fuel + 1 => do
    match ← peek with
    | some '"' | some '\'' => return .string (← fun cs => Quoted.read? cs)
    | some '[' =>
      if depth = 0 then fail
      expect ['[']
      trivia fuel
      return .array false (← items (depth - 1) fuel)
    | some '\x7b' =>
      if depth = 0 then fail
      expect ['\x7b']
      trivia fuel
      return (← pairs (depth - 1) { origin := .inline } fuel).toValue
    | _ => scalar

/-- Takes the elements of an array and its closing bracket. -/
def items (depth : Nat) : Nat → Reader (List Value)
  | 0 => fail
  | fuel + 1 => do
    if (← peek) = some ']' then
      expect [']']
      return []
    let v ← value depth fuel
    if ← separator fuel ']' then return v :: (← items depth fuel)
    return [v]

/-- Takes the pairs of an inline table and its closing brace. -/
def pairs (depth : Nat) (t : Table) : Nat → Reader Table
  | 0 => fail
  | fuel + 1 => do
    if (← peek) = some '\x7d' then
      expect ['\x7d']
      return t
    let (path, key) ← dottedKey
    trivia fuel
    expect ['=']
    trivia fuel
    let v ← value depth fuel
    let some t := t.defineAt? path key v | fail
    if ← separator fuel '\x7d' then pairs depth t fuel else return t

end

end Reader

/-- The document so far, and the path of the table that was opened last. -/
structure Draft where
  root : Table := {}
  opened : List String := []

namespace Reader

/-- Takes one line: a header, a pair or nothing. -/
def line (d : Draft) : Reader Draft := do
  let fuel := 2 * (← get).length + 2
  space
  match ← get with
  | [] | '\n' :: _ | '\r' :: _ | '#' :: _ =>
    restOfLine
    return d
  | '[' :: '[' :: _ =>
    expect ['[', '[']
    let (path, key) ← dottedKey
    expect [']', ']']
    restOfLine
    let some root := d.root.openItem? path key | fail
    return { root, opened := path ++ [key] }
  | '[' :: _ =>
    expect ['[']
    let (path, key) ← dottedKey
    expect [']']
    restOfLine
    let some root := d.root.openTable? path key | fail
    return { root, opened := path ++ [key] }
  | _ =>
    let (path, key) ← dottedKey
    expect ['=']
    space
    let v ← value maxDepth fuel
    restOfLine
    let some root := Table.editAt? .header (·.defineAt? path key v) d.opened d.root | fail
    return { d with root }

/-- Takes lines up to the end of the text, at most `fuel` of them. -/
def lines (d : Draft) : Nat → Reader Draft
  | 0 => fail
  | fuel + 1 => do
    let d ← line d
    if (← get).isEmpty then return d else lines d fuel

end Reader

/-- Reads a document, with or without a byte order mark in front. -/
def parse? (text : String) : Option Entries :=
  let cs := match text.toList with
    | '\uFEFF' :: cs => cs
    | cs => cs
  (Reader.lines {} (cs.length + 1) cs).map (·.1.root.entries)

end Timeshare.Toml
