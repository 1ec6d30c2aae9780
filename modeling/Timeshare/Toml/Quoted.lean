import Timeshare.Text.Numeral

/-!
# Quoted TOML strings

The four kinds of strings, each read from behind its opening quotes to behind its closing ones.
Strings in double quotes have escapes. Strings in three quotes may hold line breaks, and up to two
quotes next to the closing ones belong to the text.
-/
namespace Timeshare.Toml.Quoted

/-- Characters that may stand in a string or comment as they are. -/
def isPlain (c : Char) : Bool := c = '\t' || (' ' ≤ c && c ≠ '\x7f')

/-- The character of an escape of one letter. -/
def shortEscape? (c : Char) : Option Char :=
  match c with
  | 'b' => some '\x08'
  | 't' => some '\t'
  | 'n' => some '\n'
  | 'f' => some '\x0c'
  | 'r' => some '\r'
  | 'e' => some '\x1b'
  | '"' => some '"'
  | '\\' => some '\\'
  | _ => none

/-- The number of hexadecimal digits behind the letter of a long escape. -/
def longEscape? (c : Char) : Option Nat :=
  match c with
  | 'x' => some 2
  | 'u' => some 4
  | 'U' => some 8
  | _ => none

/-- The character with a code point, if it has one. -/
def scalar? (n : Nat) : Option Char :=
  if n < 0xD800 ∨ (0xDFFF < n ∧ n < 0x110000) then some (Char.ofNat n) else none

/-- Where the reader of a string stands. -/
inductive Place where
  | text
  /-- Behind a backslash. -/
  | escape
  /-- In a long escape with so many digits to come. -/
  | digits (left value : Nat)
  /-- In the white space between a backslash and the end of its line. -/
  | gap
  /-- In the white space behind a line that ends in a backslash. -/
  | joint
  /-- Behind so many quotes. -/
  | quotes (count : Nat)

/-- One step of reading an escape: the place behind it and, where it is complete, its character. -/
def escaped? : Place → Char → Option (Place × Option Char)
  | .escape, c =>
    match shortEscape? c with
    | some e => some (.text, some e)
    | none => (longEscape? c).map fun n => (.digits n 0, none)
  | .digits left value, c => do
    let value := value * 16 + (← Numeral.digit? 16 c)
    if left = 1 then return (.text, some (← scalar? value))
    return (.digits (left - 1) value, none)
  | _, _ => none

/-- Reads a string in double quotes, where `read` holds its text so far, the last character first.
-/
def basic? (place : Place) (read : List Char) : List Char → Option (String × List Char)
  | [] => none
  | c :: cs =>
    match place with
    | .text =>
      if c = '"' then some (String.ofList read.reverse, cs)
      else if c = '\\' then basic? .escape read cs
      else if isPlain c then basic? .text (c :: read) cs
      else none
    | place => do
      let (place, e) ← escaped? place c
      basic? place (e.toList ++ read) cs

/-- Reads a string in single quotes. -/
def literal? (cs : List Char) : Option (String × List Char) :=
  let text := cs.takeWhile fun c => isPlain c && c ≠ '\''
  match cs.drop text.length with
  | '\'' :: rest => some (String.ofList text, rest)
  | _ => none

/-- A carriage return counts as white space only in front of a line feed. -/
def isReturn (c : Char) (cs : List Char) : Bool := c = '\r' && cs.head? = some '\n'

/-- Reads a string in three times the quote `q`. Only double quotes have escapes. -/
def multiline? (q : Char) (place : Place) (read : List Char) :
    List Char → Option (String × List Char)
  | [] =>
    match place with
    | .quotes count =>
      if 3 ≤ count then some (String.ofList (List.replicate (count - 3) q ++ read).reverse, [])
      else none
    | _ => none
  | c :: cs =>
    let inText (read : List Char) : Option (String × List Char) :=
      if c = q then multiline? q (.quotes 1) read cs
      else if c = '\\' ∧ q = '"' then multiline? q .escape read cs
      else if isReturn c cs then multiline? q .text read cs
      else if c = '\n' ∨ isPlain c then multiline? q .text (c :: read) cs
      else none
    match place with
    | .text => inText read
    | .quotes count =>
      if c = q ∧ count < 5 then multiline? q (.quotes (count + 1)) read cs
      else if 3 ≤ count then
        some (String.ofList (List.replicate (count - 3) q ++ read).reverse, c :: cs)
      else inText (List.replicate count q ++ read)
    | .gap =>
      if c = '\n' then multiline? q .joint read cs
      else if c = ' ' ∨ c = '\t' ∨ isReturn c cs then multiline? q .gap read cs
      else none
    | .joint =>
      if c = ' ' ∨ c = '\t' ∨ c = '\n' ∨ isReturn c cs then multiline? q .joint read cs
      else inText read
    | .escape =>
      if c = '\n' then multiline? q .joint read cs
      else if c = ' ' ∨ c = '\t' ∨ isReturn c cs then multiline? q .gap read cs
      else do
        let (place, e) ← escaped? .escape c
        multiline? q place (e.toList ++ read) cs
    | .digits left value => do
      let (place, e) ← escaped? (.digits left value) c
      multiline? q place (e.toList ++ read) cs

/-- A line break right behind the opening quotes is no part of the text. -/
def skipBreak (cs : List Char) : List Char :=
  match cs with
  | '\n' :: rest => rest
  | '\r' :: '\n' :: rest => rest
  | _ => cs

/-- Reads the string that starts here, if one does. -/
def read? (cs : List Char) : Option (String × List Char) :=
  match cs with
  | '"' :: '"' :: '"' :: rest => multiline? '"' .text [] (skipBreak rest)
  | '\'' :: '\'' :: '\'' :: rest => multiline? '\'' .text [] (skipBreak rest)
  | '"' :: rest => basic? .text [] rest
  | '\'' :: rest => literal? rest
  | _ => none

/-- Reads the quoted key that starts here, if one does. It stays on its line. -/
def readKey? (cs : List Char) : Option (String × List Char) :=
  match cs with
  | '"' :: rest => basic? .text [] rest
  | '\'' :: rest => literal? rest
  | _ => none

end Timeshare.Toml.Quoted
