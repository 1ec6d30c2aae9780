import Timeshare.Error
import Timeshare.Text.Blank

/-!
# Program text

A program is written as two-digit hexadecimal numerals. White space may stand between numerals and
need not, so a word holds one or more of them. A numeral of two characters may also be a plus sign
and one digit.
-/
namespace Timeshare.ProgramText

open Numeral

/-- Reads a word two characters at a time, where `read` holds the bytes so far, the last one
first. -/
def pairsFrom? (read : List UInt8) : List Char → Option (List UInt8)
  | [] => some read.reverse
  | [_] => none
  | a :: b :: rest =>
    match read? 16 256 [a, b] with
    | some n => pairsFrom? (n.toUInt8 :: read) rest
    | none => none

/-- The bytes that a word spells. -/
def wordBytes (word : List Char) : Except Error (List UInt8) :=
  match pairsFrom? [] word with
  | some bytes => .ok bytes
  | none => .error (.badProgramText (String.ofList word))

/-- The bytes that a text spells; the first word that spells none is the error. -/
def parse (text : String) : Except Error (List UInt8) := do
  return (← (wordsOf text.toList).mapM wordBytes).flatten

end Timeshare.ProgramText
