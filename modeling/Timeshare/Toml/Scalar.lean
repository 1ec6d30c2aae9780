import Timeshare.Text.Numeral
import Timeshare.Toml.Value

/-!
# Unquoted TOML scalars

Booleans, numbers and dates are told apart by their form alone. An underscore stands only between
two digits, a decimal number has no zero in front, and a date names a day that exists.
-/
namespace Timeshare.Toml.Scalar

open Numeral

/-- The value of a run of digits with underscores between some of them. -/
def digitRun? (radix : Nat) (cs : List Char) : Option Nat :=
  let pieces := cs.splitOn '_'
  if pieces.all (!·.isEmpty) then digitsFrom? radix 0 pieces.flatten else none

/-- A run of decimal digits without a zero in front of others. -/
def decimal? (cs : List Char) : Option Nat :=
  match cs with
  | '0' :: _ :: _ => none
  | _ => digitRun? 10 cs

/-- Splits off a sign. -/
def sign (cs : List Char) : Bool × List Char :=
  match cs with
  | '-' :: rest => (true, rest)
  | '+' :: rest => (false, rest)
  | _ => (false, cs)

def integer? (cs : List Char) : Option Int :=
  match cs with
  | '0' :: 'x' :: digits => (digitRun? 16 digits).map Int.ofNat
  | '0' :: 'o' :: digits => (digitRun? 8 digits).map Int.ofNat
  | '0' :: 'b' :: digits => (digitRun? 2 digits).map Int.ofNat
  | _ =>
    let (negative, digits) := sign cs
    (decimal? digits).map fun n => if negative then -(n : Int) else n

/-- Whether `n · 10 ^ exponent` rounds to a finite double. -/
def roundsFinite (n : Nat) (exponent : Int) : Bool :=
  let limit := Nat.pow 2 1024 - Nat.pow 2 970
  let width : Int := (Nat.toDigits 10 n).length
  if n = 0 ∨ width + exponent ≤ 308 then true
  else if 310 < width + exponent then false
  else if 0 ≤ exponent then n * Nat.pow 10 exponent.toNat < limit
  else n < limit * Nat.pow 10 (-exponent).toNat

/-- Splits at the first character with a property, which belongs to neither part. -/
def cut (p : Char → Bool) (cs : List Char) : List Char × Option (List Char) :=
  match cs.dropWhile (!p ·) with
  | [] => (cs, none)
  | _ :: rest => (cs.takeWhile (!p ·), some rest)

/-- Whether a float is in range, if it is one. -/
def float? (cs : List Char) : Option Bool := do
  let (_, unsigned) := sign cs
  if unsigned = ['i', 'n', 'f'] ∨ unsigned = ['n', 'a', 'n'] then return true
  let (mantissa, exponent) := cut (fun c => c = 'e' || c = 'E') unsigned
  let (whole, fraction) := cut (· = '.') mantissa
  if exponent.isNone ∧ fraction.isNone then none
  let n ← decimal? whole
  let places := (fraction.getD []).filter (· ≠ '_')
  let f ← match fraction with
    | some digits => digitRun? 10 digits
    | none => some 0
  let e : Int ← match exponent with
    | some digits =>
      let (negative, digits) := sign digits
      (digitRun? 10 digits).map fun n => if negative then -(n : Int) else n
    | none => some 0
  return roundsFinite (n * Nat.pow 10 places.length + f) (e - places.length)

/-- Splits off a number of exactly `count` decimal digits. -/
def fixed? (count : Nat) (cs : List Char) : Option (Nat × List Char) :=
  if cs.length < count then none
  else (digits? 10 (cs.take count)).map (·, cs.drop count)

def daysIn (year month : Nat) : Nat :=
  if month = 2 then
    if year % 4 = 0 ∧ (year % 100 ≠ 0 ∨ year % 400 = 0) then 29 else 28
  else if month = 4 ∨ month = 6 ∨ month = 9 ∨ month = 11 then 30
  else 31

/-- Splits off a date. -/
def date? (cs : List Char) : Option (List Char) := do
  let (year, cs) ← fixed? 4 cs
  let '-' :: cs := cs | none
  let (month, cs) ← fixed? 2 cs
  let '-' :: cs := cs | none
  let (day, cs) ← fixed? 2 cs
  if 1 ≤ month ∧ month ≤ 12 ∧ 1 ≤ day ∧ day ≤ daysIn year month then some cs else none

/-- Splits off hours and minutes. -/
def hourMinute? (cs : List Char) : Option (List Char) := do
  let (hour, cs) ← fixed? 2 cs
  let ':' :: cs := cs | none
  let (minute, cs) ← fixed? 2 cs
  if hour < 24 ∧ minute < 60 then some cs else none

/-- Splits off a fraction of a second, if there is one. -/
def fraction? (cs : List Char) : Option (List Char) :=
  match cs with
  | '.' :: digits =>
    if digits.head?.any Char.isDigit then some (digits.dropWhile Char.isDigit) else none
  | _ => some cs

/-- Splits off a time of day; the seconds may be missing. -/
def time? (cs : List Char) : Option (List Char) := do
  let cs ← hourMinute? cs
  match cs with
  | ':' :: cs =>
    let (second, cs) ← fixed? 2 cs
    if second ≤ 60 then fraction? cs else none
  | _ => some cs

/-- The rest of a date and time is an offset from universal time, or nothing. -/
def isOffset (cs : List Char) : Bool :=
  match cs with
  | [] | ['Z'] | ['z'] => true
  | '+' :: cs | '-' :: cs => hourMinute? cs = some []
  | _ => false

def isDate (cs : List Char) : Bool := date? cs = some []

def isDatetime (cs : List Char) : Bool :=
  match date? cs with
  | some [] => true
  | some ('T' :: cs) | some ('t' :: cs) | some (' ' :: cs) => (time? cs).any isOffset
  | some _ => false
  | none => time? cs = some []

/-- Reads an unquoted scalar. -/
def read? (cs : List Char) : Option Value :=
  if cs = ['t', 'r', 'u', 'e'] then some (.boolean true)
  else if cs = ['f', 'a', 'l', 's', 'e'] then some (.boolean false)
  else match integer? cs with
    | some n => some (.integer n)
    | none => match float? cs with
      | some inRange => some (.float inRange)
      | none => if isDatetime cs then some .datetime else none

end Timeshare.Toml.Scalar
