/-!
# Unsigned numerals

Reading and writing of unsigned numerals in a radix up to sixteen. A numeral is read whole or not
at all: one plus sign may lead it, at least one digit follows, and the value stays below the bound
of the field it is read for. Letters of either case are digits from ten on. Written numerals carry
no sign and are filled up with zeros on the left.
-/
namespace Timeshare.Numeral

/-- The value of a digit, whatever the radix. -/
def digitValue? (c : Char) : Option Nat :=
  if '0' ≤ c ∧ c ≤ '9' then some (c.toNat - 48)
  else if 'a' ≤ c ∧ c ≤ 'f' then some (c.toNat - 87)
  else if 'A' ≤ c ∧ c ≤ 'F' then some (c.toNat - 55)
  else none

/-- The value of `c` as a digit of `radix`. -/
def digit? (radix : Nat) (c : Char) : Option Nat :=
  (digitValue? c).filter (· < radix)

/-- Reads the digits that follow a numeral worth `value`. -/
def digitsFrom? (radix : Nat) (value : Nat) (digits : List Char) : Option Nat :=
  digits.foldlM (fun v c => (digit? radix c).map (v * radix + ·)) value

/-- Reads a run of one or more digits. -/
def digits? (radix : Nat) (digits : List Char) : Option Nat :=
  if digits.isEmpty then none else digitsFrom? radix 0 digits

/-- Reads an unsigned numeral below `bound`, with or without a plus sign. -/
def read? (radix bound : Nat) (numeral : List Char) : Option Nat :=
  let value := match numeral with
    | '+' :: digits => digits? radix digits
    | digits => digits? radix digits
  value.filter (· < bound)

/-- Fills `text` up to `width` characters on the left. -/
def padLeft (width : Nat) (fill : Char) (text : List Char) : List Char :=
  List.replicate (width - text.length) fill ++ text

/-- Fills `text` up to `width` characters on the right. -/
def padRight (width : Nat) (fill : Char) (text : List Char) : List Char :=
  text ++ List.replicate (width - text.length) fill

/-- Decimal digits, at least `width` of them. -/
def decimal (width n : Nat) : String :=
  String.ofList (padLeft width '0' (Nat.toDigits 10 n))

/-- Lower-case hexadecimal digits after `0x`, at least `width` of them. -/
def hex (width n : Nat) : String :=
  "0x" ++ String.ofList (padLeft width '0' (Nat.toDigits 16 n))

/-- Upper-case hexadecimal digits, at least `width` of them. -/
def hexUpper (width n : Nat) : String :=
  String.ofList (padLeft width '0' ((Nat.toDigits 16 n).map Char.toUpper))

/-- Two upper-case hexadecimal digits for each byte, one blank between bytes. -/
def hexBytes (bytes : List UInt8) : String :=
  String.intercalate " " (bytes.map fun b => hexUpper 2 b.toNat)

end Timeshare.Numeral
