import Timeshare.Text.CaseTable

/-!
# Lower case

The lower-case form of a text. Every character is mapped on its own, but for two: a dotted capital
I becomes a small i and a combining dot, and a capital sigma takes its final form at the end of a
word.
-/
namespace Timeshare.LowerCase

def inRanges (ranges : Array (Nat × Nat)) (n : Nat) : Bool :=
  ranges.any fun r => r.1 ≤ n && n ≤ r.2

def isCased (c : Char) : Bool := inRanges casedRanges c.toNat

def isCaseIgnorable (c : Char) : Bool := inRanges caseIgnorableRanges c.toNat

/-- The simple lower-case mapping. -/
def lowerChar (c : Char) : Char :=
  if c.toNat < 128 then c.toLower
  else match lowerRuns.findSome? (·.lower? c.toNat) with
    | some n => Char.ofNat n
    | none => c

/-- The first character that is not case-ignorable is cased. -/
def meetsCased (cs : List Char) : Bool :=
  match cs.find? (!isCaseIgnorable ·) with
  | some c => isCased c
  | none => false

/-- A capital sigma ends a word if the nearest cased neighbour, case-ignorable characters apart,
stands before it and not after it. -/
def lowerSigma (before after : List Char) : Char :=
  if meetsCased before && !meetsCased after then 'ς' else 'σ'

/-- Lower-cases `text`, where `before` holds the characters in front of it, the nearest first. -/
def lowerFrom (before : List Char) (lowered : List Char) : List Char → List Char
  | [] => lowered.reverse
  | 'Σ' :: cs => lowerFrom ('Σ' :: before) (lowerSigma before cs :: lowered) cs
  | 'İ' :: cs => lowerFrom ('İ' :: before) ('\u0307' :: 'i' :: lowered) cs
  | c :: cs => lowerFrom (c :: before) (lowerChar c :: lowered) cs

end Timeshare.LowerCase

namespace Timeshare

/-- The lower-case form of a string. -/
def lowerCase (text : String) : String :=
  String.ofList (LowerCase.lowerFrom [] [] text.toList)

end Timeshare
