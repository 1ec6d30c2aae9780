/-!
# White space and words

White space is the property of the same name in Unicode: twenty-five code points. A word is a
longest run of characters without it, so a text has the same words however the white space between
them is spelled.
-/
namespace Timeshare

/-- The `White_Space` property. -/
def isBlank (c : Char) : Bool :=
  let n := c.toNat
  (9 ≤ n && n ≤ 13) || n == 0x20 || n == 0x85 || n == 0xA0 || n == 0x1680 ||
    (0x2000 ≤ n && n ≤ 0x200A) || n == 0x2028 || n == 0x2029 || n == 0x202F || n == 0x205F ||
    n == 0x3000

/-- The words of a text, in order. -/
def wordsOf (text : List Char) : List (List Char) :=
  (text.splitOnP isBlank).filter (!·.isEmpty)

/-- The words of a string. -/
def words (text : String) : List String :=
  (wordsOf text.toList).map String.ofList

end Timeshare
