/-!
# Blanks, lines and words

A blank is any character with the Unicode property `White_Space`. Lines end at a newline, which
is itself a blank; within a line, words are the maximal runs of characters that are not blank.
A line that is trimmed of its outer blanks has the same words as before, and a line without
words is empty once trimmed.
-/

namespace Unjump.Text

/-- Characters with the property `White_Space`. -/
def isBlank (c : Char) : Bool :=
  let n := c.toNat
  (0x09 ≤ n && n ≤ 0x0D) || n == 0x20 || n == 0x85 || n == 0xA0 || n == 0x1680 ||
    (0x2000 ≤ n && n ≤ 0x200A) || n == 0x2028 || n == 0x2029 || n == 0x202F || n == 0x205F ||
    n == 0x3000

/-- The lines of a text, without their newlines. -/
def lines (cs : List Char) : List (List Char) := cs.splitOn '\n'

/-- The text without the blanks around it. -/
def trim (cs : List Char) : List Char :=
  ((cs.dropWhile isBlank).reverse.dropWhile isBlank).reverse

/-- The words of a text: what stands between blanks, empty runs left out. -/
def words (cs : List Char) : List (List Char) :=
  (cs.splitOnP isBlank).filter fun w ↦ !w.isEmpty

end Unjump.Text
