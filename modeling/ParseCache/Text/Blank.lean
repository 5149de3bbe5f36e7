/-
  ParseCache.Text.Blank — white space, and the lines of a text.

  White space is the Unicode property `White_Space`, 25 characters.  A line
  ends with a line feed or with a carriage return and a line feed; a carriage
  return alone ends nothing.  What follows the last line feed is a line unless
  it is empty.
-/

namespace ParseCache.Text

/-- Whether a character is white space. -/
def isBlank (c : Char) : Bool :=
  let n := c.toNat
  (0x09 ≤ n && n ≤ 0x0D) || n == 0x20 || n == 0x85 || n == 0xA0 || n == 0x1680
    || (0x2000 ≤ n && n ≤ 0x200A) || n == 0x2028 || n == 0x2029 || n == 0x202F
    || n == 0x205F || n == 0x3000

/-- A line without the white space it starts with. -/
def trimStart (line : List Char) : List Char := line.dropWhile isBlank

/-- A line that ended in a line feed, without the carriage return before it. -/
def stripReturn (line : List Char) : List Char :=
  match line.getLast? with
  | some '\r' => line.dropLast
  | _ => line

/-- The lines of a text. -/
def lines (text : List Char) : List (List Char) :=
  let pieces := text.splitOn '\n'
  pieces.dropLast.map stripReturn ++ (pieces.getLast?.toList.filter (· ≠ []))

end ParseCache.Text
