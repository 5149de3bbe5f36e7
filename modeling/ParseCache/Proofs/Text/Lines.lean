/-
  ParseCache.Proofs.Text.Lines — the lines of a text, without cutting it.

  `Text.lines` cuts a text at its line feeds, takes the carriage return off every
  piece but the last, and forgets the last piece if it is empty.  Read the other
  way round, a text is its lines one after the other, each followed by its end:
  a line feed, or a carriage return and a line feed, or nothing behind the last
  line.  What is left to settle is that a text can be read so in one way only.
  The two ends overlap in the line feed; they are told apart by the character
  before it, so a line that ends in a line feed alone must not have a carriage
  return for its last character.

  Main results:
    * `lines_append` — a line feed parts the lines before it from those after it;
    * `lines_eq_iff` — every text is made of lines in exactly one way, and these
      are the lines that `lines` finds.
-/
import Mathlib.Data.List.Basic
import ParseCache.Text.Blank

namespace ParseCache.Text

/-! ## §1. Texts made of lines. -/

/-- The text is made of these lines, each with its end. -/
inductive LinesOf : List Char → List (List Char) → Prop
  | nil : LinesOf [] []
  /-- The last line needs no end.  If it has none, it is not empty. -/
  | unended {line : List Char} (hne : line ≠ []) (hfeed : '\n' ∉ line) : LinesOf line [line]
  | feed {line rest : List Char} {lines : List (List Char)} (hfeed : '\n' ∉ line)
      (hreturn : line.getLast? ≠ some '\r') (hrest : LinesOf rest lines) :
      LinesOf (line ++ '\n' :: rest) (line :: lines)
  | returnFeed {line rest : List Char} {lines : List (List Char)} (hfeed : '\n' ∉ line)
      (hrest : LinesOf rest lines) : LinesOf (line ++ '\r' :: '\n' :: rest) (line :: lines)

/-! ## §2. Carriage returns. -/

theorem stripReturn_of_ne {line : List Char} (h : line.getLast? ≠ some '\r') :
    stripReturn line = line := by
  unfold stripReturn
  split
  · rename_i hlast
    exact absurd hlast h
  · rfl

theorem stripReturn_append_return (line : List Char) : stripReturn (line ++ ['\r']) = line := by
  unfold stripReturn
  rw [List.getLast?_concat]
  exact List.dropLast_concat

/-! ## §3. Line feeds. -/

/-- Every piece before a line feed is a line, and the text after it goes on
with lines of its own. -/
theorem lines_append (front text : List Char) :
    lines (front ++ '\n' :: text) = (front.splitOn '\n').map stripReturn ++ lines text := by
  have hne : text.splitOn '\n' ≠ [] := List.splitOn_ne_nil '\n' text
  unfold lines
  simp only [List.splitOn_append_cons_self]
  rw [List.dropLast_append_of_ne_nil hne, List.getLast?_append_of_ne_nil _ hne,
    List.map_append, List.append_assoc]

/-- The first line feed ends the first line. -/
theorem lines_cons {line : List Char} (hfeed : '\n' ∉ line) (rest : List Char) :
    lines (line ++ '\n' :: rest) = stripReturn line :: lines rest := by
  rw [lines_append, List.splitOn_eq_singleton hfeed]
  rfl

/-- Without a line feed there is one line, and its carriage return stays. -/
theorem lines_of_notMem {line : List Char} (hne : line ≠ []) (hfeed : '\n' ∉ line) :
    lines line = [line] := by
  unfold lines
  rw [List.splitOn_eq_singleton hfeed]
  simp [hne]

/-! ## §4. Every text in one way. -/

/-- What a text is made of is what `lines` finds. -/
theorem LinesOf.lines_eq {text : List Char} {found : List (List Char)} (h : LinesOf text found) :
    lines text = found := by
  induction h with
  | nil => rfl
  | unended hne hfeed => exact lines_of_notMem hne hfeed
  | feed hfeed hreturn _ ih => rw [lines_cons hfeed, stripReturn_of_ne hreturn, ih]
  | @returnFeed line rest _ hfeed _ ih =>
    -- the carriage return belongs to the piece that is cut off
    have hpiece : '\n' ∉ line ++ ['\r'] := by simp [hfeed]
    have hcut : line ++ '\r' :: '\n' :: rest = (line ++ ['\r']) ++ '\n' :: rest := by simp
    rw [hcut, lines_cons hpiece, stripReturn_append_return, ih]

/-- A piece without line feeds, and the line feed after it, go in front of any
text that is made of lines. -/
theorem LinesOf.cons {piece rest : List Char} {found : List (List Char)} (hfeed : '\n' ∉ piece)
    (hrest : LinesOf rest found) :
    LinesOf (piece ++ '\n' :: rest) (stripReturn piece :: found) := by
  -- which of the two ends this is depends on the last character of the piece
  by_cases hreturn : piece.getLast? = some '\r'
  · obtain ⟨line, rfl⟩ := List.getLast?_eq_some_iff.1 hreturn
    have hline : '\n' ∉ line := fun hmem => hfeed (List.mem_append_left _ hmem)
    rw [stripReturn_append_return, List.append_assoc]
    exact .returnFeed hline hrest
  · rw [stripReturn_of_ne hreturn]
    exact .feed hfeed hreturn hrest

/-- Every text is made of its lines. -/
theorem linesOf_lines (text : List Char) : LinesOf text (lines text) := by
  -- by recursion on what is left behind the first line feed
  by_cases hfeed : '\n' ∈ text
  · obtain ⟨piece, rest, htext, hpiece⟩ := List.eq_append_cons_of_mem hfeed
    have hshorter : rest.length < text.length := by
      simp only [htext, List.length_append, List.length_cons]
      omega
    rw [htext, lines_cons hpiece]
    exact .cons hpiece (linesOf_lines rest)
  · by_cases hne : text = []
    · rw [hne]
      exact .nil
    · rw [lines_of_notMem hne hfeed]
      exact .unended hne hfeed
termination_by text.length
decreasing_by exact hshorter

/-- A text is made of lines in exactly one way. -/
theorem lines_eq_iff {text : List Char} {found : List (List Char)} :
    lines text = found ↔ LinesOf text found := by
  constructor
  · rintro rfl
    exact linesOf_lines text
  · exact LinesOf.lines_eq

/-- A carriage return that no line feed follows is part of its line. -/
example : lines "a\r\n\nb\rc\r".toList = ["a".toList, [], "b\rc\r".toList] := by decide

end ParseCache.Text
