/-!
# Lines and columns

Positions as they are reported to a reader: lines are counted from one and end at a line feed,
columns count characters from one, whatever their width. An offset past the end of the text stands
for its end.
-/

namespace TypstFormat.Text

/-- How many characters stand behind the last line feed of a text. -/
def lastLineLength (text : List Char) : Nat :=
  (text.reverse.takeWhile (· ≠ '\n')).length

/-- The line and the column of an offset, both counted from one. -/
def lineColumn (text : List Char) (offset : Nat) : Nat × Nat :=
  let before := text.take offset
  (before.count '\n' + 1, lastLineLength before + 1)

/-- The offset at which the line of `offset` starts. -/
def lineStart (text : List Char) (offset : Nat) : Nat :=
  let before := text.take offset
  before.length - lastLineLength before

/-- The column of an offset, counted from zero. -/
def column (text : List Char) (offset : Nat) : Nat :=
  offset - lineStart text offset

theorem lastLineLength_le (text : List Char) : lastLineLength text ≤ text.length := by
  have h := (List.takeWhile_sublist (l := text.reverse) (· ≠ '\n')).length_le
  simpa [lastLineLength] using h

/-- A line feed starts a line of no characters. -/
@[simp] theorem lastLineLength_append_newline (text : List Char) :
    lastLineLength (text ++ ['\n']) = 0 := by
  simp [lastLineLength]

/-- Any other character makes the last line longer by one. -/
theorem lastLineLength_append_of_ne {c : Char} (text : List Char) (h : c ≠ '\n') :
    lastLineLength (text ++ [c]) = lastLineLength text + 1 := by
  simp [lastLineLength, h]

end TypstFormat.Text
