import TypstFormat.Text.LineColumn
import Mathlib.Data.List.Basic
import Mathlib.Data.List.Induction
import Mathlib.Data.Nat.SuccPred
import Mathlib.Data.Prod.Lex
import Mathlib.Order.Interval.Set.Monotone

/-!
# Offsets and positions

The line and the column of an offset say as much as the offset does. Lines start at the beginning of
the text and behind each line feed (`lineStarts`); an offset is as far behind the start of its line
as its column says, and a later offset has a later position, line before column.

## Key results

- `lineColumn_lt_succ`: one character further is a later position
- `column_eq_lastLineLength`: a column counts the characters behind the last line feed
- `lineColumn_eq`: an offset is read off its position
- `lineColumn_of_getElem?_lineStarts`: every place in a line is the position of an offset
- `lineColumn_faithful`: positions are in the order of the offsets, and neither says more than
  the other
-/

namespace TypstFormat.Text

/-- The offsets at which the lines of a text start: zero, and those right behind a line feed. -/
def lineStarts (text : List Char) : List Nat :=
  0 :: (text.idxsOf '\n').map (· + 1)

variable {text : List Char}

/-! ## The starts of lines -/

theorem length_lineStarts (text : List Char) :
    (lineStarts text).length = text.count '\n' + 1 := by
  simp [lineStarts]

/-- Lines that start in a text start there whatever comes behind it. -/
theorem lineStarts_append (text back : List Char) :
    lineStarts (text ++ back) =
      lineStarts text ++ (back.idxsOf '\n' text.length).map (· + 1) := by
  simp [lineStarts, List.idxsOf_append]

/-- A line feed at the end of a text starts a line behind it. -/
theorem lineStarts_append_newline (text : List Char) :
    lineStarts (text ++ ['\n']) = lineStarts text ++ [text.length + 1] := by
  simp [lineStarts_append]

theorem lineStarts_append_of_ne {c : Char} (text : List Char) (h : c ≠ '\n') :
    lineStarts (text ++ [c]) = lineStarts text := by
  simp [lineStarts_append, h]

/-- The last line of a text starts in front of the characters that it has. -/
theorem getElem?_lineStarts_last (text : List Char) :
    (lineStarts text)[text.count '\n']? = some (text.length - lastLineLength text) := by
  induction text using List.reverseRecOn with
  | nil => rfl
  | append_singleton text c ih =>
    by_cases hc : c = '\n'
    · subst hc
      rw [lineStarts_append_newline, lastLineLength_append_newline,
        List.getElem?_append_right (by simp [length_lineStarts])]
      simp [length_lineStarts]
    · rw [lineStarts_append_of_ne text hc, lastLineLength_append_of_ne text hc, List.count_append,
        List.count_singleton, if_neg (by simpa using hc), Nat.add_zero, ih]
      simp

/-- The characters in front of the start of a line hold a line feed for each line before it, and
none of them belongs to the line. -/
theorem take_of_getElem?_lineStarts {line start : Nat} (h : (lineStarts text)[line]? = some start) :
    start ≤ text.length ∧ (text.take start).count '\n' = line ∧
      lastLineLength (text.take start) = 0 := by
  induction text using List.reverseRecOn with
  | nil =>
    obtain ⟨rfl, rfl⟩ : line = 0 ∧ start = 0 := by
      cases line <;> simp_all [lineStarts]
    exact ⟨Nat.le_refl _, rfl, rfl⟩
  | append_singleton text c ih =>
    -- What holds of a line of the text in front of the last character still does.
    have earlier (h : (lineStarts text)[line]? = some start) :
        start ≤ (text ++ [c]).length ∧ ((text ++ [c]).take start).count '\n' = line ∧
          lastLineLength ((text ++ [c]).take start) = 0 := by
      obtain ⟨hle, hrest⟩ := ih h
      rw [List.take_append_of_le_length hle, List.length_append]
      exact ⟨Nat.le_add_right_of_le hle, hrest⟩
    by_cases hc : c = '\n'
    · subst hc
      rw [lineStarts_append_newline, List.getElem?_append] at h
      split at h
      · exact earlier h
      · -- The line that the last character starts.
        rename_i hline
        rw [length_lineStarts] at h hline
        obtain ⟨hzero, rfl⟩ : line - (text.count '\n' + 1) = 0 ∧ text.length + 1 = start := by
          simpa [List.getElem?_singleton] using h
        have hwhole : (text ++ ['\n']).take (text.length + 1) = text ++ ['\n'] :=
          List.take_of_length_le (by simp)
        rw [hwhole, lastLineLength_append_newline, List.count_append, List.count_singleton_self]
        exact ⟨by simp, by omega, rfl⟩
    · rw [lineStarts_append_of_ne text hc] at h
      exact earlier h

/-! ## Positions -/

theorem lastLineLength_append {line : List Char} (text : List Char) (h : '\n' ∉ line) :
    lastLineLength (text ++ line) = lastLineLength text + line.length := by
  induction line using List.reverseRecOn with
  | nil => simp
  | append_singleton line c ih =>
    simp only [List.mem_append, List.mem_singleton, not_or] at h
    rw [← List.append_assoc, lastLineLength_append_of_ne _ (Ne.symm h.2), ih h.1, List.length_append,
      List.length_singleton, Nat.add_assoc]

theorem lastLineLength_of_not_mem {line : List Char} (h : '\n' ∉ line) :
    lastLineLength line = line.length :=
  (lastLineLength_append [] h).trans (Nat.zero_add _)

/-- What stands in front of a line feed does not count. -/
theorem lastLineLength_append_of_mem {line : List Char} (text : List Char) (h : '\n' ∈ line) :
    lastLineLength (text ++ line) = lastLineLength line := by
  induction line using List.reverseRecOn with
  | nil => cases h
  | append_singleton line c ih =>
    rw [← List.append_assoc]
    by_cases hc : c = '\n'
    · subst hc
      rw [lastLineLength_append_newline, lastLineLength_append_newline]
    · have hmem := (List.mem_append.1 h).resolve_right fun hc' => hc (List.mem_singleton.1 hc').symm
      rw [lastLineLength_append_of_ne _ hc, lastLineLength_append_of_ne _ hc, ih hmem]

/-- One character further is a later position: in the next line behind a line feed, and in the same
line behind any other character. -/
theorem lineColumn_lt_succ {offset : Nat} (h : offset < text.length) :
    toLex (lineColumn text offset) < toLex (lineColumn text (offset + 1)) := by
  have htake : text.take (offset + 1) = text.take offset ++ [text[offset]] :=
    List.take_succ_eq_append_getElem h
  rw [Prod.Lex.toLex_lt_toLex]
  simp only [lineColumn, htake, List.count_append]
  by_cases hc : text[offset] = '\n'
  · left
    rw [hc, List.count_singleton_self]
    omega
  · right
    rw [lastLineLength_append_of_ne _ hc, List.count_singleton, if_neg (by simpa using hc)]
    omega

theorem strictMonoOn_lineColumn (text : List Char) :
    StrictMonoOn (fun offset => toLex (lineColumn text offset)) (Set.Iic text.length) :=
  strictMonoOn_Iic_of_lt_succ fun _ => lineColumn_lt_succ

/-- The column of an offset counts the characters behind the last line feed. -/
theorem column_eq_lastLineLength {offset : Nat} (h : offset ≤ text.length) :
    column text offset = lastLineLength (text.take offset) := by
  have hle := lastLineLength_le (text.take offset)
  rw [List.length_take, Nat.min_eq_left h] at hle
  unfold column lineStart
  dsimp only
  rw [List.length_take, Nat.min_eq_left h]
  omega

/-- An offset is as far behind the start of its line as its column says. -/
theorem lineColumn_eq {offset : Nat} (h : offset ≤ text.length) :
    ∃ line start column, lineColumn text offset = (line + 1, column + 1) ∧
      (lineStarts text)[line]? = some start ∧ offset = start + column := by
  -- The line starts in the text in front of the offset already.
  have hlast := getElem?_lineStarts_last (text.take offset)
  have hearlier := lineStarts_append (text.take offset) (text.drop offset)
  rw [List.take_append_drop] at hearlier
  refine ⟨(text.take offset).count '\n', lineStart text offset, column text offset, ?_, ?_, ?_⟩
  · rw [column_eq_lastLineLength h]
    rfl
  · rw [hearlier, List.getElem?_append_left (List.getElem?_eq_some_iff.1 hlast).1, hlast]
    rfl
  · have hle : lineStart text offset ≤ offset :=
      Nat.le_trans (Nat.sub_le _ _) (List.length_take_le offset text)
    exact (Nat.add_sub_cancel' hle).symm

/-- Every place in a line, and the one behind its last character, is the position of an offset. -/
theorem lineColumn_of_getElem?_lineStarts {line start column : Nat}
    (hstart : (lineStarts text)[line]? = some start) (hle : start + column ≤ text.length)
    (hline : '\n' ∉ (text.drop start).take column) :
    lineColumn text (start + column) = (line + 1, column + 1) := by
  obtain ⟨_, hcount, hlast⟩ := take_of_getElem?_lineStarts hstart
  have hlength : ((text.drop start).take column).length = column := by
    rw [List.length_take, List.length_drop]
    omega
  simp only [lineColumn, List.take_add, List.count_append, hcount, lastLineLength_append _ hline,
    hlast, hlength, List.count_eq_zero_of_not_mem hline, Nat.add_zero, Nat.zero_add]

/-- Behind the end of a text there is only its end. -/
theorem lineColumn_of_length_le {offset : Nat} (h : text.length ≤ offset) :
    lineColumn text offset = lineColumn text text.length := by
  simp only [lineColumn, List.take_of_length_le h, List.take_length]

/-- The positions in a text are in the order of its offsets, first by line and then by column. The
offset of a position is as far behind the start of the line as the column says, every place in a line
is the position of an offset, and an offset past the end has the position of the end. -/
theorem lineColumn_faithful (text : List Char) :
    (∀ a b, a ≤ text.length → b ≤ text.length →
      (a < b ↔ toLex (lineColumn text a) < toLex (lineColumn text b))) ∧
    (∀ offset, offset ≤ text.length → ∃ line start column,
      lineColumn text offset = (line + 1, column + 1) ∧
      (lineStarts text)[line]? = some start ∧ offset = start + column) ∧
    (∀ line start column, (lineStarts text)[line]? = some start → start + column ≤ text.length →
      '\n' ∉ (text.drop start).take column →
        lineColumn text (start + column) = (line + 1, column + 1)) ∧
    ∀ offset, text.length ≤ offset → lineColumn text offset = lineColumn text text.length :=
  ⟨fun _ _ ha hb => ((strictMonoOn_lineColumn text).lt_iff_lt ha hb).symm,
    fun _ => lineColumn_eq,
    fun _ _ _ => lineColumn_of_getElem?_lineStarts,
    fun _ => lineColumn_of_length_le⟩

end TypstFormat.Text
