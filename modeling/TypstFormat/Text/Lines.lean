import TypstFormat.Text.CharClass

/-!
# Splitting into lines

`splitLines` cuts a text behind every character that separates lines, a carriage return and the
line feed behind it counting as one separator. No character is lost (`flatten_splitLines`).
-/

namespace TypstFormat.Text

/-- The characters behind which `splitLines` cuts: the line breaks of a document, and the file,
group and record separators. -/
def isLineSeparator (c : Char) : Bool :=
  isLineBreak c || c = '\x1c' || c = '\x1d' || c = '\x1e'

/-- The lines of a text, each with the separator that ends it. -/
def splitLines : List Char → List (List Char)
  | [] => []
  | '\r' :: '\n' :: rest => ['\r', '\n'] :: splitLines rest
  | c :: rest =>
    if isLineSeparator c then
      [c] :: splitLines rest
    else
      match splitLines rest with
      | [] => [[c]]
      | line :: lines => (c :: line) :: lines

theorem flatten_splitLines (text : List Char) : (splitLines text).flatten = text := by
  fun_induction splitLines text with
  | case1 => rfl
  | case2 rest ih => simp [ih]
  | case3 c rest _ _ ih => simp [ih]
  | case4 c rest _ _ hrest ih => simpa [hrest] using ih
  | case5 c rest _ _ line lines hrest ih => simpa [hrest] using ih

/-- Every line holds at least its separator or one other character. -/
theorem ne_nil_of_mem_splitLines {text line : List Char} (h : line ∈ splitLines text) :
    line ≠ [] := by
  fun_induction splitLines text with
  | case1 => simp at h
  | case2 rest ih => rcases List.mem_cons.1 h with rfl | h <;> simp_all
  | case3 c rest _ _ ih => rcases List.mem_cons.1 h with rfl | h <;> simp_all
  | case4 c rest _ _ hrest ih => simp_all
  | case5 c rest _ _ line lines hrest ih => rcases List.mem_cons.1 h with rfl | h <;> simp_all

end TypstFormat.Text
