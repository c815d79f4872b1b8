/-!
# Padding

Columns of a listing have a least width: `padLeft` and `padRight` fill a shorter text up, and leave a
longer one alone.
-/

namespace TypstFormat.Text

/-- A text with blanks in front of it, so that it takes at least `width` characters. -/
def padLeft (width : Nat) (blank : Char) (text : String) : String :=
  String.ofList (List.replicate (width - text.length) blank) ++ text

/-- A text with spaces behind it, so that it takes at least `width` characters. -/
def padRight (width : Nat) (text : String) : String :=
  text ++ String.ofList (List.replicate (width - text.length) ' ')

/-- A text that is wide enough is not padded. -/
theorem padRight_of_le {width : Nat} {text : String} (h : width ≤ text.length) :
    padRight width text = text := by
  simp [padRight, Nat.sub_eq_zero_of_le h]

end TypstFormat.Text
