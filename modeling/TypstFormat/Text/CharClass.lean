import TypstFormat.Text.CharTable

/-!
# Character classes

The classes of characters that tell tokens apart, and those that decide how a character is quoted.
Characters below 0x80 are decided directly, all others by the tables of `Text.CharTable`.

* `isSpace` is the widest notion of white space and `isLineBreak` the part of it that ends a line
  of a document (`isSpace_of_isLineBreak`).
* `isLetter`, `isNumber` and their union `isAlphanumeric` make up words; `isDigit` is the part of
  the numbers that a numeral may hold (`isAlphanumeric_of_isDigit` for the ASCII digits).
* `isPrintable` holds of the characters that quoted text shows as they are.
-/

namespace TypstFormat.Text

/-- The characters that end a line: line feed, vertical tab, form feed, carriage return, next line,
line separator and paragraph separator. -/
def isLineBreak (c : Char) : Bool :=
  c = '\n' || c = '\x0b' || c = '\x0c' || c = '\r' || c = '\x85' || c = '\u2028' || c = '\u2029'

/-- White space: the space separators of every width, the control characters that move the
insertion point, and the information separators. -/
def isSpace (c : Char) : Bool :=
  let n := c.toNat
  (9 ≤ n && n ≤ 13) || (28 ≤ n && n ≤ 32) || n = 0x85 || n = 0xA0 || n = 0x1680
    || (0x2000 ≤ n && n ≤ 0x200A) || n = 0x2028 || n = 0x2029 || n = 0x202F || n = 0x205F
    || n = 0x3000

/-- Letters of any script, with or without case. -/
def isLetter (c : Char) : Bool :=
  if c.toNat < 0x80 then c.isAlpha else inRanges letterRanges c.toNat

/-- Numbers of any script: digits, letter-like numbers such as `Ⅷ`, and others such as `½`. -/
def isNumber (c : Char) : Bool :=
  if c.toNat < 0x80 then c.isDigit else inRanges numberRanges c.toNat

/-- Letters and numbers. -/
def isAlphanumeric (c : Char) : Bool :=
  isLetter c || isNumber c

/-- Digits, those in superscript, in subscript or in a circle among them. -/
def isDigit (c : Char) : Bool :=
  if c.toNat < 0x80 then c.isDigit else inRanges digitRanges c.toNat

/-- The value of a decimal digit of any script. -/
def decimalDigit? (c : Char) : Option Nat :=
  if c.toNat < 0x80 then
    if c.isDigit then some (c.toNat - 48) else none
  else
    (decimalRanges.find? fun range => range.1 ≤ c.toNat && c.toNat ≤ range.2).map
      fun range => (c.toNat - range.1) % 10

/-- Characters that have a visible form, and the ASCII space. -/
def isPrintable (c : Char) : Bool :=
  if c.toNat < 0x80 then 32 ≤ c.toNat && c.toNat < 127 else !inRanges unprintableRanges c.toNat

theorem isSpace_of_isLineBreak {c : Char} (h : isLineBreak c = true) : isSpace c = true := by
  simp only [isLineBreak, Bool.or_eq_true, decide_eq_true_eq] at h
  rcases h with (((((rfl | rfl) | rfl) | rfl) | rfl) | rfl) | rfl <;> decide

/-- White space in the narrow ASCII sense is white space. -/
theorem isSpace_of_isWhitespace {c : Char} (h : c.isWhitespace = true) : isSpace c = true := by
  simp only [Char.isWhitespace, Bool.or_eq_true, decide_eq_true_eq] at h
  rcases h with ((rfl | rfl) | rfl) | rfl <;> decide

/-- No ASCII character is a digit without being a number. -/
theorem isAlphanumeric_of_isDigit {c : Char} (hc : c.toNat < 0x80) (h : isDigit c = true) :
    isAlphanumeric c = true := by
  simp_all [isDigit, isAlphanumeric, isNumber]

end TypstFormat.Text
