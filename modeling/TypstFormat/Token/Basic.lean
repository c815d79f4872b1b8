import TypstFormat.Kind
import TypstFormat.Text.CharClass
import TypstFormat.Text.Padding
import TypstFormat.Text.Quoted
import TypstFormat.Text.Range

/-!
# Tokens

A document is written in three languages, one `Mode` each: markup, code and math. The scanner cuts
the source into `Token`s, and which cut is made depends on the mode. White space and comments
between the tokens of code and math are kept as `Trivia`.
-/

namespace TypstFormat

open Text (Range)

/-- The languages that a source is made of. -/
inductive Mode where
  | markup
  | code
  | math
  deriving DecidableEq, Repr

namespace Mode

def all : List Mode :=
  [.markup, .code, .math]

def name : Mode → String
  | .markup => "markup"
  | .code => "code"
  | .math => "math"

def ofName? (name : String) : Option Mode :=
  all.find? fun mode => mode.name == name

/-- The kind of the root of a source that is written in one language as a whole. -/
def rootKind : Mode → Kind
  | .markup => .markup
  | .code => .code
  | .math => .math

/-- White space: in markup only spaces, tabs and line breaks, since other spaces are text there. -/
def isBlank : Mode → Char → Bool
  | .markup, c => c = ' ' || c = '\t' || Text.isLineBreak c
  | _, c => Text.isSpace c

theorem isBlank_of_isLineBreak {mode : Mode} {c : Char} (h : Text.isLineBreak c = true) :
    mode.isBlank c = true := by
  cases mode <;> simp [isBlank, h, Text.isSpace_of_isLineBreak]

theorem isBlank_slash (mode : Mode) : mode.isBlank '/' = false := by
  cases mode <;> decide

theorem isSpace_of_isBlank {mode : Mode} {c : Char} (h : mode.isBlank c = true) :
    Text.isSpace c = true := by
  cases mode with
  | markup =>
    simp only [isBlank, Bool.or_eq_true, decide_eq_true_eq] at h
    rcases h with (rfl | rfl) | h
    · rfl
    · rfl
    · exact Text.isSpace_of_isLineBreak h
  | code => exact h
  | math => exact h

end Mode

/-- A piece of the source: its kind, where it stands, and what is worth knowing of its text. -/
structure Token where
  kind : Kind
  range : Range
  /-- White space that spans a line break. -/
  containsNewline : Bool := false
  /-- Text in which a backslash escapes a character. -/
  hasEscape : Bool := false
  deriving DecidableEq, Repr

/-- White space or a comment between the tokens of code or math. -/
structure Trivia where
  kind : Kind
  range : Range
  containsNewline : Bool := false
  deriving DecidableEq, Repr

namespace Token

/-- The token that stands for the end of the text. -/
def eof (offset : Nat) : Token where
  kind := .eof
  range := Range.empty offset

/-- What a token holds, as a number: 1 for a line break, 2 for an escape, and their sum for both. -/
def flags (token : Token) : Nat :=
  token.containsNewline.toNat + 2 * token.hasEscape.toNat

/-- The characters of a token in the source it was cut from. -/
def text (source : List Char) (token : Token) : List Char :=
  if token.kind = .eof then [] else token.range.slice source

def toTrivia (token : Token) : Trivia where
  kind := token.kind
  range := token.range
  containsNewline := token.containsNewline

/-- A token as one line: its number in a list, and all that is known of it. -/
def line (source : List Char) (index : Nat) (token : Token) : String :=
  let index := Text.padLeft 3 '0' (toString index)
  let kind := Text.padRight 18 token.kind.name
  let text := String.ofList (Text.quoted (token.text source))
  s!"{index} {kind} range=({token.range.start}, {token.range.stop}) flags={token.flags} text={text}"

/-- The lines of tokens, numbered from `index` on. -/
def lines (source : List Char) (index : Nat) : List Token → List String
  | [] => []
  | token :: tokens => line source index token :: lines source (index + 1) tokens

/-- A list of tokens, one in each line. -/
def listing (source : List Char) (tokens : List Token) : String :=
  "\n".intercalate (lines source 0 tokens)

end Token

end TypstFormat
