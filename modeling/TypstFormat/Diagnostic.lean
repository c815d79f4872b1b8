import TypstFormat.Text.Range

/-!
# Diagnostics

A `Diagnostic` tells a reader what is wrong with a range of the source. The scanner and the grammar
report the `Issue`s listed here; `Issue.report` makes a diagnostic of one. `collect` brings several
groups of diagnostics into the order in which they are shown.
-/

namespace TypstFormat

open Text (Range)

inductive Severity where
  | error
  | warning
  deriving DecidableEq, Repr

def Severity.name : Severity → String
  | error => "error"
  | warning => "warning"

/-- A message about a range of the source. -/
structure Diagnostic where
  code : String
  message : String
  range : Range
  severity : Severity := .error
  hint : Option String := none
  category : Option String := none
  deriving DecidableEq, Repr

/-- What the scanner and the grammar complain about. -/
inductive Issue where
  | unterminatedString
  | unterminatedRaw
  | unterminatedComment
  | invalidCharacter
  | expectedToken
  | expectedExpression
  | unexpectedToken
  | expectedSeparator
  | unclosedDelimiter
  deriving DecidableEq, Repr

namespace Issue

def all : List Issue :=
  [.unterminatedString, .unterminatedRaw, .unterminatedComment, .invalidCharacter, .expectedToken,
    .expectedExpression, .unexpectedToken, .expectedSeparator, .unclosedDelimiter]

def code : Issue → String
  | .unterminatedString => "LEXER_UNTERMINATED_STRING"
  | .unterminatedRaw => "LEXER_UNTERMINATED_RAW"
  | .unterminatedComment => "LEXER_UNTERMINATED_BLOCK_COMMENT"
  | .invalidCharacter => "LEXER_INVALID_CHARACTER"
  | .expectedToken => "PARSER_EXPECTED_TOKEN"
  | .expectedExpression => "PARSER_EXPECTED_EXPRESSION"
  | .unexpectedToken => "PARSER_UNEXPECTED_TOKEN"
  | .expectedSeparator => "PARSER_EXPECTED_SEMICOLON_OR_LINE_BREAK"
  | .unclosedDelimiter => "PARSER_UNCLOSED_DELIMITER"

/-- The message of an issue that is reported without a message of its own. -/
def message : Issue → String
  | .unterminatedString => "Unterminated string literal."
  | .unterminatedRaw => "Unterminated raw text."
  | .unterminatedComment => "Unterminated block comment."
  | .invalidCharacter => "Invalid character in code."
  | .expectedToken => "Expected token"
  | .expectedExpression => "Expected expression"
  | .unexpectedToken => "Unexpected token"
  | .expectedSeparator => "Expected semicolon or line break"
  | .unclosedDelimiter => "Unclosed delimiter"

def hint : Issue → Option String
  | .unterminatedString => some "Close the string with a double quote."
  | .unterminatedRaw =>
    some "Close the raw block with the same number of backticks it was opened with."
  | .unterminatedComment => some "Close the comment with `*/`."
  | .expectedSeparator => some "Separate statements with `;` or put them on their own lines."
  | _ => none

/-- Whether an issue lies in the characters of one token; all others lie in the order of tokens. -/
def isLexical : Issue → Bool
  | .unterminatedString | .unterminatedRaw | .unterminatedComment | .invalidCharacter => true
  | _ => false

/-- The issue with a given code. -/
def ofCode? (code : String) : Option Issue :=
  all.find? fun issue => issue.code == code

/-- The diagnostic for an issue found in a range. -/
def report (issue : Issue) (range : Range) (message : Option String := none) : Diagnostic where
  code := issue.code
  message := message.getD issue.message
  range := range
  hint := issue.hint
  category := some (if issue.isLexical then "lexer" else "parser")

end Issue

namespace Diagnostic

/-- Whether `a` is shown before `b`, or may be: by where they start, by where they end, by code and
by message. -/
def precedes (a b : Diagnostic) : Bool :=
  a.range < b.range || (a.range = b.range
    && (a.code < b.code || (a.code = b.code && a.message ≤ b.message)))

/-- The diagnostics of all groups in the order in which they are shown. Diagnostics that agree in
range, code and message keep the order in which they were given. -/
def collect (groups : List (List Diagnostic)) : List Diagnostic :=
  groups.flatten.mergeSort precedes

/-- Whether one of the diagnostics is an error. -/
def hasErrors (diagnostics : List Diagnostic) : Bool :=
  diagnostics.any fun d => d.severity = .error

theorem mem_collect {d : Diagnostic} {groups : List (List Diagnostic)} :
    d ∈ collect groups ↔ ∃ group ∈ groups, d ∈ group := by
  simp [collect]

/-- Nothing is lost or doubled by sorting. -/
theorem collect_perm (groups : List (List Diagnostic)) : (collect groups).Perm groups.flatten :=
  List.mergeSort_perm _ _

end Diagnostic

end TypstFormat
