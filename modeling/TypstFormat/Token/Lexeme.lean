import TypstFormat.Diagnostic
import TypstFormat.Text.Quoted
import TypstFormat.Token.Basic

/-!
# Lexemes

`Lexeme.scan` reads the lexeme at the start of a text that is not empty: it says what kind of token
stands there and how many characters it takes, given the mode and the character before it. It is
one rule after another, in three groups: those of all modes, those of markup, and those of math and
of code.

A lexeme counts the characters behind its first one (`tail`), so that it always takes at least one.
Every count is the length of something found in the text, so a lexeme never reaches past its end.
-/

namespace TypstFormat

open Text

/-- What is wrong with the characters of one lexeme. -/
structure Flaw where
  issue : Issue
  message : Option String := none
  deriving DecidableEq, Repr

/-- One token at the start of a text. -/
structure Lexeme where
  kind : Kind
  /-- How many characters the token takes after its first one. -/
  tail : Nat
  containsNewline : Bool := false
  hasEscape : Bool := false
  flaw : Option Flaw := none
  deriving DecidableEq, Repr

/-- How far a delimited piece of text reaches, and how it ends. -/
structure Span where
  length : Nat := 0
  /-- Whether the closing delimiter was found. -/
  closed : Bool := false
  hasEscape : Bool := false
  deriving DecidableEq, Repr

namespace Span

def grow (n : Nat) (span : Span) : Span :=
  { span with length := span.length + n }

/-- The flaw of a piece of text that has to be closed. -/
def flaw (issue : Issue) (span : Span) : Option Flaw :=
  if span.closed then none else some { issue }

end Span

namespace Lexeme

/-! ## Rules of all modes -/

/-- How many lines end in a text, a carriage return and the line feed behind it counting once. -/
def lineBreaks : List Char → Nat
  | [] => 0
  | '\r' :: '\n' :: rest => lineBreaks rest + 1
  | c :: rest => lineBreaks rest + (isLineBreak c).toNat

/-- White space is taken as far as it reaches. In markup, two line breaks end a paragraph. -/
def whitespace (mode : Mode) (c : Char) (rest : List Char) : Lexeme :=
  let run := rest.takeWhile mode.isBlank
  let breaks := lineBreaks (c :: run)
  { kind := if mode = .markup ∧ 2 ≤ breaks then .parbreak else .space
    tail := run.length
    containsNewline := 0 < breaks }

/-- A line comment, behind its first slash: the line break that ends it is not part of it. -/
def lineComment (rest : List Char) : Lexeme :=
  { kind := .lineComment
    tail := 1 + ((rest.drop 1).takeWhile fun c => !isLineBreak c).length }

/-- The rest of a block comment, inside `depth` comments nested in it. -/
def commentSpan : Nat → List Char → Span
  | _, [] => {}
  | 0, '*' :: '/' :: _ => { length := 2, closed := true }
  | depth + 1, '*' :: '/' :: rest => (commentSpan depth rest).grow 2
  | depth, '/' :: '*' :: rest => (commentSpan (depth + 1) rest).grow 2
  | depth, _ :: rest => (commentSpan depth rest).grow 1

/-- A block comment, behind its first slash. Block comments nest. -/
def blockComment (rest : List Char) : Lexeme :=
  let span := commentSpan 0 (rest.drop 1)
  { kind := .blockComment, tail := 1 + span.length, flaw := span.flaw .unterminatedComment }

/-- A backslash, behind it: it breaks the line before white space and at the end of the text, and
escapes anything else, a code point in braces as a whole. -/
def backslash (mode : Mode) : List Char → Lexeme
  | [] => { kind := .linebreak, tail := 0 }
  | 'u' :: '{' :: rest =>
    let digits := rest.takeWhile (· ≠ '}')
    { kind := .escape
      tail := 2 + digits.length + ((rest.drop digits.length).take 1).length
      hasEscape := true }
  | c :: _ =>
    if mode.isBlank c then { kind := .linebreak, tail := 0 }
    else { kind := .escape, tail := 1, hasEscape := true }

/-- The rest of a string behind its opening quote. -/
def stringSpan : List Char → Span
  | [] => {}
  | '\x22' :: _ => { length := 1, closed := true }
  | '\\' :: _ :: rest => { (stringSpan rest).grow 2 with hasEscape := true }
  | ['\\'] => { length := 1, hasEscape := true }
  | _ :: rest => (stringSpan rest).grow 1

/-- A string, behind its opening quote. -/
def string (rest : List Char) : Lexeme :=
  let span := stringSpan rest
  { kind := .str
    tail := span.length
    hasEscape := span.hasEscape
    flaw := span.flaw .unterminatedString }

/-- The rest of raw text behind `run` backticks in a row, up to the first `fence` in a row. -/
def rawSpan (fence : Nat) : Nat → List Char → Span
  | _, [] => {}
  | run, c :: rest =>
    let run := if c = '\x60' then run + 1 else 0
    if run = fence then { length := 1, closed := true } else (rawSpan fence run rest).grow 1

/-- Raw text, behind its first backtick. It ends with as many backticks as it starts with, and two
backticks are empty raw text. -/
def raw (rest : List Char) : Lexeme :=
  let fence := rest.takeWhile (· = '\x60')
  if fence.length = 1 then
    { kind := .raw, tail := 1 }
  else
    let span := rawSpan (fence.length + 1) 0 (rest.drop fence.length)
    { kind := .raw, tail := fence.length + span.length, flaw := span.flaw .unterminatedRaw }

/-- The characters that a label may be made of. -/
def isLabelChar (c : Char) : Bool :=
  isAlphanumeric c || c = '_' || c = '-' || c = '.' || c = ':'

/-- A label in angle brackets, behind the opening one; none if it is empty or not closed. -/
def label? (rest : List Char) : Option Lexeme :=
  let name := rest.takeWhile isLabelChar
  if name ≠ [] ∧ (rest.drop name.length).head? = some '>' then
    some { kind := .label, tail := name.length + 1 }
  else
    none

/-! ## Rules of markup -/

/-- How many characters of a text are left when the last ones for which `p` holds are cut off. -/
def trimmedLength (p : Char → Bool) (text : List Char) : Nat :=
  (text.reverse.dropWhile p).length

/-- Whether the text behind the character `h` makes it the start of a link. -/
def startsLink (rest : List Char) : Bool :=
  ['t', 't', 'p', ':', '/', '/'].isPrefixOf rest
    || ['t', 't', 'p', 's', ':', '/', '/'].isPrefixOf rest

/-- How many characters of a text belong to a link inside `depth` open brackets. A closing bracket
belongs to it only if it opened one. -/
def linkSpan : Nat → List Char → Nat
  | _, [] => 0
  | depth, c :: rest =>
    if Mode.markup.isBlank c || c = '<' || c = '>' || c = '\x22' then 0
    else if c = '(' || c = '[' then linkSpan (depth + 1) rest + 1
    else if c = ')' || c = ']' then
      match depth with
      | 0 => 0
      | depth + 1 => linkSpan depth rest + 1
    else linkSpan depth rest + 1

/-- Punctuation that belongs to the sentence around a link and not to the link. -/
def isLinkPunctuation (c : Char) : Bool :=
  c = '.' || c = ',' || c = ';' || c = ':' || c = '!' || c = '?' || c = '\x27'

/-- A link, behind its first character. -/
def link (rest : List Char) : Lexeme :=
  { kind := .link, tail := trimmedLength isLinkPunctuation (rest.take (linkSpan 0 rest)) }

/-- A reference, behind the at sign. It never ends in punctuation: `@intro.` refers to `intro`. -/
def refMarker (rest : List Char) : Lexeme :=
  { kind := .refMarker
    tail := trimmedLength (fun c => c = '.' || c = ':') (rest.takeWhile isLabelChar) }

/-- The characters that may end a run of text. -/
def isMarkupSpecial (c : Char) : Bool :=
  Mode.markup.isBlank c
    || ['\\', '/', '[', ']', '~', '-', '.', '\x27', '\x22', '*', '_', ':', 'h', '\x60', '$', '<',
      '>', '@', '#'].contains c

/-- Whether the first character of a text goes on with a run of text. A special character does if
it would be text by itself as well. -/
def continuesText (c : Char) (rest : List Char) : Bool :=
  if isMarkupSpecial c then
    match c with
    | ' ' => rest.head?.any isAlphanumeric
    | '/' => !rest.head?.any fun d => d = '/' || d = '*'
    | '-' => !rest.head?.any fun d => d = '-' || d = '?'
    | '.' => !(['.', '.'].isPrefixOf rest)
    | 'h' => !startsLink rest
    | '@' => !rest.head?.any isLabelChar
    | _ => false
  else
    true

/-- How many characters at the start of a text go on with a run of text. -/
def textSpan : List Char → Nat
  | [] => 0
  | c :: rest => if continuesText c rest then textSpan rest + 1 else 0

/-- A run of text that takes at least `n` characters after its first one. -/
def text (n : Nat) (rest : List Char) : Lexeme :=
  { kind := .text, tail := n + textSpan (rest.drop n) }

/-- Whether a marker that stands at the start of a line is set off from what follows it. -/
def setsOffMarker (rest : List Char) : Bool :=
  rest.head?.all fun c => c = '\x00' || Mode.markup.isBlank c

/-- A marker that takes `n` characters after its first one, or text if it is not set off. -/
def marker (kind : Kind) (n : Nat) (rest : List Char) : Lexeme :=
  if setsOffMarker (rest.drop n) then { kind, tail := n } else text n rest

/-- A number that may mark an item, behind its first digit. -/
def enumMarker (rest : List Char) : Lexeme :=
  let digits := (rest.takeWhile isDigit).length
  match rest.drop digits with
  | '.' :: rest' =>
    if setsOffMarker rest' then { kind := .enumMarker, tail := digits + 1 } else text digits rest
  | _ => text digits rest

/-- Whether a star or an underscore stands inside a word, between two letters or numbers. -/
def isInsideWord (before : Option Char) (rest : List Char) : Bool :=
  before.any isAlphanumeric && rest.head?.any isAlphanumeric

/-- Punctuation of markup that is a token by itself. -/
def markupPunctuation? : Char → Option Kind
  | '#' => some .hash
  | '[' => some .leftBracket
  | ']' => some .rightBracket
  | '\x27' => some .smartQuote
  | '\x22' => some .smartQuote
  | '$' => some .dollar
  | ':' => some .colon
  | _ => none

/-- How many characters after its first one a shorthand takes. -/
def shorthand? (c : Char) (rest : List Char) : Option Nat :=
  if c = '.' ∧ ['.', '.'].isPrefixOf rest then some 2
  else if c = '-' ∧ ['-', '-'].isPrefixOf rest then some 2
  else if c = '-' ∧ rest.head?.any (fun d => d = '-' || d = '?') then some 1
  else if c = '-' ∧ rest.head?.any isDigit then some 0
  else if c = '~' then some 0
  else none

/-- The characters that mark something only at certain places, and are text otherwise. -/
def markupMarker (before : Option Char) (c : Char) (rest : List Char) : Lexeme :=
  if c = '*' ∧ !isInsideWord before rest then { kind := .star, tail := 0 }
  else if c = '_' ∧ !isInsideWord before rest then { kind := .underscore, tail := 0 }
  else if c = '=' then marker .headingMarker (rest.takeWhile (· = '=')).length rest
  else if c = '-' then marker .listMarker 0 rest
  else if c = '+' then marker .enumMarker 0 rest
  else if c = '/' then marker .termMarker 0 rest
  else if isDigit c then enumMarker rest
  else text 0 rest

def markup (before : Option Char) (c : Char) (rest : List Char) : Lexeme :=
  if c = '\\' then backslash .markup rest
  else if c = '\x60' then raw rest
  else if c = 'h' ∧ startsLink rest then link rest
  else if c = '@' ∧ rest.head?.any isLabelChar then refMarker rest
  else
    match if c = '<' then label? rest else none with
    | some lexeme => lexeme
    | none =>
      match shorthand? c rest with
      | some n => { kind := .shorthand, tail := n }
      | none =>
        match markupPunctuation? c with
        | some kind => { kind, tail := 0 }
        | none => markupMarker before c rest

/-! ## Rules of math -/

/-- How many characters at the start of a text are plain math. -/
def mathSpan : List Char → Nat
  | [] => 0
  | c :: rest =>
    if isSpace c || c = '$' || c = '#' || c = '\\' || c = '\x22' then 0
    else if c = '/' && rest.head?.any (fun d => d = '/' || d = '*') then 0
    else mathSpan rest + 1

def math (c : Char) (rest : List Char) : Lexeme :=
  if c = '\\' then backslash .math rest
  else if c = '\x22' then string rest
  else if c = '$' then { kind := .dollar, tail := 0 }
  else if c = '#' then { kind := .hash, tail := 0 }
  else { kind := .mathText, tail := mathSpan rest }

/-! ## Rules of code -/

def isIdentStart (c : Char) : Bool :=
  isLetter c || c = '_'

def isIdentContinue (c : Char) : Bool :=
  isAlphanumeric c || c = '_'

/-- A name or a keyword, behind its first character. Names may hold hyphens. -/
def ident (c : Char) (rest : List Char) : Lexeme :=
  let name := rest.takeWhile fun d => isIdentContinue d || d = '-'
  { kind := (Kind.ofKeyword? (c :: name)).getD .ident, tail := name.length }

/-- The units that a number may carry. -/
def units : List (List Char) :=
  [['p', 't'], ['m', 'm'], ['c', 'm'], ['i', 'n'], ['e', 'm'], ['f', 'r'], ['d', 'e', 'g'],
    ['r', 'a', 'd']]

/-- How many characters at the start of a text are a point and decimals. -/
def fractionSpan : List Char → Nat
  | '.' :: d :: rest => if isDigit d then 2 + (rest.takeWhile isDigit).length else 0
  | _ => 0

/-- How many characters at the start of a text are an exponent. -/
def exponentSpan : List Char → Nat
  | e :: d :: rest =>
    if (e = 'e' || e = 'E')
        && (isDigit d || ((d = '+' || d = '-') && rest.head?.any isDigit)) then
      2 + (rest.takeWhile isDigit).length
    else 0
  | _ => 0

/-- How many characters at the start of a text are a percent sign or a unit. -/
def unitSpan : List Char → Nat
  | '%' :: _ => 1
  | rest =>
    let suffix := rest.takeWhile isLetter
    if units.contains suffix then suffix.length else 0

/-- A number in base ten: digits, a fraction, an exponent and a unit, each of which may be missing. -/
def decimal (text : List Char) : Kind × Nat :=
  let digits := (text.takeWhile isDigit).length
  let fraction := fractionSpan (text.drop digits)
  let exponent := exponentSpan (text.drop (digits + fraction))
  let value := digits + fraction + exponent
  let unit := unitSpan (text.drop value)
  let kind :=
    if 0 < unit then Kind.numeric
    else if 0 < fraction + exponent then .float
    else .int
  (kind, value + unit)

/-- A number, together with the character it starts with. A zero and one of `x`, `b` and `o` start
an integer in another base. -/
def number (c : Char) (rest : List Char) : Lexeme :=
  if c = '0' ∧ rest.head?.any (fun d => d = 'x' || d = 'b' || d = 'o') then
    { kind := .int, tail := 1 + ((rest.drop 1).takeWhile isAlphanumeric).length }
  else
    let (kind, length) := decimal (c :: rest)
    { kind, tail := length - 1 }

/-- Operators of two characters. -/
def longOperator? : Char → Option Char → Option Kind
  | '=', some '>' => some .arrow
  | '=', some '=' => some .eqEq
  | '!', some '=' => some .exclEq
  | '<', some '=' => some .ltEq
  | '>', some '=' => some .gtEq
  | '+', some '=' => some .plusEq
  | '-', some '=' => some .hyphEq
  | '*', some '=' => some .starEq
  | '/', some '=' => some .slashEq
  | '.', some '.' => some .dots
  | _, _ => none

/-- Operators, punctuation and delimiters of one character. -/
def operator? : Char → Option Kind
  | '=' => some .eq
  | '<' => some .lt
  | '>' => some .gt
  | '+' => some .plus
  | '-' => some .minus
  | '*' => some .star
  | '/' => some .slash
  | '.' => some .dot
  | ',' => some .comma
  | ';' => some .semicolon
  | ':' => some .colon
  | '(' => some .leftParen
  | ')' => some .rightParen
  | '[' => some .leftBracket
  | ']' => some .rightBracket
  | '{' => some .leftBrace
  | '}' => some .rightBrace
  | '$' => some .dollar
  | _ => none

/-- A character that no token of code starts with. -/
def invalid (c : Char) : Lexeme :=
  let message := s!"Invalid character {String.ofList (quoted [c])} in code."
  { kind := .error, tail := 0, flaw := some { issue := .invalidCharacter, message } }

/-- An operator, or a character that is none. -/
def operator (c : Char) (rest : List Char) : Lexeme :=
  match longOperator? c rest.head? with
  | some kind => { kind, tail := 1 }
  | none =>
    match operator? c with
    | some kind => { kind, tail := 0 }
    | none => invalid c

def code (c : Char) (rest : List Char) : Lexeme :=
  if c = '\x22' then string rest
  else if c = '\x60' then raw rest
  else
    match if c = '<' then label? rest else none with
    | some lexeme => lexeme
    | none =>
      if isDigit c || (c = '.' && rest.head?.any isDigit) then number c rest
      else if c = '_' ∧ !rest.head?.any isIdentContinue then { kind := .underscore, tail := 0 }
      else if isIdentStart c then ident c rest
      else operator c rest

/-! ## All rules -/

/-- The lexeme at the start of a text that starts with `c`, where `before` is the character in
front of it. -/
def scan (mode : Mode) (before : Option Char) (c : Char) (rest : List Char) : Lexeme :=
  if mode.isBlank c then whitespace mode c rest
  else if c = '/' ∧ rest.head? = some '/' then lineComment rest
  else if c = '/' ∧ rest.head? = some '*' then blockComment rest
  else
    match mode with
    | .markup => markup before c rest
    | .math => math c rest
    | .code => code c rest

end Lexeme

end TypstFormat
