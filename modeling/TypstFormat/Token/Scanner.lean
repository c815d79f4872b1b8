import TypstFormat.Token.Lexeme

/-!
# Scanning a source

A `Scanner` stands at an offset of a source and cuts off one token at a time. It has a mode, which
may change between two tokens, and it collects the flaws of the lexemes it has met.

There are two ways back. A `Scanner.Mark` remembers how many diagnostics there were, and `rewind`
drops those that came later; `jump` goes to any offset and drops the diagnostics that start there
or behind it.
-/

namespace TypstFormat

open Text (Range)

structure Scanner where
  source : List Char
  position : Nat := 0
  mode : Mode := .markup
  /-- The diagnostics so far, the latest first. -/
  findings : List Diagnostic := []
  deriving Repr

namespace Scanner

/-- A place to come back to. -/
structure Mark where
  position : Nat
  mode : Mode
  findings : Nat
  deriving Repr

/-- The source from the current offset on. -/
def rest (s : Scanner) : List Char :=
  s.source.drop s.position

/-- The character in front of the current offset. -/
def before (s : Scanner) : Option Char :=
  if s.position = 0 then none else s.source[s.position - 1]?

def isAtEnd (s : Scanner) : Bool :=
  s.source.length ≤ s.position

/-- How many characters are left. -/
def remaining (s : Scanner) : Nat :=
  s.source.length - s.position

/-- The diagnostics so far, in the order in which they were found. -/
def diagnostics (s : Scanner) : List Diagnostic :=
  s.findings.reverse

/-- The token that a lexeme makes at an offset. -/
def tokenAt (offset : Nat) (lexeme : Lexeme) : Token where
  kind := lexeme.kind
  range := Range.ofLength offset (lexeme.tail + 1)
  containsNewline := lexeme.containsNewline
  hasEscape := lexeme.hasEscape

/-- The diagnostics of a lexeme at an offset. -/
def findingsAt (offset : Nat) (lexeme : Lexeme) : List Diagnostic :=
  (lexeme.flaw.map fun flaw =>
    flaw.issue.report (Range.ofLength offset (lexeme.tail + 1)) flaw.message).toList

/-- The next token, and the scanner behind it. At the end of the source this is the end token. -/
def next (s : Scanner) : Token × Scanner :=
  match s.rest with
  | [] => (Token.eof s.position, s)
  | c :: rest =>
    let lexeme := Lexeme.scan s.mode s.before c rest
    (tokenAt s.position lexeme,
      { s with
        position := s.position + (lexeme.tail + 1)
        findings := findingsAt s.position lexeme ++ s.findings })

/-- The tokens up to the end token, if at most `fuel` tokens come before it. -/
def tokensUpTo : Nat → Scanner → List Token × Scanner
  | 0, s => ([s.next.1], s.next.2)
  | fuel + 1, s =>
    let (token, s) := s.next
    if token.kind = .eof then
      ([token], s)
    else
      let (tokens, s) := tokensUpTo fuel s
      (token :: tokens, s)

/-- All tokens from here on, the end token last. Every other token takes a character, so there are
at most as many of them as characters are left. -/
def tokens (s : Scanner) : List Token × Scanner :=
  tokensUpTo s.remaining s

/-- The trivia in front of the next token that takes part in the grammar, that token, and the
scanner behind it, if there are at most `fuel` pieces of trivia. In markup every token takes part. -/
def significantUpTo : Nat → Scanner → List Trivia × Token × Scanner
  | 0, s => ([], s.next)
  | fuel + 1, s =>
    let (token, s') := s.next
    if s.mode ≠ .markup ∧ token.kind.isTrivia then
      let (trivia, found) := significantUpTo fuel s'
      (token.toTrivia :: trivia, found)
    else
      ([], token, s')

/-- The trivia in front of the next token that takes part in the grammar, that token, and the
scanner behind it. -/
def significant (s : Scanner) : List Trivia × Token × Scanner :=
  significantUpTo s.remaining s

def mark (s : Scanner) : Mark where
  position := s.position
  mode := s.mode
  findings := s.findings.length

/-- Goes back to a mark and forgets the diagnostics found since. -/
def rewind (s : Scanner) (mark : Mark) : Scanner :=
  { s with
    position := mark.position
    mode := mark.mode
    findings := s.findings.drop (s.findings.length - mark.findings) }

/-- Goes to an offset and forgets the diagnostics that start at it or behind it. -/
def jump (s : Scanner) (offset : Nat) : Scanner :=
  { s with
    position := offset
    findings := s.findings.filter fun d => d.range.start < offset }

end Scanner

/-- All tokens of a source that is read in one mode, and the diagnostics. -/
def tokenize (source : List Char) (mode : Mode) : List Token × List Diagnostic :=
  let (tokens, s) := ({ source, mode } : Scanner).tokens
  (tokens, s.diagnostics)

end TypstFormat
