import TypstFormat.Token.Scanner

/-!
# The stream of significant tokens

A `Stream` shows the grammar one current token at a time. White space and comments of code and math
are recorded on the side, and the stream only tells whether any stood in front of the current token
and whether a line ended there. In markup every token is shown.

The current token is scanned ahead, in the mode that holds when the token before it is consumed.
When the mode changes, `relex` scans it again.
-/

namespace TypstFormat

open Text (Range)

structure Stream where
  /-- The scanner behind the current token. -/
  scanner : Scanner
  current : Token
  /-- The offset behind the last token consumed. -/
  consumed : Nat := 0
  /-- The trivia so far, the latest first. -/
  recorded : List Trivia := []
  /-- Whether trivia stands in front of the current token. -/
  afterTrivia : Bool := false
  /-- Whether a line ends in the trivia in front of the current token. -/
  afterLineBreak : Bool := false
  deriving Repr

namespace Stream

/-- A place to come back to. -/
structure Mark where
  scanner : Scanner.Mark
  current : Token
  consumed : Nat
  recorded : Nat
  afterTrivia : Bool
  afterLineBreak : Bool
  deriving Repr

/-- A token that lies ahead, and what stands in front of it. -/
structure Lookahead where
  token : Token
  afterTrivia : Bool
  afterLineBreak : Bool
  deriving DecidableEq, Repr

/-- Scans the next significant token and makes it the current one. -/
def fetch (s : Stream) : Stream :=
  let (trivia, token, scanner) := s.scanner.significant
  { s with
    scanner
    current := token
    recorded := trivia.reverse ++ s.recorded
    afterTrivia := !trivia.isEmpty
    afterLineBreak := trivia.any (·.containsNewline) }

/-- The stream of a source, at its first significant token. -/
def ofSource (source : List Char) (mode : Mode) : Stream :=
  fetch { scanner := { source, mode }, current := Token.eof 0 }

def source (s : Stream) : List Char :=
  s.scanner.source

def mode (s : Stream) : Mode :=
  s.scanner.mode

def kind (s : Stream) : Kind :=
  s.current.kind

/-- The offset at which the current token starts. -/
def position (s : Stream) : Nat :=
  s.current.range.start

/-- The trivia so far, in the order of the source. -/
def trivia (s : Stream) : List Trivia :=
  s.recorded.reverse

/-- Consumes the current token. The end of the text cannot be consumed. -/
def bump (s : Stream) : Stream :=
  if s.current.kind = .eof then s
  else { s with consumed := s.current.range.stop }.fetch

/-- Changes the mode and scans the current token again, from behind the last one consumed. -/
def relex (s : Stream) (mode : Mode) : Stream :=
  { s with
    scanner := { s.scanner.jump s.consumed with mode }
    recorded := s.recorded.dropWhile fun piece => s.consumed ≤ piece.range.start }.fetch

/-- The trivia in front of the significant token that lies `n` tokens behind the next one, and that
token. There is nothing behind the end of the text. -/
def ahead : Nat → Scanner → List Trivia × Token
  | 0, s => (s.significant.1, s.significant.2.1)
  | n + 1, s =>
    let (trivia, token, s) := s.significant
    if token.kind = .eof then (trivia, token) else ahead n s

/-- The token `n` tokens behind the current one. -/
def lookahead (s : Stream) : Nat → Lookahead
  | 0 => ⟨s.current, s.afterTrivia, s.afterLineBreak⟩
  | n + 1 =>
    let (trivia, token) := ahead n s.scanner
    ⟨token, !trivia.isEmpty, trivia.any (·.containsNewline)⟩

/-- Scans on to the significant token that lies `n` tokens behind the next one: the trivia in front
of it, that token, and the scanner behind it. The scan ends with the text. -/
def scanAhead : Nat → Scanner → List Trivia × Token × Scanner
  | 0, s => s.significant
  | n + 1, s =>
    let (trivia, token, s) := s.significant
    if token.kind = .eof then (trivia, token, s) else scanAhead n s

/-- Looks ahead with the scanner of the stream itself, which then goes back to where it stood. What
is seen is the `lookahead`, and the stream is left as it was. -/
def peek (s : Stream) : Nat → Lookahead × Stream
  | 0 => (⟨s.current, s.afterTrivia, s.afterLineBreak⟩, s)
  | n + 1 =>
    let (trivia, token, scanner) := scanAhead n s.scanner
    (⟨token, !trivia.isEmpty, trivia.any (·.containsNewline)⟩,
      { s with scanner := scanner.rewind s.scanner.mark })

/-- The kind of the token `n` tokens behind the current one. -/
def nth (s : Stream) (n : Nat) : Kind :=
  (s.lookahead n).token.kind

def mark (s : Stream) : Mark where
  scanner := s.scanner.mark
  current := s.current
  consumed := s.consumed
  recorded := s.recorded.length
  afterTrivia := s.afterTrivia
  afterLineBreak := s.afterLineBreak

/-- Goes back to a mark and forgets the trivia and the diagnostics found since. -/
def rewind (s : Stream) (mark : Mark) : Stream where
  scanner := s.scanner.rewind mark.scanner
  current := mark.current
  consumed := mark.consumed
  recorded := s.recorded.drop (s.recorded.length - mark.recorded)
  afterTrivia := mark.afterTrivia
  afterLineBreak := mark.afterLineBreak

end Stream

end TypstFormat
