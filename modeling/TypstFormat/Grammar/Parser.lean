import TypstFormat.Text.LineColumn
import TypstFormat.Token.Stream
import TypstFormat.Tree.Event

/-!
# The state of parsing

A `Parser` reads a stream of tokens and writes events and diagnostics. It keeps two stacks: the
modes to come back to, and the rules for line breaks. Where a rule is in force, a line break in
front of the current token ends the code, and the parser shows the token as `Kind.breakEnd`. This
does not hold of the token that was current when the rule came into force.

`Parse` is the type of the actions of the grammar: they read and change the parser, and fail only
where the grammar itself is at fault, never because of the text.
-/

namespace TypstFormat

open Text (Range)

/-- What a line break in front of a token of code means. -/
inductive BreakRule where
  /-- It ends the code. -/
  | ends
  /-- It ends the code unless the token goes on with it. -/
  | endsUnlessContinued
  /-- Nothing. -/
  | ignored
  deriving DecidableEq, Repr

/-- The tokens that go on with code across a line break. -/
def Kind.continuesCode : Kind → Bool
  | .kwElse | .dot => true
  | _ => false

structure Parser where
  stream : Stream
  events : Array Event := #[]
  /-- The diagnostics of the grammar so far, the latest first. -/
  findings : List Diagnostic := []
  /-- The modes to come back to, the latest first. -/
  modes : List Mode := []
  /-- The rules for line breaks and where each came into force, the latest first. -/
  breakRules : List (BreakRule × Nat) := []
  deriving Repr

/-- Why parsing stops without a result. -/
inductive ParseError where
  /-- A loop came back to its start without consuming anything. -/
  | stalled (kind : Kind) (range : Range)
  /-- A node was finished whose start is not among the events any more. -/
  | noEvent
  /-- A node was finished whose start gave way to another event. -/
  | notAStart
  /-- A node was to lie around one that is not among the events any more. -/
  | nothingToWrap
  /-- A mode or a rule was left that was not entered. -/
  | nothingToLeave
  /-- The constructs are nested more deeply than the text is long. -/
  | tooDeep
  deriving DecidableEq, Repr

namespace ParseError

/-- The message of an error, if it has one. A missing event and an empty stack are only an index
out of range. -/
def message? : ParseError → Option String
  | stalled kind range => some s!"Parser stopped making progress at {kind.name} {range.describe}"
  | notAStart => some "Marker must point to a StartEvent"
  | nothingToWrap => some "Invalid precede distance"
  | tooDeep => some "Nesting exceeds the length of the text"
  | noEvent => none
  | nothingToLeave => none

end ParseError

/-- Actions of the grammar. -/
abbrev Parse := StateT Parser (Except ParseError)

namespace Parser

/-- A parser at the start of a source. -/
def ofSource (source : List Char) (mode : Mode) : Parser :=
  { stream := Stream.ofSource source mode }

def source (p : Parser) : List Char :=
  p.stream.source

/-- The diagnostics of the grammar so far, in the order in which they were found. -/
def diagnostics (p : Parser) : List Diagnostic :=
  p.findings.reverse

/-- The kind of the current token, or `Kind.breakEnd` where a line break ends the code. -/
def current (p : Parser) : Kind :=
  match p.breakRules with
  | [] => p.stream.kind
  | (rule, entered) :: _ =>
    if p.stream.afterLineBreak ∧ p.stream.position ≠ entered then
      match rule with
      | .ends => .breakEnd
      | .endsUnlessContinued => if p.stream.kind.continuesCode then p.stream.kind else .breakEnd
      | .ignored => p.stream.kind
    else
      p.stream.kind

/-- The range of the current token. -/
def range (p : Parser) : Range :=
  p.stream.current.range

def position (p : Parser) : Nat :=
  p.stream.position

def isAt (p : Parser) (kind : Kind) : Bool :=
  p.current = kind

def isAtAny (p : Parser) (kinds : List Kind) : Bool :=
  kinds.contains p.current

/-- Whether the code or the text ends here. -/
def isAtEnd (p : Parser) : Bool :=
  p.current = .breakEnd || p.current = .eof

/-- At a token of the kind that nothing, not even a space, sets off from the one before it. -/
def isDirectlyAt (p : Parser) (kind : Kind) : Bool :=
  p.isAt kind && !p.stream.afterTrivia

/-- Whether the `n`-th token ahead is of the kind and nothing sets it off. -/
def nthDirectly (p : Parser) (n : Nat) (kind : Kind) : Bool :=
  let ahead := p.stream.lookahead n
  ahead.token.kind = kind && !ahead.afterTrivia

/-- At the end of a list of items, or of the text. -/
def isAtTerminator (p : Parser) : Bool :=
  p.current.isTerminator || p.isAt .eof

/-- Where an error about the current token is reported: where code ends at a line break, this is
right behind the last token consumed. -/
def errorRange (p : Parser) : Range :=
  if p.isAt .breakEnd then Range.empty p.stream.consumed else p.range

/-- Consumes the current token as one of the given kind. Nothing can be consumed at an end. -/
def bumpAs (p : Parser) (kind : Kind) : Parser :=
  if p.isAtEnd then p
  else { p with events := p.events.push (.token kind p.range.stop), stream := p.stream.bump }

/-- Consumes the current token. -/
def bump (p : Parser) : Parser :=
  p.bumpAs p.stream.kind

/-- Reports a diagnostic, unless the one before it starts at the same offset. -/
def report (p : Parser) (diagnostic : Diagnostic) : Parser :=
  if p.findings.head?.any fun last => last.range.start = diagnostic.range.start then p
  else { p with findings := diagnostic :: p.findings }

/-- Changes the mode until `leaveMode`. -/
def enterMode (p : Parser) (mode : Mode) : Parser :=
  { p with
    modes := p.stream.mode :: p.modes
    stream := if mode = p.stream.mode then p.stream else p.stream.relex mode }

/-- Changes the rule for line breaks until `leaveBreakRule`. -/
def enterBreakRule (p : Parser) (rule : BreakRule) : Parser :=
  { p with breakRules := (rule, p.position) :: p.breakRules }

/-- A place to come back to. -/
structure Mark where
  stream : Stream.Mark
  events : Nat
  findings : Nat
  modes : List Mode
  breakRules : List (BreakRule × Nat)
  deriving Repr

def mark (p : Parser) : Mark where
  stream := p.stream.mark
  events := p.events.size
  findings := p.findings.length
  modes := p.modes
  breakRules := p.breakRules

/-- Goes back to a mark and forgets what was read and written since. -/
def rewind (p : Parser) (mark : Mark) : Parser where
  stream := p.stream.rewind mark.stream
  events := p.events.take mark.events
  findings := p.findings.drop (p.findings.length - mark.findings)
  modes := mark.modes
  breakRules := mark.breakRules

end Parser

/-- How far a loop had come when it was last looked at. -/
structure Progress where
  last : Option Nat := none
  deriving DecidableEq, Repr

namespace Progress

/-- Whether the parser stands behind the place where it was last looked at, and the progress as
looked at now. -/
def advance (progress : Progress) (p : Parser) : Bool × Progress :=
  (progress.last.all fun last => last < p.position, { last := some p.position })

end Progress

namespace Parse

/-- Asks the parser something. -/
def ask (f : Parser → α) : Parse α :=
  return f (← get)

def current : Parse Kind :=
  ask (·.current)

def range : Parse Range :=
  ask (·.range)

def isAt (kind : Kind) : Parse Bool :=
  ask (·.isAt kind)

def isAtAny (kinds : List Kind) : Parse Bool :=
  ask (·.isAtAny kinds)

def isAtEnd : Parse Bool :=
  ask (·.isAtEnd)

def isDirectlyAt (kind : Kind) : Parse Bool :=
  ask (·.isDirectlyAt kind)

def isAtTerminator : Parse Bool :=
  ask (·.isAtTerminator)

/-- The kind of the `n`-th token ahead. -/
def nth (n : Nat) : Parse Kind :=
  ask (·.stream.nth n)

def bump : Parse Unit :=
  modify (·.bump)

def report (diagnostic : Diagnostic) : Parse Unit :=
  modify (·.report diagnostic)

def enterMode (mode : Mode) : Parse Unit :=
  modify (·.enterMode mode)

def enterBreakRule (rule : BreakRule) : Parse Unit :=
  modify (·.enterBreakRule rule)

/-- Goes back to the mode that held when the last `enterMode` was made. -/
def leaveMode : Parse Unit := do
  let p ← get
  match p.modes with
  | [] => throw .nothingToLeave
  | mode :: modes =>
    set { p with
      modes
      stream := if mode = p.stream.mode then p.stream else p.stream.relex mode }

/-- Goes back to the rule that held when the last `enterBreakRule` was made. -/
def leaveBreakRule : Parse Unit := do
  let p ← get
  match p.breakRules with
  | [] => throw .nothingToLeave
  | _ :: breakRules => set { p with breakRules }

/-- Consumes the current token if it is of the kind. -/
def eat (kind : Kind) : Parse Bool := do
  if ← isAt kind then
    bump
    return true
  else
    return false

/-- Requires that the parser has moved on since it was last looked at. -/
def advance (progress : Progress) : Parse Progress := do
  let p ← get
  let (advanced, progress) := progress.advance p
  if advanced then
    return progress
  else
    throw (.stalled p.current p.range)

/-- Repeats a step until it is done with a result, at most `fuel` times. -/
def iterate : Nat → (σ → Parse (σ ⊕ α)) → σ → Parse α
  | 0, _, _ => throw .tooDeep
  | fuel + 1, step, s => do
    match ← step s with
    | .inl s => iterate fuel step s
    | .inr result => return result

/-- Repeats a step until it is done with a result. The steps of the grammar consume a token each,
so more steps than there are characters are never needed. -/
def loop (step : σ → Parse (σ ⊕ α)) (s : σ) : Parse α := do
  iterate ((← get).source.length + 2) step s

end Parse

end TypstFormat
