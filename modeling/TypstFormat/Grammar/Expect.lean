import TypstFormat.Grammar.Node

/-!
# Expecting tokens, and going on after errors

What the rules of the grammar have in common: a token that has to come next, a closing delimiter,
unexpected tokens that are skipped into an error node, and lists of elements without separators.
-/

namespace TypstFormat

open Text (Range)

/-- How a kind is called in the message about a missing token. -/
def Kind.description : Kind → String
  | .leftParen => "opening paren"
  | .rightParen => "closing paren"
  | .leftBracket => "opening bracket"
  | .rightBracket => "closing bracket"
  | .leftBrace => "opening brace"
  | .rightBrace => "closing brace"
  | .dollar => "dollar sign"
  | .star => "star"
  | .underscore => "underscore"
  | .comma => "comma"
  | .colon => "colon"
  | .eq => "equals sign"
  | .ident => "identifier"
  | .kwIn => "keyword `in`"
  | kind => kind.name.toLower

/-- What came of skipping tokens. -/
inductive Recovery where
  /-- Nothing was skipped, since the code or the text ends here. -/
  | atEnd
  /-- Nothing was skipped, since parsing can go on here. -/
  | alreadySafe
  /-- The node of the tokens that were skipped. -/
  | skipped (node : Closed)
  deriving DecidableEq, Repr

namespace Parse

/-- Consumes a token of the kind, or reports that it is missing. -/
def expect (kind : Kind) (description : Option String := none) : Parse Bool := do
  if ← eat kind then
    return true
  else
    let what := description.getD kind.description
    report (Issue.expectedToken.report (← ask (·.errorRange)) s!"Expected {what}")
    return false

/-- Consumes the delimiter that closes what `opening` opened, or reports that it is missing. -/
def expectClosing (opening : Range) (kind : Kind) : Parse Bool := do
  if ← eat kind then
    return true
  else
    let what := kind.description
    report (Issue.unclosedDelimiter.report opening s!"Unclosed delimiter, expected {what}")
    return false

/-- Reports that an expression is missing here. -/
def reportMissingExpression : Parse Unit := do
  report (Issue.expectedExpression.report (Range.empty (← ask (·.position))))

/-- Reports that two statements are not separated here. -/
def reportMissingSeparator : Parse Unit := do
  report (Issue.expectedSeparator.report (Range.empty (← ask (·.position))))

/-- Reports that the current token cannot stand here. -/
def reportUnexpected : Parse Unit := do
  let p ← get
  report (Issue.unexpectedToken.report p.range s!"Unexpected token {p.current.name}")

/-- Skips tokens into a node, up to one of the safe kinds or an end. -/
def recover (node : Kind) (safe : List Kind) : Parse Recovery := do
  if ← isAtEnd then
    return .atEnd
  else if ← isAtAny safe then
    return .alreadySafe
  else
    let skipped ← start
    loop (fun _ => do
      if (← isAtEnd) || (← isAtAny safe) then
        return .inr ()
      else
        bump
        return .inl ()) ()
    return .skipped (← skipped.finish node)

/-- Parses elements one after another into a node. Where there is no element, `resume` tells whether
the list can go on. -/
def nodeList (node : Kind) (stops : Parser → Bool) (element resume : Parse Bool) :
    Parse Closed := do
  let list ← start
  loop (fun progress => do
    if (← isAt .eof) || (← ask stops) then
      return .inr ()
    else
      let progress ← advance progress
      if ← element then
        return .inl progress
      else if ← resume then
        return .inl progress
      else
        return .inr ()) ({} : Progress)
  list.finish node

end Parse

end TypstFormat
