import TypstFormat.Grammar.Rules

/-!
# Blocks, and code in markup

Blocks of code and of content, equations, and the code behind a hash. These are the places where the
mode changes, or the rule for line breaks.
-/

namespace TypstFormat.Grammar

open Parse

variable (rules : Rules)

/-- The code behind a hash: one expression that is attached to it, or one statement. The code ends
with the line unless it is inside delimiters. -/
def embeddedCode : Parse Unit := do
  bump
  enterMode .code
  enterBreakRule .ends
  let p ← get
  if p.stream.afterTrivia || p.isAtEnd || !p.isAtAny embeddedStarts then
    reportMissingExpression
  else
    let isStatement := p.isAtAny statementStarts
    rules.expression true 0
    let mayEnd ← ask fun p => isStatement || p.isDirectlyAt .semicolon
    let ended ← if mayEnd then eat .semicolon else pure false
    if isStatement && !ended then
      unless ← ask (fun p => p.isAtEnd || p.isAt .rightBracket) do
        reportMissingSeparator
  leaveBreakRule
  leaveMode

/-- Math: tokens without structure, apart from embedded code. -/
def math (stops : List Kind) : Parse Closed := do
  let node ← start
  loop (fun progress => do
    if (← isAt .eof) || (← isAtAny stops) then
      return .inr ()
    else
      let progress ← advance progress
      if ← isAt .hash then embeddedCode rules else bump
      return .inl progress) ({} : Progress)
  node.finish .math

/-- Math between dollar signs. -/
def equation : Parse Closed := do
  let node ← start
  let opening ← range
  bump
  enterMode .math
  enterBreakRule .ignored
  let _ ← math rules [.dollar]
  let _ ← expectClosing opening .dollar
  leaveBreakRule
  leaveMode
  node.finish .equation

/-- Markup between brackets. -/
def contentBlock : Parse Closed := do
  let node ← start
  let opening ← range
  bump
  enterMode .markup
  let _ ← rules.markup true .unbounded [.rightBracket]
  let _ ← expectClosing opening .rightBracket
  leaveMode
  node.finish .contentBlock

/-- One statement and the semicolon or line break behind it, if a statement starts here. -/
def statement (stops : List Kind) : Parse Bool := do
  if ← eat .semicolon then
    return true
  else if ← isAtAny expressionStarts then
    enterBreakRule .endsUnlessContinued
    rules.expression false 0
    unless ← ask (fun p => p.isAtEnd || p.isAtAny stops) do
      unless ← eat .semicolon do
        reportMissingSeparator
    leaveBreakRule
    return true
  else
    return false

/-- Skips what is no statement. -/
def skipToStatement : Parse Bool := do
  reportUnexpected
  match ← recover .errorNode statementResumes with
  | .skipped _ => return true
  | _ => return false

/-- Statements up to one of the stops or the end of the code. -/
def code (stops : List Kind) : Parse Closed :=
  nodeList .code (fun p => p.isAtEnd || p.isAtAny stops) (statement rules stops) skipToStatement

/-- Statements between braces. -/
def codeBlock : Parse Closed := do
  let node ← start
  let opening ← range
  enterBreakRule .ignored
  bump
  let _ ← code rules closingDelimiters
  let _ ← expectClosing opening .rightBrace
  leaveBreakRule
  node.finish .codeBlock

end TypstFormat.Grammar
