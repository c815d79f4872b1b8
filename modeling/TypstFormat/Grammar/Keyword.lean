import TypstFormat.Grammar.Item

/-!
# Expressions that start with a keyword

Bindings, rules, control flow, imports and jumps.
-/

namespace TypstFormat.Grammar

open Parse

variable (rules : Rules)

/-- A block of code or of content. -/
def block : Parse Unit := do
  if ← isAt .leftBracket then
    let _ ← contentBlock rules
  else if ← isAt .leftBrace then
    let _ ← codeBlock rules
  else
    let _ ← expect .leftBrace "block"

/-- The value behind an equals sign. -/
def initializer (isRequired : Bool) : Parse Unit := do
  if ← if isRequired then expect .eq else eat .eq then
    rules.expression false 0

/-- What a binding binds, inside the node that is the closure if it is a function. Tells whether it
is one, and whether it needs a value. -/
def bound : Parse (Bool × Bool) := do
  if ← isAt .ident then
    bump
    if ← isDirectlyAt .leftParen then
      let _ ← collection rules (some .params)
      return (true, true)
    else
      return (false, false)
  else
    pattern rules
    return (false, true)

/-- A binding of a function, a name or a pattern. Only a name may go without a value. -/
def letBinding : Parse Unit := do
  let node ← start
  bump
  let closure ← start
  let (isClosure, needsValue) ← bound rules
  initializer rules needsValue
  if isClosure then
    let _ ← closure.finish .closure
  else
    closure.dissolve
  let _ ← node.finish .letBinding

/-- The function that a set rule is about, around which each field access adds a node. -/
def setTarget : Parse Unit := do
  let target ← start
  let _ ← expect .ident
  let target ← loop (fun (target : Opening) => do
    if ← eat .dot then
      let _ ← expect .ident
      return .inl (← (← target.finish .fieldAccess).wrap)
    else
      return .inr target) target
  target.dissolve

/-- A set rule: a function, arguments, and a condition. -/
def setRule : Parse Unit := do
  let node ← start
  bump
  setTarget
  if (← isAt .leftParen) || (← isAt .leftBracket) then
    let _ ← args rules
  else
    let _ ← expect .leftParen
  if ← eat .kwIf then
    rules.expression false 0
  let _ ← node.finish .setRule

/-- A show rule: a selector, which may be missing, and a transformation. -/
def showRule : Parse Unit := do
  let node ← start
  bump
  unless ← isAt .colon do
    rules.expression false 0
  if ← expect .colon then
    rules.expression false 0
  let _ ← node.finish .showRule

def contextual (atomic : Bool) : Parse Unit := do
  let node ← start
  bump
  rules.expression atomic 0
  let _ ← node.finish .contextual

def conditional : Parse Unit := do
  let node ← start
  bump
  rules.expression false 0
  block rules
  if ← eat .kwElse then
    if ← isAt .kwIf then rules.conditional else block rules
  let _ ← node.finish .conditional

def whileLoop : Parse Unit := do
  let node ← start
  bump
  rules.expression false 0
  block rules
  let _ ← node.finish .whileLoop

def forLoop : Parse Unit := do
  let node ← start
  bump
  pattern rules
  if ← expect .kwIn then
    rules.expression false 0
  block rules
  let _ ← node.finish .forLoop

/-- What is imported from a module: everything, names between parentheses, or names. -/
def imported : Parse Unit := do
  if ← isAt .leftParen then
    let opening ← range
    enterBreakRule .ignored
    bump
    importItems
    let _ ← expectClosing opening .rightParen
    leaveBreakRule
  else
    unless ← eat .star do
      importItems

/-- An import of a module, which may get another name. -/
def moduleImport : Parse Unit := do
  let node ← start
  bump
  rules.expression false 0
  if ← eat .kwAs then
    let _ ← expect .ident
  if ← eat .colon then
    imported
  let _ ← node.finish .moduleImport

def moduleInclude : Parse Unit := do
  let node ← start
  bump
  rules.expression false 0
  let _ ← node.finish .moduleInclude

/-- A return, with a value if an expression follows. -/
def funcReturn : Parse Unit := do
  let node ← start
  bump
  if ← isAtAny expressionStarts then
    rules.expression false 0
  let _ ← node.finish .funcReturn

/-- A keyword that is an expression by itself. -/
def loneKeyword (kind : Kind) : Parse Unit := do
  let node ← start
  bump
  let _ ← node.finish kind

end TypstFormat.Grammar
