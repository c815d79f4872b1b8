import TypstFormat.Grammar.Keyword

/-!
# Expressions

An expression is a primary one with calls, field accesses and binary operators behind it. Operators
are grouped by precedence: what follows an operator is read as an expression that stops in front of
the next operator that does not bind more tightly, and the node of the operator is then started
around both operands.
-/

namespace TypstFormat.Grammar

open Parse

variable (rules : Rules)

/-- A function of one parameter without parentheses. -/
def loneParamClosure : Parse Unit := do
  let params ← start
  bump
  let closure ← (← params.finish .params).wrap
  bump
  rules.expression false 0
  let _ ← closure.finish .closure

/-- Something between parentheses. If an arrow follows, it is read again as the parameters of a
function, and if an equals sign follows, it is a pattern. -/
def parenthesized (atomic : Bool) : Parse Unit := do
  let mark ← ask (·.mark)
  let list ← collection rules
  unless atomic do
    if ← isAt .arrow then
      modify (·.rewind mark)
      let closure ← (← collection rules (some .params)).wrap
      bump
      rules.expression false 0
      let _ ← closure.finish .closure
    else if ← isAt .eq then
      unless (← list.kind) = .parenthesized do
        list.rename .destructuring

/-- An expression without operators around it. -/
def primary (atomic : Bool) : Parse Unit := do
  match ← current with
  | .ident | .underscore =>
    if !atomic && (← nth 1) = .arrow then loneParamClosure rules else bump
  | .leftBrace => let _ ← codeBlock rules
  | .leftBracket => let _ ← contentBlock rules
  | .leftParen => parenthesized rules atomic
  | .dollar => let _ ← equation rules
  | .kwLet => letBinding rules
  | .kwSet => setRule rules
  | .kwShow => showRule rules
  | .kwContext => contextual rules atomic
  | .kwIf => conditional rules
  | .kwWhile => whileLoop rules
  | .kwFor => forLoop rules
  | .kwImport => moduleImport rules
  | .kwInclude => moduleInclude rules
  | .kwBreak => loneKeyword .loopBreak
  | .kwContinue => loneKeyword .loopContinue
  | .kwReturn => funcReturn rules
  | kind => if literals.contains kind then bump else reportMissingExpression

/-- The precedence of the operator that comes next. -/
def nextPrecedence? (p : Parser) : Option Nat :=
  if p.isAt .kwNot && p.stream.nth 1 = .kwIn then some notInPrecedence
  else binaryPrecedence? p.current

/-- What goes on with the expression in `node`: a call, a field access or an operator. The node is
then finished and another one started around it. -/
def continuation (atomic : Bool) (precedence : Nat) (node : Opening) :
    Parse (Opening ⊕ Opening) := do
  let p ← get
  if p.isDirectlyAt .leftParen || p.isDirectlyAt .leftBracket then
    let _ ← args rules
    return .inl (← (← node.finish .funcCall).wrap)
  else if atomic && !(p.isDirectlyAt .dot && p.nthDirectly 1 .ident) then
    return .inr node
  else if ← eat .dot then
    let _ ← expect .ident
    return .inl (← (← node.finish .fieldAccess).wrap)
  else
    match nextPrecedence? p with
    | none => return .inr node
    | some next =>
      if next < precedence then
        return .inr node
      else
        let _ ← eat .kwNot
        bump
        rules.expression false (rightPrecedence next)
        return .inl (← (← node.finish .binary).wrap)

/-- The first operand of an expression, in the node that is started for it. -/
def operand (atomic : Bool) (node : Opening) : Parse Opening := do
  let p ← get
  match if atomic then none else unaryPrecedence? p.current with
  | some precedence =>
    bump
    rules.expression false precedence
    (← node.finish .unary).wrap
  | none =>
    primary rules atomic
    return node

/-- An expression. -/
def expression (atomic : Bool) (precedence : Nat) : Parse Unit := do
  let node ← operand rules atomic (← start)
  let node ← loop (continuation rules atomic precedence) node
  node.dissolve

end TypstFormat.Grammar
