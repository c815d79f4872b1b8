import TypstFormat.Grammar.Block

/-!
# Items between parentheses

Arguments, parameters, arrays, dictionaries and patterns are all lists of items between parentheses,
and so are imported names. What a list is called depends on its items (`Collected.kind`).
-/

namespace TypstFormat.Grammar

open Parse

/-- What one item between parentheses turns out to be. -/
inductive Item where
  | positional
  | named
  | keyed
  | spread
  deriving DecidableEq, Repr

/-- The items between two parentheses. -/
structure Collected where
  /-- The items so far, the latest first. -/
  items : List Item := []
  hasComma : Bool := false
  progress : Progress := {}
  deriving Repr

/-- A list with names or keys is a dictionary, one item without a comma is only parenthesized, and
all else is an array. -/
def Collected.kind (collected : Collected) : Kind :=
  if collected.items.any fun item => item = .named || item = .keyed then .dict
  else if collected.items = [.positional] ∧ !collected.hasComma then .parenthesized
  else .array

variable (rules : Rules)

/-- An expression that may have a name or a key in front. -/
def keyedItem : Parse Item := do
  let node ← start
  if (← isAt .ident) && (← nth 1) = .colon then
    bump
    bump
    rules.expression false 0
    let _ ← node.finish .named
    return .named
  else
    rules.expression false 0
    if ← eat .colon then
      rules.expression false 0
      let _ ← node.finish .keyed
      return .keyed
    else
      node.dissolve
      return .positional

/-- One item, if one starts here. -/
def item : Parse (Option Item) := do
  if ← isAt .dots then
    let node ← start
    bump
    if ← isAtAny expressionStarts then
      rules.expression false 0
    let _ ← node.finish .spread
    return some .spread
  else if ← isAtAny expressionStarts then
    return some (← keyedItem rules)
  else
    return none

/-- Skips what is no item. Tells whether the code ends here. -/
def skipToItem : Parse Bool := do
  reportUnexpected
  match ← recover .errorNode itemResumes with
  | .atEnd => return true
  | _ => return false

/-- One item and the comma behind it, or a stretch of tokens that are none. -/
def nextItem (collected : Collected) : Parse (Collected ⊕ Collected) := do
  if ← isAtTerminator then
    return .inr collected
  else
    let progress ← advance collected.progress
    let found ← item rules
    let collected := { collected with progress, items := found.toList ++ collected.items }
    let ended ← if found.isNone then skipToItem else pure false
    if ended || (← isAtTerminator) then
      return .inr collected
    else
      let comma ← expect .comma
      return .inl { collected with hasComma := comma || collected.hasComma }

/-- Items between parentheses, separated by commas. -/
def items : Parse Collected := do
  let opening ← range
  enterBreakRule .ignored
  let _ ← expect .leftParen
  let collected ← loop (nextItem rules) {}
  let _ ← expectClosing opening .rightParen
  leaveBreakRule
  return collected

/-- A list between parentheses, as a node of the given kind or else of the kind that its items make
it. A lone colon makes it a dictionary. -/
def collection (kind : Option Kind := none) : Parse Closed := do
  let node ← start
  if (← isAt .leftParen) && (← nth 1) = .colon && (← nth 2) = .rightParen then
    bump
    bump
    bump
    node.finish (kind.getD .dict)
  else
    let collected ← items rules
    node.finish (kind.getD collected.kind)

/-- The content blocks that are attached to a call. -/
def trailingBlocks : Parse Unit :=
  loop (fun _ => do
    if ← isDirectlyAt .leftBracket then
      let _ ← contentBlock rules
      return .inl ()
    else
      return .inr ()) ()

/-- The arguments of a call: a list between parentheses, which may be missing, and content blocks
attached to it. -/
def args : Parse Closed := do
  let node ← start
  if ← isAt .leftParen then
    let _ ← items rules
  trailingBlocks rules
  node.finish .args

/-- What a value is bound to: a name, a placeholder, or a pattern between parentheses. -/
def pattern : Parse Unit := do
  if (← isAt .ident) || (← isAt .underscore) then
    bump
  else if ← isAt .leftParen then
    let list ← collection rules
    unless (← list.kind) = .parenthesized do
      list.rename .destructuring
  else
    let _ ← expect .ident "pattern"

/-- Further names behind dots. -/
def path : Parse Unit :=
  loop (fun _ => do
    if ← eat .dot then
      let _ ← expect .ident
      return .inl ()
    else
      return .inr ()) ()

/-- One imported name, which may get another one. -/
def importItem : Parse Unit := do
  let node ← start
  bump
  path
  if ← eat .kwAs then
    let _ ← expect .ident
    let _ ← node.finish .renamedImportItem
  else
    node.dissolve

/-- One imported name and the comma behind it, or a stretch of tokens that are none. -/
def nextImportItem (progress : Progress) : Parse (Progress ⊕ Unit) := do
  if ← isAtTerminator then
    return .inr ()
  else
    let progress ← advance progress
    let ended ←
      if ← isAt .ident then
        importItem
        pure false
      else
        skipToItem
    if ended then
      return .inr ()
    else
      unless ← isAtTerminator do
        let _ ← expect .comma
      return .inl progress

/-- Imported names, separated by commas. -/
def importItems : Parse Unit := do
  let node ← start
  loop nextImportItem {}
  let _ ← node.finish .importItems

end TypstFormat.Grammar
