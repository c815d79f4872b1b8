import TypstFormat.Grammar.Block

/-!
# Markup

Markup is a sequence of elements. Headings and items have to stand at the start of a line; their
markers are text elsewhere. The body of an item takes the lines that are set in further than its
marker.
-/

namespace TypstFormat.Grammar

open Parse

/-- The tokens that are text where they neither mark nor delimit anything. -/
def strays : List Kind :=
  [.leftBracket, .rightBracket, .headingMarker, .listMarker, .enumMarker, .termMarker, .colon]

/-- Whether the current token is white space that ends a line. -/
def isAtLineEnd (p : Parser) : Bool :=
  p.isAt .parbreak || (p.isAt .space && p.stream.current.containsNewline)

/-- Whether the line that starts behind the current token lies outside of an extent. -/
def endsExtent (extent : Extent) (p : Parser) : Bool :=
  extent.endsBefore (Text.column p.source p.range.stop)

/-- Consumes the blanks up to the end of the line. -/
def blanks : Parse Unit :=
  loop (fun _ => do
    if ← ask (fun p => p.isAt .space && !isAtLineEnd p) then
      bump
      return .inl ()
    else
      return .inr ()) ()

variable (rules : Rules)

/-- Strong or emphasized markup between two equal delimiters. It ends with the paragraph. -/
def delimited (delimiter kind : Kind) : Parse Unit := do
  let node ← start
  let opening ← range
  bump
  let _ ← rules.markup false .unbounded [delimiter, .parbreak, .rightBracket]
  let _ ← expectClosing opening delimiter
  let _ ← node.finish kind

/-- A heading. It ends with the line, or in front of a label. -/
def heading : Parse Unit := do
  let node ← start
  bump
  blanks
  let _ ← rules.markup false .line [.label, .rightBracket]
  let _ ← node.finish .heading

/-- The lines that belong to an item whose marker is the current token. -/
def itemExtent (p : Parser) : Extent :=
  .column (Text.column p.source p.position + 1)

/-- An item of a bullet list or a numbered one. -/
def listItem (kind : Kind) : Parse Unit := do
  let node ← start
  let extent ← ask itemExtent
  bump
  blanks
  let _ ← rules.markup false extent [.rightBracket]
  let _ ← node.finish kind

/-- A term and its description, with a colon between them. -/
def termItem : Parse Unit := do
  let node ← start
  let extent ← ask itemExtent
  bump
  blanks
  let _ ← rules.markup false .line [.colon, .rightBracket]
  let _ ← expect .colon
  blanks
  let _ ← rules.markup false extent [.rightBracket]
  let _ ← node.finish .termItem

/-- A reference and the supplement that is attached to it. -/
def reference : Parse Unit := do
  let node ← start
  bump
  if ← isDirectlyAt .leftBracket then
    let _ ← contentBlock rules
  let _ ← node.finish .ref

/-- One element. Tells whether the next one still stands at the start of a line. -/
def markupElement (atLineStart : Bool) : Parse Bool := do
  let kind ← current
  match kind with
  | .space | .lineComment | .blockComment => bump; return atLineStart
  | .hash => embeddedCode rules; return false
  | .star => delimited rules .star .strong; return false
  | .underscore => delimited rules .underscore .emph; return false
  | .refMarker => reference rules; return false
  | .dollar => let _ ← equation rules; return false
  | _ =>
    match atLineStart, kind with
    | true, .headingMarker => heading rules
    | true, .listMarker => listItem rules .listItem
    | true, .enumMarker => listItem rules .enumItem
    | true, .termMarker => termItem rules
    | _, _ => if strays.contains kind then modify (·.bumpAs .text) else bump
    return false

/-- What is known of markup that is being read. -/
structure MarkupState where
  atLineStart : Bool
  /-- How many brackets are open in the text. -/
  nesting : Nat := 0
  progress : Progress := {}
  deriving Repr

/-- How many brackets are open behind the current token, unless markup ends in front of it. Brackets
in the text have to be balanced before a stop counts. -/
def nestingBehind? (p : Parser) (stops : List Kind) (nesting : Nat) : Option Nat :=
  if p.isAt .leftBracket then some (nesting + 1)
  else if p.isAt .rightBracket && 0 < nesting then some (nesting - 1)
  else if p.isAtAny stops then none
  else some nesting

/-- One element, or the white space at the end of a line. -/
def nextMarkup (extent : Extent) (stops : List Kind) (state : MarkupState) :
    Parse (MarkupState ⊕ Unit) := do
  if ← isAt .eof then
    return .inr ()
  else
    let progress ← advance state.progress
    let p ← get
    match nestingBehind? p stops state.nesting with
    | none => return .inr ()
    | some nesting =>
      if isAtLineEnd p then
        if endsExtent extent p then
          return .inr ()
        else
          bump
          return .inl { atLineStart := true, nesting, progress }
      else
        let atLineStart ← markupElement rules state.atLineStart
        return .inl { atLineStart, nesting, progress }

/-- Markup up to one of the stops, within an extent. -/
def markup (atLineStart : Bool) (extent : Extent) (stops : List Kind) : Parse Closed := do
  let node ← start
  loop (nextMarkup rules extent stops) { atLineStart }
  node.finish .markup

end TypstFormat.Grammar
