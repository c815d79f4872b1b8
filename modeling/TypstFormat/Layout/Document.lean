import TypstFormat.Grammar.Document
import TypstFormat.Layout.Arguments
import TypstFormat.Text.Lines

/-!
# The layout of a document

A document is written from the inside out: first the children of a node, each into a fragment, and
then the node. White space is normalized, argument lists get a layout of their own, and all other
text stays as it is.

`format` does this to a source, unless something is wrong with it.
-/

namespace TypstFormat

namespace Layout

open Render

/-- Writes white space: one space, or the line breaks and the indentation of the next line. Line
breaks end items and statements, so they are never joined to one line; at most two are kept. -/
def space (text : List Char) : Render (List Char) := do
  let lines := Text.splitLines text
  let breaks := lines.countP fun line => line.getLast?.any Text.isLineBreak
  if breaks = 0 then
    return [' ']
  else
    let indentation :=
      if text.getLast?.any Text.isLineBreak then [] else lines.getLast?.getD []
    return (← emitNewlines breaks) ++ indentation

/-- Writes the break between two paragraphs. -/
def parbreak (text : List Char) : Render (List Char) :=
  emitNewlines (Text.splitLines text).length

/-- Writes fragments one after another. -/
def joined : List (List Char) → Render (List Char)
  | [] => return []
  | fragment :: fragments => do
    reset
    return fragment ++ (← joined fragments)

mutual

/-- Writes a tree that starts at an offset. -/
def tree (source : List Char) (start : Nat) : Tree → Render (List Char)
  | .token kind text =>
    match kind with
    | .space => space text
    | .parbreak => parbreak text
    | _ => return text
  | .node kind children => do
    let fragments ← trees source start children
    match kind with
    | .args => arguments start children fragments
    | .parbreak =>
      parbreak ((Text.Range.ofLength start (Tree.lengthAll children)).slice source)
    | _ => joined fragments

/-- Writes trees that stand next to each other, each into a fragment. -/
def trees (source : List Char) (start : Nat) : List Tree → Render (List (List Char))
  | [] => return []
  | child :: children => do
    let fragment ← tree source start child
    reset
    return fragment :: (← trees source (start + child.length) children)

end

/-- What a tree is written as, and the notices made on the way. -/
def document (source : List Char) (root : Tree) (options : Options) :
    Except LayoutError (List Char × List Notice) := do
  let (text, context) ← (tree source 0 root).run { options }
  return (text, context.notices)

end Layout

/-- Why a source cannot be formatted. -/
inductive FormatError where
  | source (error : SourceError)
  | layout (error : LayoutError)
  /-- A mode was given for a source that is parsed already. -/
  | modeOfParsed
  deriving DecidableEq, Repr

namespace FormatError

def message? : FormatError → Option String
  | source error => error.message?
  | layout error => error.message?
  | modeOfParsed => some "Pass either parse or mode, not both"

end FormatError

/-- A source and what it is written as. -/
structure Formatted where
  parsed : Parsed
  text : List Char
  notices : List Notice
  deriving Repr

namespace Formatted

def changed (formatted : Formatted) : Bool :=
  formatted.text ≠ formatted.parsed.source

/-- Whether the source has no errors and is written as it should be. -/
def isCanonical (formatted : Formatted) : Bool :=
  !formatted.changed && !formatted.parsed.hasErrors

end Formatted

/-- Formats a source that is parsed already. A source with errors is left alone. -/
def Parsed.format (parsed : Parsed) (options : Options := {}) : Except LayoutError Formatted := do
  if parsed.hasErrors then
    return { parsed, text := parsed.source, notices := [.skipped parsed.diagnostics.length] }
  else
    let (text, notices) ← Layout.document parsed.source parsed.tree options
    return { parsed, text, notices }

/-- Formats a source that is written in one language. -/
def format (source : List Char) (options : Options := {}) (mode : Mode := .markup) :
    Except FormatError Formatted := do
  let parsed ← (parse source mode).mapError .source
  (parsed.format options).mapError .layout

/-- What is to be formatted: a source, or one that is parsed already and then takes its place. A mode
is for a source that is not parsed yet. -/
structure FormatRequest where
  source : List Char
  mode : Option Mode := none
  parsed : Option Parsed := none
  deriving Repr

/-- Formats what is requested. -/
def FormatRequest.run (request : FormatRequest) (options : Options := {}) :
    Except FormatError Formatted :=
  match request.parsed, request.mode with
  | some _, some _ => .error .modeOfParsed
  | some parsed, none => (parsed.format options).mapError .layout
  | none, mode => format request.source options (mode.getD .markup)

end TypstFormat
