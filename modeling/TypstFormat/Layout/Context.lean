import TypstFormat.Layout.Notice
import TypstFormat.Layout.Options
import TypstFormat.Layout.Siblings

/-!
# Collapsing white space

While a document is written, a `Context` remembers which white space was written since other text
was: whether a space, as there is to be no second one, and how many line feeds, of which two are
enough. The two are counted apart, so that a space between two line feeds does not matter to either.
`emit` says what is left of a space or a line feed that is to be written, and `reset` is for all
text that is written without asking.
-/

namespace TypstFormat

/-- How many line feeds may be written before other text is. -/
def maxNewlines : Nat := 2

structure Context where
  options : Options := {}
  /-- Whether `emit` wrote a space since other text was written. -/
  afterSpace : Bool := false
  /-- How many line feeds `emit` wrote since other text was written. -/
  newlines : Nat := 0
  /-- The notices so far, the latest first. -/
  noted : List Notice := []
  deriving Repr

namespace Context

/-- Forgets spaces and line feeds, as other text is written. -/
def reset (context : Context) : Context :=
  { context with afterSpace := false, newlines := 0 }

def note (context : Context) (notice : Notice) : Context :=
  { context with noted := notice :: context.noted }

/-- The notices so far, in the order in which they were made. -/
def notices (context : Context) : List Notice :=
  context.noted.reverse

/-- What is to be written for a text, and the context behind it. -/
def emit (context : Context) (text : List Char) : List Char × Context :=
  match text with
  | [' '] =>
    if context.afterSpace then ([], context.note .suppressedSpace)
    else (text, { context with afterSpace := true })
  | ['\n'] =>
    if context.newlines < maxNewlines then
      (text, { context with newlines := context.newlines + 1 })
    else
      ([], context.note .suppressedNewline)
  | _ => (text, context.reset)

end Context

/-- Why a tree has no layout. -/
inductive LayoutError where
  /-- No closing delimiter follows the comma at an offset. -/
  | unclosedComma (offset : Nat)
  /-- There are fewer fragments than children. -/
  | fewFragments
  /-- There are more fragments than children. -/
  | manyFragments
  /-- An indentation so wide that no text can hold it. -/
  | wideIndent
  deriving DecidableEq, Repr

namespace LayoutError

/-- The message of an error, if it has one. -/
def message? : LayoutError → Option String
  | unclosedComma offset => some (CommaError.unclosed offset).message
  | fewFragments => some "zip() argument 2 is shorter than argument 1"
  | manyFragments => some "zip() argument 2 is longer than argument 1"
  | wideIndent => none

end LayoutError

/-- Actions of the layout. -/
abbrev Render := StateT Context (Except LayoutError)

namespace Render

def emit (text : List Char) : Render (List Char) :=
  modifyGet (·.emit text)

def reset : Render Unit :=
  modify (·.reset)

def note (notice : Notice) : Render Unit :=
  modify (·.note notice)

/-- The greatest number of characters that a text may have. -/
def maxTextLength : Nat := Nat.pow 2 63 - 1

/-- The spaces in front of an argument on a line of its own. -/
def indent : Render (List Char) := do
  let width := (← get).options.indentWidth
  if width ≤ maxTextLength then
    return List.replicate width ' '
  else
    throw .wideIndent

/-- Writes `n` line feeds, as far as they may follow each other. -/
def emitNewlines : Nat → Render (List Char)
  | 0 => return []
  | n + 1 => return (← emit ['\n']) ++ (← emitNewlines n)

end Render

end TypstFormat
