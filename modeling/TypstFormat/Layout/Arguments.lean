import TypstFormat.Layout.Context
import TypstFormat.Layout.Siblings
import TypstFormat.Text.CharClass

/-!
# The layout of argument lists

A list of arguments is written on one line if it fits, and with every argument on a line of its own
otherwise. A line comment reaches to the end of its line, so a list that holds one is never written
on one line.

Both layouts go through the children from left to right, each with its fragment: the text that was
written for it. They decide anew about spaces and commas, and keep the other fragments.
-/

namespace TypstFormat.Layout

open Render Siblings

/-- The length of the last line of a text without its spaces. The layout goes by this length and
not by the width of the line. -/
def effectiveLength (text : List Char) : Nat :=
  (text.reverse.takeWhile (· ≠ '\n')).countP (· ≠ ' ')

/-- Whether a space stays on one line, because it sets off a comment from an argument. -/
def spacesComment (previous : Option Kind) (following : List Kind) : Bool :=
  match previous, following with
  | some previous, next :: _ =>
    !(previous = .comma || previous = .leftParen || next.isTerminator)
      && (previous.isComment || next.isComment)
  | _, _ => false

/-- What comes behind a token that ends its line: a line feed and the indentation of the next line.
If a comment follows on the same line, the space in front of it decides. -/
def lineEnd (following : List Kind) (indent : List Char) : List Char :=
  match following with
  | .space :: next :: _ => if next.isComment then [] else '\n' :: indent
  | next :: _ => if next.isComment then [' '] else '\n' :: indent
  | [] => '\n' :: indent

/-- What becomes of a space in a list that is broken: next to a comment it stays a space, or a line
feed if there was one. -/
def spaceBesideComment (previous : Option Kind) (following : List Kind) (space indent : List Char) :
    List Char :=
  if previous.any Kind.isComment || following.head?.any Kind.isComment then
    if nextIs (· = .space) .rightParen following then ['\n']
    else if space.any Text.isLineBreak then '\n' :: indent
    else [' ']
  else
    []

/-- Writes a list on one line. `previous` is the kind of the child in front. -/
def oneLine (previous : Option Kind) : List Tree → List (List Char) → Render (List Char)
  | [], [] => return []
  | _ :: _, [] => throw .fewFragments
  | [], _ :: _ => throw .manyFragments
  | child :: children, fragment :: fragments => do
    let following := children.map Tree.kind
    let part ←
      match child.kind with
      | .space => pure (if spacesComment previous following then [' '] else [])
      | .comma =>
        if isTrailingComma following then
          pure []
        else
          reset
          pure (child.ownText ++ [' '])
      | _ =>
        reset
        pure fragment
    return part ++ (← oneLine (some child.kind) children fragments)

/-- Whether the comma at an offset ends the list, so that the closing delimiter comes next. -/
def endsList (offset : Nat) (following : List Kind) : Render Bool :=
  match isLastComma? following with
  | none => throw (.unclosedComma offset)
  | some isLast => return isLast && isTrailingComma following

/-- Writes one child of a list that is broken. `start` is its offset. -/
def brokenPart (start : Nat) (previous : Option Kind) (child : Tree) (following : List Kind)
    (fragment : List Char) : Render (List Char) := do
  match child.kind with
  | .leftParen => return child.ownText ++ lineEnd following (← indent)
  | .space => return spaceBesideComment previous following child.ownText (← indent)
  | .comma =>
    let margin ← if ← endsList start following then pure [] else indent
    reset
    return child.ownText ++ lineEnd following margin
  | kind =>
    reset
    if kind.isComment then
      return if following.head? = some .rightParen then fragment ++ ['\n'] else fragment
    else if nextIs (fun kind => kind.isComment || kind = .space) .rightParen following then
      return fragment ++ ',' :: lineEnd following []
    else
      return fragment

/-- Writes a list with every argument on a line of its own. `start` is the offset of the first
child, and `previous` is the kind of the child in front. -/
def broken (start : Nat) (previous : Option Kind) :
    List Tree → List (List Char) → Render (List Char)
  | [], [] => return []
  | _ :: _, [] => throw .fewFragments
  | [], _ :: _ => throw .manyFragments
  | child :: children, fragment :: fragments => do
    let part ← brokenPart start previous child (children.map Tree.kind) fragment
    return part ++ (← broken (start + child.length) (some child.kind) children fragments)

/-- Writes a list of arguments that starts at an offset. -/
def arguments (start : Nat) (children : List Tree) (fragments : List (List Char)) :
    Render (List Char) := do
  let line ← oneLine none children fragments
  let length := effectiveLength line
  let hasLineComment := children.any fun child => child.kind = .lineComment
  if hasLineComment || (← get).options.maxLineLength ≤ length then
    note (.breaking start length hasLineComment)
    reset
    broken start none children fragments
  else
    note (.keeping start length)
    return line

end TypstFormat.Layout
