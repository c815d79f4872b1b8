import TypstFormat.Tree.Element

/-!
# Looking at siblings

The layout of a list of arguments depends on what stands next to each of its children. These
questions are about kinds alone: `following` is the list of the kinds behind a child, the nearest
first. `Element.isTrailingComma?` and `Element.isLastComma?` ask them of an element.
-/

namespace TypstFormat

def Kind.isComment : Kind → Bool
  | .lineComment | .blockComment => true
  | _ => false

namespace Siblings

/-- Whether the comma in front of these siblings is the last thing in its list: a closing delimiter
comes next, with at most one space before it. -/
def isTrailingComma : List Kind → Bool
  | .space :: kind :: _ => kind.isTerminator
  | kind :: _ => kind.isTerminator
  | [] => false

/-- Whether the comma in front of these siblings is the last comma of its list. There is no answer if
no closing delimiter follows. -/
def isLastComma? : List Kind → Option Bool
  | [] => none
  | kind :: rest =>
    if kind = .comma then some false
    else if kind.isTerminator then some true
    else isLastComma? rest

/-- Whether the first of these siblings that is not ignored has a kind. -/
def nextIs (ignored : Kind → Bool) (kind : Kind) (following : List Kind) : Bool :=
  (following.dropWhile ignored).head? = some kind

end Siblings

/-- Why a question about a comma has no answer. -/
inductive CommaError where
  /-- The element is no comma. -/
  | noComma (kind : Kind)
  /-- No closing delimiter follows the comma at an offset. -/
  | unclosed (offset : Nat)
  deriving DecidableEq, Repr

def CommaError.message : CommaError → String
  | noComma kind => s!"Expected a comma, got {kind.name}"
  | unclosed offset => s!"Comma at offset {offset} is not followed by a closing delimiter"

namespace Element

/-- The kinds of the siblings behind an element. -/
def followingKinds (e : Element) : List Kind :=
  e.following.map (·.kind)

/-- Whether an element is a trailing comma. -/
def isTrailingComma? (e : Element) : Except CommaError Bool :=
  if e.kind = .comma then .ok (Siblings.isTrailingComma e.followingKinds)
  else .error (.noComma e.kind)

/-- Whether an element is the last comma of its list. -/
def isLastComma? (e : Element) : Except CommaError Bool :=
  if e.kind = .comma then
    match Siblings.isLastComma? e.followingKinds with
    | some isLast => .ok isLast
    | none => .error (.unclosed e.start)
  else
    .error (.noComma e.kind)

end Element

end TypstFormat
