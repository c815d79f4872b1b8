import TypstFormat.Grammar.Expect

/-!
# The rules that call each other

Expressions hold blocks, blocks hold markup, and markup holds expressions again. Each rule of the
grammar is therefore a definition of its own that takes the recursive ones as an argument, a
`Rules`. `Grammar.Document` ties the knot.

This module also lists the tokens by which the rules decide, and the precedence of operators.
-/

namespace TypstFormat

/-- Where markup ends besides at a stop. -/
inductive Extent where
  /-- Nowhere else. -/
  | unbounded
  /-- At a line that is set in by less than this many columns. -/
  | column (min : Nat)
  /-- At the end of the line. -/
  | line
  deriving DecidableEq, Repr

namespace Extent

/-- Whether markup of this extent ends in front of a line that starts in a column. -/
def endsBefore : Extent → Nat → Bool
  | unbounded, _ => false
  | column min, start => start < min
  | line, _ => true

end Extent

/-- The recursive rules of the grammar. -/
structure Rules where
  /-- An expression. One that is atomic stops in front of binary operators, and goes on only with
  what is attached to it directly; another stops in front of operators below a precedence. -/
  expression (atomic : Bool) (precedence : Nat) : Parse Unit
  /-- Markup up to one of the stops. It may start at the start of a line. -/
  markup (atLineStart : Bool) (extent : Extent) (stops : List Kind) : Parse Closed
  /-- A conditional, from its keyword on. -/
  conditional : Parse Unit

namespace Grammar

/-- The tokens that are expressions by themselves. -/
def literals : List Kind :=
  [.kwNone, .kwAuto, .kwBool, .int, .float, .numeric, .str, .raw, .label]

/-- The tokens that statements start with. -/
def statementStarts : List Kind :=
  [.kwLet, .kwSet, .kwShow, .kwImport, .kwInclude, .kwReturn]

/-- The tokens that may follow a hash in markup and in math. -/
def embeddedStarts : List Kind :=
  literals ++ statementStarts
    ++ [.ident, .leftBrace, .leftBracket, .leftParen, .dollar, .kwContext, .kwIf, .kwWhile, .kwFor,
      .kwBreak, .kwContinue]

/-- The operators in front of an operand. -/
def unaryPrecedence? : Kind → Option Nat
  | .plus | .minus => some 7
  | .kwNot => some 4
  | _ => none

/-- The tokens that expressions start with. -/
def expressionStarts : List Kind :=
  embeddedStarts ++ [.plus, .minus, .kwNot, .underscore]

/-- The operators between two operands. -/
def binaryPrecedence? : Kind → Option Nat
  | .star | .slash => some 6
  | .plus | .minus => some 5
  | .eqEq | .exclEq | .lt | .ltEq | .gt | .gtEq | .kwIn => some 4
  | .kwAnd => some 3
  | .kwOr => some 2
  | .eq | .plusEq | .hyphEq | .starEq | .slashEq => some 1
  | _ => none

/-- The precedence of the operator of two words, `not in`. -/
def notInPrecedence : Nat := 4

/-- The least precedence that an operator in the right operand may have. Assignments, which have the
least precedence of all, group to the right, and all other operators to the left. -/
def rightPrecedence (precedence : Nat) : Nat :=
  if precedence = 1 then precedence else precedence + 1

def closingDelimiters : List Kind :=
  [.rightBrace, .rightBracket, .rightParen]

/-- The tokens at which statements can go on after an error. -/
def statementResumes : List Kind :=
  expressionStarts ++ [.semicolon, .breakEnd]

/-- The tokens at which a list of items can go on after an error. -/
def itemResumes : List Kind :=
  closingDelimiters ++ [.comma, .semicolon, .breakEnd]

end Grammar

end TypstFormat
