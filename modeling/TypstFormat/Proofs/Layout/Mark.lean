import TypstFormat.Layout.Siblings
import TypstFormat.Proofs.Token.Lexeme
import TypstFormat.Text.CharClass
import TypstFormat.Tree.Basic
import Mathlib.Data.List.Chain

/-!
# What a layout may not change

A text with white space taken away is a list of marks: the tokens that count, and the commas between
the arguments of calls. Two texts that hold the same marks are layouts of each other. They may
differ in white space, and in the commas behind the last arguments of lists: a `lastComma` is the
place of such a comma, which a text may hold or leave out.

## Key results

- `Tree.marks`: the marks of a tree
- `Laid`: a text holds marks in their order, with white space around them
- `Laid.append`: texts that are laid out one behind the other are laid out together
- `Mark.Sparse`: no two commas come next to each other
-/

namespace TypstFormat

/-- Nothing but white space. -/
def Blank (text : List Char) : Prop :=
  ∀ c ∈ text, Text.isSpace c = true

namespace Blank

theorem nil : Blank [] := by
  simp [Blank]

theorem append {text more : List Char} (h₁ : Blank text) (h₂ : Blank more) :
    Blank (text ++ more) := by
  intro c hc
  rcases List.mem_append.1 hc with hc | hc
  · exact h₁ c hc
  · exact h₂ c hc

theorem cons {c : Char} {text : List Char} (hc : Text.isSpace c = true) (h : Blank text) :
    Blank (c :: text) :=
  List.forall_mem_cons.2 ⟨hc, h⟩

end Blank

/-- What a text holds apart from white space. -/
inductive Mark where
  /-- A token that counts, with its text. -/
  | token (text : List Char)
  /-- A comma with another argument behind it. -/
  | comma
  /-- The place of the comma behind the last argument. -/
  | lastComma
  deriving DecidableEq, Repr

def Mark.isComma : Mark → Bool
  | token _ => false
  | comma | lastComma => true

/-- A text that holds marks in their order, with any white space around them. -/
inductive Laid : List Mark → List Char → Prop where
  | nil : Laid [] []
  | blank {marks : List Mark} {c : Char} {text : List Char} :
    Text.isSpace c = true → Laid marks text → Laid marks (c :: text)
  | token {marks : List Mark} (own : List Char) {text : List Char} :
    Laid marks text → Laid (.token own :: marks) (own ++ text)
  | comma {marks : List Mark} {text : List Char} :
    Laid marks text → Laid (.comma :: marks) (',' :: text)
  | kept {marks : List Mark} {text : List Char} :
    Laid marks text → Laid (.lastComma :: marks) (',' :: text)
  | dropped {marks : List Mark} {text : List Char} :
    Laid marks text → Laid (.lastComma :: marks) text

/-- No two commas come next to each other, so between two tokens there is at most one. -/
def Mark.Sparse (marks : List Mark) : Prop :=
  marks.IsChain fun a b => ¬(a.isComma = true ∧ b.isComma = true)

/-! ## The marks of a tree -/

/-- White space and comments, which may stand anywhere in a list of arguments. -/
def Kind.isFiller (kind : Kind) : Bool :=
  kind.isComment || kind = .space

/-- Whether nothing but white space and comments comes in front of the parenthesis that closes a
list of arguments. -/
def endsArguments (following : List Kind) : Bool :=
  Siblings.nextIs Kind.isFiller .rightParen following

/-- Whether a child of a list of arguments is the last argument, if it is no comma. -/
def isLastArgument (kind : Kind) (following : List Kind) : Bool :=
  !kind.isFiller && kind ≠ .leftParen && endsArguments following

/-- What a child of a list of arguments adds to the marks, which are `own` for the child by itself.
The comma behind the last argument has its place behind the argument if it is left out. -/
def marksAmong (kind : Kind) (following : List Kind) (own : List Mark) : List Mark :=
  if kind = .comma then [if endsArguments following then .lastComma else .comma]
  else if isLastArgument kind following then own ++ [.lastComma]
  else own

namespace Tree

mutual

/-- The marks of a tree. White space makes none, and all other tokens count, except for the commas
between arguments. -/
def marks : Tree → List Mark
  | .token kind text => if kind.isSpace then [] else [.token text]
  | .node kind children => if kind = .args then argumentMarks children else marksAll children

/-- The marks of several trees. -/
def marksAll : List Tree → List Mark
  | [] => []
  | tree :: trees => marks tree ++ marksAll trees

/-- The marks of the children of a list of arguments. -/
def argumentMarks : List Tree → List Mark
  | [] => []
  | child :: children =>
    marksAmong child.kind (children.map kind) (marks child) ++ argumentMarks children

end

/-- Two texts are layouts of one tree: both hold its marks, which are never two commas in a row. -/
structure Relaid (tree : Tree) (source text : List Char) : Prop where
  source : Laid tree.marks source
  text : Laid tree.marks text
  sparse : Mark.Sparse tree.marks

end Tree

/-! ## Laying out -/

namespace Laid

variable {marks more : List Mark} {text rest : List Char}

theorem append (h₁ : Laid marks text) (h₂ : Laid more rest) :
    Laid (marks ++ more) (text ++ rest) := by
  induction h₁ with
  | nil => exact h₂
  | blank hc _ ih => exact .blank hc ih
  | token own _ ih =>
    rw [List.append_assoc]
    exact .token own ih
  | comma _ ih => exact .comma ih
  | kept _ ih => exact .kept ih
  | dropped _ ih => exact .dropped ih

/-- White space can stand in front of anything. -/
theorem blanks {blanks : List Char} (hblanks : Blank blanks) (h : Laid marks text) :
    Laid marks (blanks ++ text) := by
  induction blanks with
  | nil => exact h
  | cons c blanks ih =>
    apply Laid.blank (hblanks c List.mem_cons_self)
    exact ih fun d hd => hblanks d (List.mem_cons_of_mem _ hd)

theorem of_blanks (h : Blank text) : Laid [] text := by
  simpa using blanks h .nil

/-- White space can stand behind anything. -/
theorem append_blanks (h : Laid marks text) (hrest : Blank rest) : Laid marks (text ++ rest) := by
  simpa using h.append (of_blanks hrest)

theorem singleton (own : List Char) : Laid [.token own] own := by
  simpa using Laid.token own .nil

end Laid

end TypstFormat
