/-!
# Paths

A path names a file by its parts, from the working directory or from the top of the file system.
Reading a path drops what means nothing: repeated slashes, a slash at the end, and parts that are a
single dot. A part of two dots stays, because what it leads to depends on the file system.
-/

namespace TypstFormat

/-- Where a path starts. -/
inductive Anchor where
  /-- The working directory. -/
  | here
  | top
  /-- Two slashes, which a system may tell apart from one. -/
  | alternateTop
  deriving DecidableEq, Repr

def Anchor.text : Anchor → String
  | here => ""
  | top => "/"
  | alternateTop => "//"

structure Path where
  anchor : Anchor := .here
  parts : List String := []
  deriving DecidableEq, Repr

namespace Path

/-- The pieces of a text between slashes. -/
def pieces : List Char → List (List Char)
  | [] => [[]]
  | '/' :: rest => [] :: pieces rest
  | c :: rest =>
    match pieces rest with
    | [] => [[c]]
    | piece :: more => (c :: piece) :: more

/-- Where a text starts as a path. Three slashes and more count as one. -/
def anchorOf : List Char → Anchor
  | '/' :: '/' :: '/' :: _ => .top
  | '/' :: '/' :: _ => .alternateTop
  | '/' :: _ => .top
  | _ => .here

/-- Whether a piece leads anywhere. -/
def isPart (piece : List Char) : Bool :=
  piece ≠ [] ∧ piece ≠ ['.']

/-- The path that a text stands for. -/
def ofString (text : String) : Path where
  anchor := anchorOf text.toList
  parts := ((pieces text.toList).filter isPart).map String.ofList

/-- The text of a path; that of the working directory is a dot. -/
def text (path : Path) : String :=
  if path.anchor = .here ∧ path.parts = [] then "."
  else path.anchor.text ++ "/".intercalate path.parts

/-- The path of a file in the directory that a path names. -/
def child (path : Path) (name : String) : Path :=
  { path with parts := path.parts ++ [name] }

/-- The directories above a list of parts, the nearest first. -/
def partsAbove (parts : List String) : List (List String) :=
  (List.range parts.length).reverse.map parts.take

/-- The directories above a path, the nearest first. -/
def parents (path : Path) : List Path :=
  (partsAbove path.parts).map fun parts => { path with parts }

end Path

end TypstFormat
