/-!
# Notices

What the program tells about its own work: each `Notice` has a level, a text, and fields with
further facts.
-/

namespace TypstFormat

inductive Level where
  | debug
  | info
  | warning
  deriving DecidableEq, Repr

namespace Level

def name : Level → String
  | debug => "debug"
  | info => "info"
  | warning => "warning"

/-- Levels are ordered by how much they matter. -/
def rank : Level → Nat
  | debug => 0
  | info => 1
  | warning => 2

end Level

/-- A fact that a notice mentions. -/
inductive Fact where
  | number (value : Nat)
  | flag (value : Bool)
  | text (value : String)
  deriving DecidableEq, Repr

inductive Notice where
  /-- A list of arguments that starts at an offset is broken into lines. -/
  | breaking (offset length : Nat) (hasLineComment : Bool)
  /-- A list of arguments that starts at an offset stays on its line. -/
  | keeping (offset length : Nat)
  | suppressedSpace
  | suppressedNewline
  /-- A source is left alone because of what is wrong with it. -/
  | skipped (errors : Nat)
  | reformatted (path : String)
  | unknownKey (key file : String)
  deriving DecidableEq, Repr

namespace Notice

def level : Notice → Level
  | breaking .. | keeping .. | suppressedSpace | suppressedNewline => .debug
  | skipped _ | reformatted _ => .info
  | unknownKey .. => .warning

def event : Notice → String
  | breaking .. => "Breaking argument list"
  | keeping .. => "Keeping argument list on one line"
  | suppressedSpace => "Suppressed space"
  | suppressedNewline => "Suppressed newline"
  | skipped _ => "Skipping formatting of source with syntax errors"
  | reformatted _ => "Reformatted file"
  | unknownKey key file => s!"Ignoring unknown typstfmt config key '{key}' in {file}."

/-- The facts of a notice, sorted by their names. -/
def facts : Notice → List (String × Fact)
  | breaking offset length hasLineComment =>
    [("length", .number length), ("line_comment", .flag hasLineComment), ("offset", .number offset)]
  | keeping offset length => [("length", .number length), ("offset", .number offset)]
  | skipped errors => [("error_count", .number errors)]
  | reformatted path => [("path", .text path)]
  | suppressedSpace | suppressedNewline | unknownKey .. => []

end Notice

end TypstFormat
