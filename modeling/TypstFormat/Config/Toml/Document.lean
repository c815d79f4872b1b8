import TypstFormat.Config.Toml.Value

/-!
# Documents in TOML

A document is read line by line: each line holds an entry, a header, or nothing but a comment. The
lines end with line feeds. Dates and times are not among the values, and make a document malformed.
-/

namespace TypstFormat.Toml

open Reader

/-- The header of a table, or of a table in an array. -/
def header (draft : Draft) : Reader Draft := do
  let isArray ← accept ['[', '[']
  unless isArray do
    expect ['[']
  skip isBlank
  let key ← key
  let found := if isArray then draft.arrayTable? key else draft.table? key
  match found with
  | none => malformed
  | some draft =>
    expect (if isArray then [']', ']'] else [']'])
    return draft

/-- An entry of the current table. -/
def entry (draft : Draft) : Reader Draft := do
  let key ← key
  expect ['=']
  skip isBlank
  let value ← value
  match draft.entry? key value with
  | none => malformed
  | some draft => return draft

/-- What stands on a line, without the comment and the end of the line. -/
def statement (draft : Draft) : Reader Draft := do
  match ← peek? with
  | none => return draft
  | some c =>
    if startsKey c then entry draft
    else if c = '[' then header draft
    else if c = '#' ∨ c = '\n' then return draft
    else malformed

/-- The lines of a document, if there are at most `fuel` more line feeds. -/
def linesUpTo : Nat → Draft → Reader Draft
  | 0, _ => malformed
  | fuel + 1, draft => do
    skip isBlank
    let draft ← statement draft
    skip isBlank
    comment
    if (← peek?).isNone then
      return draft
    else
      expect ['\n']
      linesUpTo fuel draft

/-- The entries of a document. -/
def read (text : List Char) : Except TomlError Table := do
  let (draft, _) ← (linesUpTo (text.length + 1) {}).run text
  return draft.table

end TypstFormat.Toml
