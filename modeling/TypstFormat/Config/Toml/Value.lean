import TypstFormat.Config.Toml.Numeral
import TypstFormat.Config.Toml.Table

/-!
# Values of a TOML file

A value is a string, a boolean, a number, an array or an inline table. Arrays may go over several
lines and hold comments, inline tables stay on their line. Of two readers that call each other at
least one takes a character, so twice the number of characters bounds the depth of the calls.
-/

namespace TypstFormat.Toml

/-- A reader takes characters from the start of a text. -/
abbrev Reader := StateT (List Char) (Except TomlError)

namespace Reader

def malformed : Reader α :=
  throw .malformed

/-- What an optional reading function finds. -/
def ofOption (read : List Char → Option (α × List Char)) : Reader α := do
  match read (← get) with
  | some (a, rest) => set rest; return a
  | none => malformed

/-- The next character, if there is one. -/
def peek? : Reader (Option Char) :=
  return (← get).head?

/-- Drops characters of a kind. -/
def skip (p : Char → Bool) : Reader Unit :=
  modify (·.dropWhile p)

/-- Takes a text, if it comes next. -/
def accept (text : List Char) : Reader Bool := do
  if text.isPrefixOf (← get) then
    modify (·.drop text.length)
    return true
  else
    return false

/-- Takes a text, which must come next. -/
def expect (text : List Char) : Reader Unit := do
  unless ← accept text do
    malformed

/-- Takes a comment, if one comes next. It ends in front of the line feed. -/
def comment : Reader Unit := do
  if (← peek?) = some '#' then
    let line := (← get).takeWhile (· ≠ '\n')
    if line.any isIllegal then
      malformed
    modify (·.drop line.length)

/-- Takes white space, line feeds and comments, for at most `fuel` comments. -/
def fillerUpTo : Nat → Reader Unit
  | 0 => skip isFiller
  | fuel + 1 => do
    skip isFiller
    if (← peek?) = some '#' then
      comment
      fillerUpTo fuel

/-- Takes white space, line feeds and comments. -/
def filler : Reader Unit := do
  fillerUpTo (← get).length

end Reader

open Reader

/-- The characters of a key that stands without quotes. -/
def isBareKeyChar (c : Char) : Bool :=
  c.isAlphanum || c = '-' || c = '_'

/-- The characters with which a key starts. -/
def startsKey (c : Char) : Bool :=
  isBareKeyChar c || c = '\x22' || c = '\x27'

/-- A part of a key. -/
def keyPart : Reader String := do
  match ← peek? with
  | some c =>
    if isBareKeyChar c then
      let part := (← get).takeWhile isBareKeyChar
      modify (·.drop part.length)
      return String.ofList part
    else if startsKey c then
      return String.ofList (← ofOption lineString?)
    else
      malformed
  | none => malformed

/-- The parts of a key, if there are at most `fuel` more of them. -/
def keyUpTo : Nat → Reader Key
  | 0 => malformed
  | fuel + 1 => do
    let part ← keyPart
    skip isBlank
    if ← accept ['.'] then
      skip isBlank
      return part :: (← keyUpTo fuel)
    else
      return [part]

/-- A key, and the white space behind it. -/
def key : Reader Key := do
  keyUpTo (← get).length

/-- A number. -/
def number : Reader Value := do
  match number? (← get) with
  | some (.ok value, rest) => set rest; return value
  | some (.error error, _) => throw error
  | none => malformed

/-- Takes a boolean, if one comes next. -/
def boolean? : Reader (Option Bool) := do
  if ← accept ['t', 'r', 'u', 'e'] then return some true
  else if ← accept ['f', 'a', 'l', 's', 'e'] then return some false
  else return none

mutual

/-- A value, if at most `fuel` readers are under way within it. -/
def valueUpTo : Nat → Reader Value
  | 0 => malformed
  | fuel + 1 => do
    match ← peek? with
    | some '[' =>
      let _ ← accept ['[']
      filler
      return .array (← itemsUpTo fuel)
    | some '\x7b' =>
      let _ ← accept ['\x7b']
      skip isBlank
      if ← accept ['\x7d'] then
        return .table []
      else
        return .table (← entriesUpTo fuel {})
    | some '\x22' | some '\x27' => return .string (String.ofList (← ofOption string?))
    | _ =>
      match ← boolean? with
      | some value => return .bool value
      | none => number

/-- The items of an array, up to its end. -/
def itemsUpTo : Nat → Reader (List Value)
  | 0 => malformed
  | fuel + 1 => do
    if ← accept [']'] then
      return []
    else
      let item ← valueUpTo fuel
      filler
      if ← accept [','] then
        filler
        return item :: (← itemsUpTo fuel)
      else
        expect [']']
        return [item]

/-- The entries of an inline table, up to its end. -/
def entriesUpTo : Nat → Draft → Reader Table
  | 0, _ => malformed
  | fuel + 1, draft => do
    let key ← key
    expect ['=']
    skip isBlank
    let value ← valueUpTo fuel
    match draft.inlineEntry? key value with
    | none => malformed
    | some draft =>
      skip isBlank
      if ← accept [','] then
        skip isBlank
        entriesUpTo fuel draft
      else
        expect ['\x7d']
        return draft.table

end

/-- A value. -/
def value : Reader Value := do
  valueUpTo (2 * (← get).length + 2)

end TypstFormat.Toml
