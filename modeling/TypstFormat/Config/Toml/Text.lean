/-!
# Strings of a TOML file

Basic strings stand between double quotes and have escapes, literal strings stand between single
quotes and have none. Either kind may stand between three quotes on each side and then go over
several lines. The functions here start behind the opening quotes and give the text and what is left
behind the closing ones.
-/

namespace TypstFormat.Toml

/-- The characters that may stand between the parts of a line. -/
def isBlank (c : Char) : Bool :=
  c = ' ' || c = '\t'

/-- The characters that may stand between the items of an array. -/
def isFiller (c : Char) : Bool :=
  isBlank c || c = '\n'

/-- Control characters other than the tab have no place in a line. -/
def isIllegal (c : Char) : Bool :=
  (c.toNat < 32 && c ≠ '\t') || c.toNat = 127

/-- Whether a character has no place in a string; a line feed has one if there may be lines. -/
def isIllegalIn (multiline : Bool) (c : Char) : Bool :=
  isIllegal c && !(multiline && c = '\n')

/-- The value of a hexadecimal digit. -/
def hexDigit? (c : Char) : Option Nat :=
  if '0' ≤ c ∧ c ≤ '9' then some (c.toNat - 48)
  else if 'a' ≤ c ∧ c ≤ 'f' then some (c.toNat - 87)
  else if 'A' ≤ c ∧ c ≤ 'F' then some (c.toNat - 55)
  else none

/-- The character that `width` hexadecimal digits at the start of a text stand for. -/
def escapedScalar? (width : Nat) (text : List Char) : Option Char := do
  let digits ← (text.take width).mapM hexDigit?
  let value := digits.foldl (fun value digit => value * 16 + digit) 0
  if digits.length = width ∧ value.isValidChar then
    return Char.ofNat value
  else
    none

/-- What an escape stands for that goes on with `rest` behind its backslash, and how many characters
of `rest` it takes. A backslash at the end of a line stands for nothing, and takes all white space up
to the next text. -/
def escape? (multiline : Bool) (rest : List Char) : Option (List Char × Nat) :=
  match rest with
  | [] => none
  | c :: digits =>
    if c = 'b' then some (['\x08'], 1)
    else if c = 't' then some (['\t'], 1)
    else if c = 'n' then some (['\n'], 1)
    else if c = 'f' then some (['\x0c'], 1)
    else if c = 'r' then some (['\r'], 1)
    else if c = '\x22' ∨ c = '\\' then some ([c], 1)
    else if c = 'u' then (escapedScalar? 4 digits).map fun scalar => ([scalar], 5)
    else if c = 'U' then (escapedScalar? 8 digits).map fun scalar => ([scalar], 9)
    else if multiline ∧ isFiller c then
      let blanks := (rest.takeWhile isBlank).length
      match rest.drop blanks with
      | '\n' :: more => some ([], blanks + 1 + (more.takeWhile isFiller).length)
      | _ => none
    else none

/-- Whether a text starts with three quotes. -/
def startsWithThree (quote : Char) (text : List Char) : Bool :=
  text.take 3 = [quote, quote, quote]

/-- The text of a basic string. -/
def basicText (multiline : Bool) : List Char → Option (List Char × List Char)
  | [] => none
  | c :: rest =>
    if c = '\x22' ∧ !multiline then some ([], rest)
    else if c = '\x22' ∧ startsWithThree c (c :: rest) then some ([], rest.drop 2)
    else if c = '\\' then
      match escape? multiline rest with
      | none => none
      | some (piece, taken) =>
        (basicText multiline (rest.drop taken)).map fun (text, rest) => (piece ++ text, rest)
    else if isIllegalIn multiline c then none
    else (basicText multiline rest).map fun (text, rest) => (c :: text, rest)
termination_by text => text.length
decreasing_by all_goals simp only [List.length_drop, List.length_cons]; omega

/-- The text of a literal string. -/
def literalText (multiline : Bool) : List Char → Option (List Char × List Char)
  | [] => none
  | c :: rest =>
    if c = '\x27' ∧ !multiline then some ([], rest)
    else if c = '\x27' ∧ startsWithThree c (c :: rest) then some ([], rest.drop 2)
    else if isIllegalIn multiline c then none
    else (literalText multiline rest).map fun (text, rest) => (c :: text, rest)

/-- A string over several lines may end with up to two quotes of its own. -/
def withLastQuotes (quote : Char) : List Char × List Char → List Char × List Char
  | (text, c :: d :: rest) =>
    if c = quote ∧ d = quote then (text ++ [c, d], rest)
    else if c = quote then (text ++ [c], d :: rest)
    else (text, c :: d :: rest)
  | (text, [c]) => if c = quote then (text ++ [c], []) else (text, [c])
  | (text, []) => (text, [])

/-- A text without the line feed at its start. -/
def withoutFirstLineFeed : List Char → List Char
  | '\n' :: text => text
  | text => text

/-- The string at the start of a text that starts with a quote. -/
def string? (text : List Char) : Option (List Char × List Char) :=
  match text with
  | [] => none
  | quote :: rest =>
    let read := if quote = '\x22' then basicText else literalText
    if startsWithThree quote text then
      (read true (withoutFirstLineFeed (rest.drop 2))).map (withLastQuotes quote)
    else
      read false rest

/-- The string at the start of a text that starts with a quote, if it must stay on its line. -/
def lineString? (text : List Char) : Option (List Char × List Char) :=
  match text with
  | [] => none
  | quote :: rest => if quote = '\x22' then basicText false rest else literalText false rest

end TypstFormat.Toml
