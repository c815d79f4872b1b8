import TypstFormat.Config.Toml.Text
import TypstFormat.Config.Value
import TypstFormat.Number.Integer
import TypstFormat.Number.Shortest

/-!
# Numbers of a TOML file

Integers are decimal, or hexadecimal, octal or binary behind a prefix of their own. A decimal with a
fraction or an exponent is rounded to the nearest number of binary64, whose shortest text is the
value. One underscore may stand between two digits. A numeral ends where it cannot go on, so what
follows `0` in `01` is left for others to refuse.
-/

namespace TypstFormat.Toml

open Number

/-- Why a TOML file cannot be read. -/
inductive TomlError where
  | malformed
  /-- A decimal integer with too many digits. -/
  | longInteger (digits : Nat)
  deriving DecidableEq, Repr

/-- The digits that go on a number: each may have an underscore in front of it. -/
def laterDigits (isDigit : Char → Bool) : List Char → List Char × List Char
  | [] => ([], [])
  | [c] => if isDigit c then ([c], []) else ([], [c])
  | c :: d :: rest =>
    if isDigit c then
      let (digits, rest) := laterDigits isDigit (d :: rest)
      (c :: digits, rest)
    else if c = '_' ∧ isDigit d then
      let (digits, rest) := laterDigits isDigit rest
      (d :: digits, rest)
    else
      ([], c :: d :: rest)

/-- The digits at the start of a text, if it starts with one. -/
def digits? (isDigit : Char → Bool) : List Char → Option (List Char × List Char)
  | [] => none
  | c :: rest =>
    if isDigit c then
      let (digits, rest) := laterDigits isDigit rest
      some (c :: digits, rest)
    else
      none

def isHexDigit (c : Char) : Bool :=
  (hexDigit? c).isSome

/-- The number that digits stand for. -/
def ofBase (base : Nat) (digits : List Char) : Nat :=
  digits.foldl (fun number c => number * base + (hexDigit? c).getD 0) 0

/-- The integer behind a prefix that names its base. -/
def prefixed? : List Char → Option (Nat × List Char)
  | '0' :: 'x' :: rest => (digits? isHexDigit rest).map fun (ds, rest) => (ofBase 16 ds, rest)
  | '0' :: 'o' :: rest =>
    (digits? (fun c => '0' ≤ c && c ≤ '7') rest).map fun (ds, rest) => (ofBase 8 ds, rest)
  | '0' :: 'b' :: rest =>
    (digits? (fun c => c = '0' || c = '1') rest).map fun (ds, rest) => (ofBase 2 ds, rest)
  | _ => none

/-- The sign at the start of a text: whether it is a minus. -/
def sign : List Char → Bool × List Char
  | '-' :: rest => (true, rest)
  | '+' :: rest => (false, rest)
  | rest => (false, rest)

/-- The whole part of a decimal: no zero stands in front of other digits. -/
def whole? : List Char → Option (List Char × List Char)
  | '0' :: rest => some (['0'], rest)
  | rest => digits? Char.isDigit rest

/-- The digits behind a point. -/
def fraction? : List Char → Option (List Char × List Char)
  | '.' :: rest => digits? Char.isDigit rest
  | _ => none

/-- The number behind an `e`. -/
def exponent? : List Char → Option (Int × List Char)
  | c :: rest =>
    if c = 'e' ∨ c = 'E' then
      let (negative, rest) := sign rest
      (digits? Char.isDigit rest).map fun (digits, rest) =>
        let value := (ofBase 10 digits : Int)
        (if negative then -value else value, rest)
    else
      none
  | [] => none

/-- The greatest power of ten that a number of binary64 needs, generously. -/
def maxMagnitude : Int := 400

/-- The text of the number of binary64 that a decimal is read as. Exponents that are out of reach
are not computed with. -/
def floatText (digits : List Char) (exponent : Int) : List Char :=
  let value := ofBase 10 digits
  let magnitude := exponent + Decimal.width value
  if value = 0 ∨ magnitude < -maxMagnitude then
    ['0', '.', '0']
  else if maxMagnitude < magnitude then
    ['i', 'n', 'f']
  else
    match (⟨value, exponent⟩ : Decimal).toBinary64? with
    | some x => Shortest.text x
    | none => ['i', 'n', 'f']

/-- A value of a decimal with a fraction or an exponent. -/
def floatValue (negative : Bool) (digits : List Char) (exponent : Int) : Value :=
  let text := floatText digits exponent
  .float (String.ofList (if negative then '-' :: text else text))

/-- The value of a decimal integer. -/
def integerValue (negative : Bool) (digits : List Char) : Except TomlError Value :=
  if digits.length ≤ maxDigits then
    let value := (ofBase 10 digits : Int)
    .ok (.int (if negative then -value else value))
  else
    .error (.longInteger digits.length)

/-- The number at the start of a text. -/
def decimal? (text : List Char) : Option (Except TomlError Value × List Char) := do
  let (negative, rest) := sign text
  let (digits, rest) ← whole? rest
  let (decimals, rest') := (fraction? rest).getD ([], rest)
  let (power, rest'') := ((exponent? rest').map fun (power, rest) => (some power, rest)).getD
    (none, rest')
  if decimals = [] ∧ power = none then
    return (integerValue negative digits, rest'')
  else
    let exponent := power.getD 0 - decimals.length
    return (.ok (floatValue negative (digits ++ decimals) exponent), rest'')

/-- The words for numbers that are not finite. -/
def special? (text : List Char) : Option (Value × List Char) :=
  let (negative, rest) := sign text
  match rest with
  | 'i' :: 'n' :: 'f' :: rest => some (.float (if negative then "-inf" else "inf"), rest)
  | 'n' :: 'a' :: 'n' :: rest => some (.float "nan", rest)
  | _ => none

/-- The number at the start of a text. -/
def number? (text : List Char) : Option (Except TomlError Value × List Char) :=
  match prefixed? text with
  | some (value, rest) => some (.ok (.int value), rest)
  | none =>
    match decimal? text with
    | some found => some found
    | none => (special? text).map fun (value, rest) => (.ok value, rest)

end TypstFormat.Toml
