import TypstFormat.Text.CharClass

/-!
# Written integers

How an integer is written on the command line: a sign, if any, and decimal digits of any script,
where one underscore may stand between two digits. White space around the whole does not count.
-/

namespace TypstFormat.Number

/-- How many digits a decimal integer may have. -/
def maxDigits : Nat := 4300

/-- White space that may stand around an integer: all but the information separators. -/
def isPadding (c : Char) : Bool :=
  Text.isSpace c && !(28 ≤ c.toNat && c.toNat ≤ 31)

/-- The values of the digits, where a single underscore between two of them does not count. -/
def digitValues? : List Char → Option (List Nat)
  | [] => none
  | [c] => (Text.decimalDigit? c).map ([·])
  | c :: '_' :: rest => do
    let digit ← Text.decimalDigit? c
    return digit :: (← digitValues? rest)
  | c :: rest => do
    let digit ← Text.decimalDigit? c
    return digit :: (← digitValues? rest)

/-- The number that decimal digits stand for. -/
def ofDigits (digits : List Nat) : Nat :=
  digits.foldl (fun number digit => number * 10 + digit) 0

/-- A text without the padding around it. -/
def trimmed (text : List Char) : List Char :=
  ((text.dropWhile isPadding).reverse.dropWhile isPadding).reverse

/-- The natural number that a text stands for, if it has no sign. -/
def natural? (text : List Char) : Option Nat := do
  let digits ← digitValues? text
  if digits.length ≤ maxDigits then
    return ofDigits digits
  else
    none

/-- The integer that a text stands for. -/
def integer? (text : List Char) : Option Int :=
  match trimmed text with
  | '-' :: text => (natural? text).map fun number => -(number : Int)
  | '+' :: text => (natural? text).map fun number => (number : Int)
  | text => (natural? text).map fun number => (number : Int)

end TypstFormat.Number
