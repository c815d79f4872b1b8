import TypstFormat.Number.Binary64

/-!
# The shortest decimal

A number of binary64 is shown with the fewest decimal digits that read back as the same number, and
among those with the ones nearest to it. `Shortest.decimal` finds them by trying one digit, two
digits, and so on; `Shortest.render` writes them.

For a count of digits only the two neighbours of the number on that decimal grid need to be tried:
if any point of the grid reads back, so does one of them.
-/

namespace TypstFormat.Number

/-- A decimal, `digits * 10 ^ exponent`. -/
structure Decimal where
  digits : Nat
  exponent : Int
  deriving DecidableEq, Repr

namespace Decimal

/-- The decimal as a fraction. -/
def fraction (d : Decimal) : Nat × Nat :=
  (d.digits * Nat.pow 10 d.exponent.toNat, Nat.pow 10 (-d.exponent).toNat)

/-- The number of binary64 that a decimal is read as. -/
def toBinary64? (d : Decimal) : Option Binary64 :=
  Binary64.nearest d.fraction.1 d.fraction.2

/-- How many decimal digits a number has. -/
def width (n : Nat) : Nat :=
  (Nat.toDigits 10 n).length

end Decimal

namespace Shortest

/-- The least power of ten that is greater than a positive fraction. -/
def magnitude (num den : Nat) : Int :=
  if den ≤ num then Decimal.width (num / den) else 1 - Decimal.width ((den - 1) / num)

/-- The decimals with a given exponent on both sides of a fraction, the nearer one first. -/
def neighbours (num den : Nat) (exponent : Int) : List Decimal :=
  let n := num * Nat.pow 10 (-exponent).toNat
  let d := den * Nat.pow 10 exponent.toNat
  let down : Decimal := ⟨n / d, exponent⟩
  let up : Decimal := ⟨n / d + 1, exponent⟩
  if roundDiv n d = down.digits then [down, up] else [up, down]

/-- The most digits that are ever needed. -/
def maxWidth : Nat := 17

/-- The decimal that a number is shown as. -/
def decimal (x : Binary64) : Decimal :=
  let (num, den) := x.fraction
  let top := magnitude num den
  let candidates := (List.range maxWidth).flatMap fun width =>
    neighbours num den (top - (width + 1 : Nat))
  (candidates.find? fun d => d.toBinary64? = some x).getD ⟨num, 0⟩

/-- A digit string without the zeros at its end. -/
def significant (digits : List Char) : List Char :=
  match (digits.reverse.dropWhile (· = '0')).reverse with
  | [] => ['0']
  | digits => digits

/-- The exponent of a number, written with a sign and at least two digits. -/
def exponentText (exponent : Int) : List Char :=
  let sign := if exponent < 0 then '-' else '+'
  let digits := Nat.toDigits 10 exponent.natAbs
  sign :: (List.replicate (2 - digits.length) '0' ++ digits)

/-- A decimal as it is shown: with a point if the first digit stands for at least `10 ^ (-4)` and for
less than `10 ^ 16`, and with an exponent otherwise. A whole number has one zero behind the point. -/
def render (d : Decimal) : List Char :=
  let written := Nat.toDigits 10 d.digits
  let digits := significant written
  let exponent := d.exponent + written.length - 1
  if exponent < -4 ∨ 16 ≤ exponent then
    let fraction := if digits.tail = [] then [] else '.' :: digits.tail
    digits.take 1 ++ fraction ++ ['e'] ++ exponentText exponent
  else if exponent < 0 then
    ['0', '.'] ++ List.replicate (-exponent - 1).toNat '0' ++ digits
  else
    let whole := exponent.toNat + 1
    let fraction := digits.drop whole
    digits.take whole ++ List.replicate (whole - digits.length) '0'
      ++ ['.'] ++ (if fraction = [] then ['0'] else fraction)

/-- The text of a number. -/
def text (x : Binary64) : List Char :=
  if x.significand = 0 then ['0', '.', '0'] else render (decimal x)

end Shortest

end TypstFormat.Number
