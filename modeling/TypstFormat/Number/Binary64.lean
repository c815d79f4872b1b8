/-!
# Rounding to binary64

A finite positive number in binary64 is `significand * 2 ^ exponent`, with at most 53 bits in the
significand and an exponent of at least -1074. `Binary64.nearest` rounds a fraction to the nearest
of them, and of two equally near ones to the one with the even significand.
-/

namespace TypstFormat.Number

/-- A fraction, rounded to the nearest natural number; a half goes to the even neighbour. -/
def roundDiv (num den : Nat) : Nat :=
  let down := num / den
  let rest := num % den
  if 2 * rest < den ∨ (2 * rest = den ∧ down % 2 = 0) then down else down + 1

/-- A finite number of binary64 that is not negative. -/
structure Binary64 where
  significand : Nat
  exponent : Int
  deriving DecidableEq, Repr

namespace Binary64

/-- How many bits a significand may have. -/
def precision : Nat := 53

/-- The least exponent. -/
def minExponent : Int := -1074

/-- The greatest exponent. -/
def maxExponent : Int := 971

/-- The number as a fraction. -/
def fraction (x : Binary64) : Nat × Nat :=
  (x.significand * Nat.pow 2 x.exponent.toNat, Nat.pow 2 (-x.exponent).toNat)

/-- The fraction `num / den`, divided by `2 ^ exponent`. -/
def scaled (num den : Nat) (exponent : Int) : Nat × Nat :=
  (num * Nat.pow 2 (-exponent).toNat, den * Nat.pow 2 exponent.toNat)

/-- The exponent with which a fraction takes the whole precision, as far as exponents reach. -/
def exponentOf (num den : Nat) : Int :=
  let low := (num.log2 : Int) - den.log2 - precision
  let (n, d) := scaled num den low
  max minExponent (if n / d < Nat.pow 2 precision then low else low + 1)

/-- The number that is nearest to a fraction, unless that is beyond the greatest one. -/
def nearest (num den : Nat) : Option Binary64 :=
  let exponent := exponentOf num den
  let (n, d) := scaled num den exponent
  let significand := roundDiv n d
  let x : Binary64 :=
    if significand = Nat.pow 2 precision then ⟨Nat.pow 2 (precision - 1), exponent + 1⟩
    else ⟨significand, exponent⟩
  if x.exponent ≤ maxExponent then some x else none

end Binary64

end TypstFormat.Number
