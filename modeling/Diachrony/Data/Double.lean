import Diachrony.Text.Basic

/-!
Numbers with a point, as data holds them: whole multiples of a power of two, with
53 binary digits.

A decimal is read as the nearest such number, and of two equally near ones as the
even one; beyond the largest one there is none. A number is printed with the fewest
decimal digits that are read as it again.
-/
namespace Diachrony

open Text (ofNat)

/-- A number: `mantissa` times two to the power of `exponent`, with a sign. -/
structure Double where
  isNegative : Bool
  mantissa : Nat
  exponent : Int
  deriving DecidableEq

namespace Double

/-- The quotient of two numbers, rounded to the nearest one; a half goes to the even
neighbour. -/
def roundedQuotient (numerator denominator : Nat) : Nat :=
  let quotient := numerator / denominator
  let rest := 2 * (numerator % denominator)
  if rest < denominator || (rest == denominator && quotient % 2 == 0) then quotient
  else quotient + 1

def scaled (base numerator denominator : Nat) (power : Int) : Nat × Nat :=
  if 0 ≤ power then (numerator * base.pow power.toNat, denominator)
  else (numerator, denominator * base.pow (-power).toNat)

def leastExponent : Int := -1074

def largestExponent : Int := 971

/-- The number nearest to a positive fraction. -/
def ofFraction? (isNegative : Bool) (numerator denominator : Nat) : Option Double :=
  let size : Int := (numerator.log2 : Int) - denominator.log2
  let (left, right) := scaled 2 numerator denominator (-size)
  let exponent := max leastExponent (size - (if left < right then 53 else 52))
  let (left, right) := scaled 2 numerator denominator (-exponent)
  let mantissa := roundedQuotient left right
  let (mantissa, exponent) :=
    if mantissa = Nat.pow 2 53 then (Nat.pow 2 52, exponent + 1) else (mantissa, exponent)
  if largestExponent < exponent then none else some ⟨isNegative, mantissa, exponent⟩

/-- The number nearest to some digits times a power of ten. A power that is far out of
reach is not worked out. -/
def ofDecimal? (isNegative : Bool) (digits : Nat) (power : Int) : Option Double :=
  let size := (ofNat digits).length + power
  if digits = 0 || size < -330 then some ⟨isNegative, 0, leastExponent⟩
  else if 310 < size then none
  else
    let (numerator, denominator) := scaled 10 digits 1 power
    ofFraction? isNegative numerator denominator

def fraction (number : Double) : Nat × Nat :=
  scaled 2 number.mantissa 1 number.exponent

def toInt? (number : Double) : Option Int :=
  let (numerator, denominator) := number.fraction
  if numerator % denominator = 0 then
    let size : Int := (numerator / denominator : Nat)
    some (if number.isNegative then -size else size)
  else none

def ceiling (number : Double) : Int :=
  let (numerator, denominator) := number.fraction
  if number.isNegative then -(numerator / denominator : Nat)
  else ((numerator + denominator - 1) / denominator : Nat)

/-- The power of ten of the first decimal digit of a positive fraction. -/
def leadingPower (numerator denominator : Nat) : Int :=
  if denominator ≤ numerator then (ofNat (numerator / denominator)).length - 1
  else
    let reaches (places : Nat) : Bool := denominator ≤ numerator * Nat.pow 10 places
    Int.negOfNat (((List.range 330).find? reaches).getD 330)

/-- The multiple of a power of ten that is read as a number and is nearest to it, if
there is one; of two equally near ones it is the even one. -/
def multipleOf? (number : Double) (power : Int) : Option Nat :=
  let (numerator, denominator) := number.fraction
  let (numerator, denominator) := scaled 10 numerator denominator (-power)
  let below := numerator / denominator
  let candidates :=
    if roundedQuotient numerator denominator = below then [below, below + 1]
    else [below + 1, below]
  candidates.find? fun digits =>
    ofDecimal? number.isNegative digits power == some number

/-- The fewest digits that are read as a number, and the power of ten of the last of
them. -/
def shortestDigits (number : Double) : Nat × Int :=
  let (numerator, denominator) := number.fraction
  let leading := leadingPower numerator denominator
  let found? := (List.range 17).findSome? fun places : Nat =>
    let power := leading - (places : Int)
    (number.multipleOf? power).map fun digits => (digits, power)
  found?.getD (number.mantissa, 0)

/-- Decimal digits without the zeros at their end, and the offset of the point from
their beginning. -/
def significant (digits : Nat) (power : Int) : Text × Int :=
  let all := ofNat digits
  (Text.stripEnd (· == '0') all, all.length + power)

def positional (digits : Text) (point : Int) : Text :=
  if point ≤ 0 then "0.".toList ++ List.replicate (-point).toNat '0' ++ digits
  else if digits.length ≤ point then
    digits ++ List.replicate (point.toNat - digits.length) '0' ++ ".0".toList
  else digits.take point.toNat ++ '.' :: digits.drop point.toNat

/-- Digits with the point behind the first of them, and the power of ten that is
left, which has two digits at least. -/
def exponential (digits : Text) (point : Int) : Text :=
  let fraction := if digits.length ≤ 1 then [] else '.' :: digits.drop 1
  let power := point - 1
  let size := ofNat power.natAbs
  digits.take 1 ++ fraction ++ 'e' :: (if power < 0 then '-' else '+') ::
    (if size.length < 2 then '0' :: size else size)

/-- The printed form of a number. Large and small numbers are printed with a power of
ten. -/
def print (number : Double) : Text :=
  let sign := if number.isNegative then ['-'] else []
  if number.mantissa = 0 then sign ++ "0.0".toList
  else
    let (digits, power) := number.shortestDigits
    let (digits, point) := significant digits power
    sign ++ if -4 < point && point ≤ 16 then positional digits point
      else exponential digits point

end Double

end Diachrony
