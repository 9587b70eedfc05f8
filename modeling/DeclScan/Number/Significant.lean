import DeclScan.Number.Decimal

/-!
# DeclScan.Number.Significant

Numbers with a given number of significant digits.

* `Significant.ofRatio`: the digits, rounded from the exact number, a tie to the even digit.
* `Significant.scientificText`, `Significant.generalText`: the digits with an exponent, and with one
  only where it is needed.

A text is `pointed` if it has a point even where no digit follows, and keeps the zeros at its end.
-/

namespace DeclScan

/-- The digits of a number, and the exponent of the first one. -/
structure Significant where
  digits : List Char
  exponent : Int
  deriving Repr, DecidableEq

namespace Significant

/-- The first `count` digits of `num / den`. Rounding up to a power of ten moves the exponent. -/
def ofRatio (count num den : Nat) : Significant :=
  if num = 0 then ⟨List.replicate count '0', 0⟩
  else
    let magnitude := Decimal.magnitude num den
    let (n, d) := Decimal.scaleTen num den (count - magnitude)
    let rounded := Binary64.roundHalfEven n d
    ⟨(Nat.toDigits 10 rounded).take count,
      if rounded = powerOfTen count then magnitude else magnitude - 1⟩

def dropFinalZeros (digits : List Char) : List Char :=
  (digits.reverse.dropWhile (· = '0')).reverse

def pointText (pointed : Bool) (whole fraction : List Char) : List Char :=
  let fraction := if pointed then fraction else dropFinalZeros fraction
  if fraction = [] && !pointed then whole else whole ++ '.' :: fraction

/-- The exponent with its sign and at least two digits. -/
def exponentText (s : Significant) : List Char := (NumberLayout.plain.exponentText s.exponent).toList

/-- The digits with an exponent, whatever their last ones are. -/
def scientificText (pointed : Bool) (s : Significant) : List Char :=
  let fraction := s.digits.drop 1
  s.digits.take 1 ++ (if fraction = [] && !pointed then [] else '.' :: fraction) ++ s.exponentText

/-- The digits with an exponent only if it is below `-4`, or if there are too few digits to do
without. -/
def generalText (pointed : Bool) (s : Significant) : List Char :=
  if s.exponent < -4 || (s.digits.length : Int) ≤ s.exponent then
    pointText pointed (s.digits.take 1) (s.digits.drop 1) ++ s.exponentText
  else if s.exponent < 0 then
    pointText pointed ['0'] (List.replicate (-s.exponent - 1).toNat '0' ++ s.digits)
  else
    let whole := s.exponent.toNat + 1
    pointText pointed (s.digits.take whole) (s.digits.drop whole)

end Significant
end DeclScan
