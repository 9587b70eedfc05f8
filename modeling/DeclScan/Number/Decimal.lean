import DeclScan.Number.Binary64

/-!
# DeclScan.Number.Decimal

Decimal texts of doubles.

* `shortest`: the fewest digits that read back as the same double, and of those the nearest to it.
* `NumberLayout.render`: where these digits are written with an exponent and where without one.
* `fixedDigits`: a fixed number of decimal places, rounded from the exact value, a tie to the even
  digit.
-/

namespace DeclScan

/-- The decimal number `coefficient · 10 ^ exponent`. -/
structure Decimal where
  coefficient : Nat
  exponent : Int
  deriving Repr, DecidableEq

namespace Decimal

def normalizeWith : Nat → Decimal → Decimal
  | 0, d => d
  | fuel + 1, d =>
    if d.coefficient ≠ 0 && d.coefficient % 10 = 0 then
      normalizeWith fuel ⟨d.coefficient / 10, d.exponent + 1⟩
    else d

def scaleTen (num den : Nat) (shift : Int) : Nat × Nat :=
  if 0 ≤ shift then (num * powerOfTen shift.toNat, den)
  else (num, den * powerOfTen (-shift).toNat)

/-- The least `p` with `num / den < 10 ^ p`, for a positive ratio. -/
def magnitude (num den : Nat) : Int :=
  let estimate : Int := ((num.log2 : Int) - den.log2) * 30103 / 100000
  let below (p : Int) : Bool :=
    let (n, d) := scaleTen num den (-p)
    n < d
  (([-1, 0, 1, 2].map (estimate + ·)).find? below).getD (estimate + 2)

/-- The interval of the ratios that round to a double with this significand, as numerators over
`4 · den`, and whether its ends belong to it. -/
structure Rounding where
  value : Nat
  lower : Nat
  upper : Nat
  den : Nat
  closed : Bool

/-- The rounding interval of a positive finite double. The gap below a power of two is half of the
one above. -/
def Rounding.ofDouble (m : Nat) (q : Int) : Rounding :=
  let scale := powerOfTwo q.toNat
  let halfGap := if m = powerOfTwo 52 && Binary64.minExponent < q then 1 else 2
  { value := 4 * m * scale
    lower := (4 * m - halfGap) * scale
    upper := (4 * m + 2) * scale
    den := 4 * powerOfTwo (-q).toNat
    closed := m % 2 = 0 }

def Rounding.holds (r : Rounding) (n : Nat) (k : Int) : Bool :=
  let (num, den) := scaleTen n 1 k
  let x := num * r.den
  let lower := r.lower * den
  let upper := r.upper * den
  if r.closed then lower ≤ x && x ≤ upper else lower < x && x < upper

/-- The point of the grid of multiples of `10 ^ k` that lies in the interval and is nearest to the
double, if there is one. -/
def Rounding.onGrid? (r : Rounding) (k : Int) : Option Decimal :=
  let (num, den) := scaleTen r.value r.den (-k)
  let below := num / den
  match r.holds below k && below ≠ 0, r.holds (below + 1) k with
  | true, true => some ⟨Binary64.roundHalfEven num den, k⟩
  | true, false => some ⟨below, k⟩
  | false, true => some ⟨below + 1, k⟩
  | false, false => none

def Rounding.firstOnGrid (r : Rounding) : Nat → Int → Decimal
  | 0, k => ⟨0, k⟩
  | fuel + 1, k => (r.onGrid? k).getD (r.firstOnGrid fuel (k - 1))

/-- The shortest decimal number that reads back as the double `m · 2 ^ q`. Seventeen digits always
suffice. -/
def shortest (m : Nat) (q : Int) : Decimal :=
  if m = 0 then ⟨0, 0⟩
  else
    let r := Rounding.ofDouble m q
    normalizeWith 20 (r.firstOnGrid 17 (magnitude r.value r.den - 1))

end Decimal

def decimalDigits (n : Nat) : String := String.ofList (Nat.toDigits 10 n)

def zeros (n : Nat) : String := String.ofList (List.replicate n '0')

/-- How doubles are written. -/
structure NumberLayout where
  /-- The least exponent written without exponent. -/
  positionalFrom : Int
  /-- The least exponent that is too large for it. -/
  positionalBelow : Int
  /-- The least number of digits of an exponent. -/
  exponentWidth : Nat
  nan : String
  infinity : String

/-- Numbers from `0.0001` to below `10 ^ 16` are written without exponent, and then always with a
point; exponents have a sign and at least two digits. -/
def NumberLayout.plain : NumberLayout := ⟨-4, 16, 2, "nan", "inf"⟩

/-- As `plain`, with the names that JSON texts use for what is not a number. -/
def NumberLayout.json : NumberLayout := { NumberLayout.plain with nan := "NaN", infinity := "Infinity" }

def NumberLayout.exponentText (layout : NumberLayout) (e : Int) : String :=
  let digits := decimalDigits e.natAbs
  (if e < 0 then "e-" else "e+") ++ zeros (layout.exponentWidth - digits.length) ++ digits

def NumberLayout.decimalText (layout : NumberLayout) (d : Decimal) : String :=
  let digits := Nat.toDigits 10 d.coefficient
  let point : Int := digits.length + d.exponent
  let scientific := point - 1
  if layout.positionalFrom ≤ scientific && scientific < layout.positionalBelow then
    if point ≤ 0 then "0." ++ zeros (-point).toNat ++ String.ofList digits
    else if digits.length ≤ point.toNat then
      String.ofList digits ++ zeros (point.toNat - digits.length) ++ ".0"
    else
      String.ofList (digits.take point.toNat) ++ "." ++ String.ofList (digits.drop point.toNat)
  else
    match digits with
    | [] => ""
    | [d] => String.ofList [d] ++ layout.exponentText scientific
    | d :: rest => String.ofList (d :: '.' :: rest) ++ layout.exponentText scientific

def NumberLayout.render (layout : NumberLayout) (x : Float) : String :=
  match Binary64.decode x with
  | .nan => layout.nan
  | .infinity negative => (if negative then "-" else "") ++ layout.infinity
  | .finite negative m q =>
    (if negative then "-" else "") ++ layout.decimalText (Decimal.shortest m q)

def floatText (x : Float) : String := NumberLayout.plain.render x

/-- The digits of `num / den` before and after the point, rounded to `places` decimal places. -/
def fixedDigits (places num den : Nat) : List Char × List Char :=
  let digits := Nat.toDigits 10 (Binary64.roundHalfEven (num * powerOfTen places) den)
  let digits := List.replicate (places + 1 - digits.length) '0' ++ digits
  digits.splitAt (digits.length - places)

def fixedText (places : Nat) (x : Float) : String :=
  match Binary64.decode x with
  | .nan => "nan"
  | .infinity negative => (if negative then "-" else "") ++ "inf"
  | .finite negative m q =>
    let (num, den) := Binary64.scaleTwo m 1 q
    let (whole, fraction) := fixedDigits places num den
    (if negative then "-" else "") ++ String.ofList whole ++
      (if places = 0 then "" else "." ++ String.ofList fraction)

end DeclScan
