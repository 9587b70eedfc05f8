/-!
# DeclScan.Number.Binary64

Doubles as exact numbers. A finite double is a sign, a significand `m` and an exponent `q`, and
stands for `± m · 2 ^ q`.

* `Binary64.decode`: the parts of a double.
* `Binary64.ofRatio`: the double nearest to a ratio of natural numbers, a tie to the even one.
* `Binary64.ofDecimal`: the double nearest to a decimal number.
-/

namespace DeclScan

def powerOfTwo (n : Nat) : Nat := Nat.pow 2 n

def powerOfTen (n : Nat) : Nat := Nat.pow 10 n

/-- A double taken apart. -/
inductive Binary64 where
  | nan
  | infinity (negative : Bool)
  | finite (negative : Bool) (significand : Nat) (exponent : Int)
  deriving Repr, DecidableEq

namespace Binary64

def minExponent : Int := -1074

def decode (x : Float) : Binary64 :=
  let bits := x.toBits.toNat
  let negative : Bool := bits / powerOfTwo 63 = 1
  let biased : Nat := bits / powerOfTwo 52 % powerOfTwo 11
  let fraction : Nat := bits % powerOfTwo 52
  if biased = 2047 then if fraction = 0 then .infinity negative else .nan
  else if biased = 0 then .finite negative fraction minExponent
  else .finite negative (powerOfTwo 52 + fraction) (biased - 1075)

/-- `num / den` to the nearest natural number, a tie to the even one. -/
def roundHalfEven (num den : Nat) : Nat :=
  let q := num / den
  let twice := 2 * (num % den)
  if twice < den then q
  else if den < twice then q + 1
  else if q % 2 = 0 then q else q + 1

/-- The rounded number is within half a unit of the ratio. -/
theorem roundHalfEven_near (num : Nat) {den : Nat} (h : 0 < den) :
    2 * (roundHalfEven num den * den) ≤ 2 * num + den ∧
      2 * num ≤ 2 * (roundHalfEven num den * den) + den := by
  have hsplit : num / den * den + num % den = num := Nat.div_add_mod' num den
  have hrest : num % den < den := Nat.mod_lt num h
  have hup : (num / den + 1) * den = num / den * den + den := Nat.succ_mul _ _
  rw [roundHalfEven]
  split
  · omega
  · split
    · omega
    · split <;> omega

/-- Half way between two numbers it is the even one. -/
theorem even_roundHalfEven_of_tie {num den : Nat} (h : 2 * (num % den) = den) :
    roundHalfEven num den % 2 = 0 := by
  rw [roundHalfEven]
  rw [if_neg (by omega), if_neg (by omega)]
  split <;> omega

def scaleTwo (num den : Nat) (shift : Int) : Nat × Nat :=
  if 0 ≤ shift then (num * powerOfTwo shift.toNat, den) else (num, den * powerOfTwo (-shift).toNat)

/-- The double nearest to `num / den`, for `den ≠ 0`; infinite when it is out of range. -/
def ofRatio (negative : Bool) (num den : Nat) : Float :=
  let sign : Nat := if negative then powerOfTwo 63 else 0
  if num = 0 then Float.ofBits sign.toUInt64
  else
    let estimate : Int := (num.log2 : Int) - den.log2
    let (n, d) := scaleTwo num den (-estimate)
    let top := if n < d then estimate - 1 else estimate
    let q := max (top - 52) minExponent
    let (n, d) := scaleTwo num den (-q)
    let m := roundHalfEven n d
    let (m, q) := if m = powerOfTwo 53 then (powerOfTwo 52, q + 1) else (m, q)
    let magnitude :=
      if m < powerOfTwo 52 then m
      else
        let biased := (q + 1075).toNat
        if 2047 ≤ biased then 2047 * powerOfTwo 52 else biased * powerOfTwo 52 + (m - powerOfTwo 52)
    Float.ofBits (sign + magnitude).toUInt64

/-- The double nearest to `coefficient · 10 ^ exponent`. Numbers far out of range are cut off by
the number of their digits, before any power is computed. -/
def ofDecimal (negative : Bool) (coefficient : Nat) (exponent : Int) : Float :=
  let digits : Int := coefficient.log2 * 30103 / 100000 + 1 + exponent
  if coefficient = 0 || digits < -400 then ofRatio negative 0 1
  else if 400 < digits then ofRatio negative (powerOfTwo 1024) 1
  else if 0 ≤ exponent then ofRatio negative (coefficient * powerOfTen exponent.toNat) 1
  else ofRatio negative coefficient (powerOfTen (-exponent).toNat)

def ofInt (i : Int) : Float := ofRatio (i < 0) i.natAbs 1

end Binary64
end DeclScan
