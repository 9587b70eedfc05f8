import DeclScan.Json.Reader
import DeclScan.Settings.Scalar

/-!
# DeclScan.YamlText.Scalar

What a plain scalar of a YAML text stands for: a word for null or a truth value, an integer in one
of its notations, a double, or else the text itself.
-/

namespace DeclScan
namespace YamlText

open Text

def nullWords : List String := ["", "~", "null", "Null", "NULL"]

def trueWords : List String :=
  ["yes", "Yes", "YES", "true", "True", "TRUE", "on", "On", "ON"]

def falseWords : List String :=
  ["no", "No", "NO", "false", "False", "FALSE", "off", "Off", "OFF"]

/-- The value of digits of a base, if all are. Underscores between them do not count, but there has
to be something. -/
def digitsValue? (base : Nat) (s : List Char) : Option Nat :=
  if s = [] then none
  else
    (s.filter (· ≠ '_')).foldlM
      (fun n c =>
        match Json.hexValue? c with
        | some d => if d < base then some (n * base + d) else none
        | none => none)
      0

/-- The value of numbers to the base sixty, with colons between them: all but the first below
sixty, written with one or two digits. -/
def sexagesimal? (s : List Char) : Option Nat :=
  match splitOn ':' s with
  | first :: second :: rest =>
    if first.head? = some '0' then none
    else
      (second :: rest).foldlM
        (fun n part =>
          if part.length ≤ 2 then
            match digitsValue? 10 part with
            | some d => if d < 60 then some (n * 60 + d) else none
            | none => none
          else none)
        ((digitsValue? 10 first).getD 0)
  | _ => none

/-- The natural number of an unsigned integer: binary, octal, hexadecimal, decimal, or to the base
sixty. -/
def natural? : List Char → Option Nat
  | ['0'] => some 0
  | '0' :: 'b' :: digits => digitsValue? 2 digits
  | '0' :: 'x' :: digits => digitsValue? 16 digits
  | '0' :: digits => digitsValue? 8 digits
  | s =>
    if (s.head?.map isAsciiDigit).getD false then
      if s.contains ':' then sexagesimal? s else digitsValue? 10 s
    else none

def takeSign : List Char → Bool × List Char
  | '-' :: s => (true, s)
  | '+' :: s => (false, s)
  | s => (false, s)

/-- The exponent at the end of a double: a letter, a sign and digits. -/
def takeExponent? : List Char → Option Int
  | [] => some 0
  | e :: sign :: digits =>
    if (e = 'e' || e = 'E') && (sign = '-' || sign = '+') && digits ≠ [] &&
        digits.all isAsciiDigit then
      let n : Int := Json.natOfDigits digits
      some (if sign = '-' then -n else n)
    else none
  | _ => none

/-- Whether a character may stand in the digits of a double. -/
def isDoubleDigit (c : Char) : Bool := isAsciiDigit c || c = '_'

/-- The double that a scalar spells: digits with a point in or before them, and perhaps an
exponent; or a word after a point. -/
def double? (s : List Char) : Option Float :=
  let (negative, body) := takeSign s
  if [".inf", ".Inf", ".INF"].contains (String.ofList body) then
    some (if negative then -1.0 / 0.0 else 1.0 / 0.0)
  else if [".nan", ".NaN", ".NAN"].contains (String.ofList s) then some (0.0 / 0.0)
  else
    let whole := body.takeWhile isDoubleDigit
    match body.dropWhile isDoubleDigit with
    | '.' :: rest =>
      let fraction := rest.takeWhile isDoubleDigit
      let startsWithDigit (s : List Char) : Bool := (s.head?.map isAsciiDigit).getD false
      if startsWithDigit whole || (whole = [] && body = s && startsWithDigit fraction) then
        (takeExponent? (rest.dropWhile isDoubleDigit)).map fun exponent =>
          let fraction := fraction.filter (· ≠ '_')
          Binary64.ofDecimal negative
            (Json.natOfDigits (whole.filter (· ≠ '_') ++ fraction)) (exponent - fraction.length)
      else none
    | _ => none

def plainValue (s : List Char) : Json :=
  let word := String.ofList s
  if nullWords.contains word then .null
  else if trueWords.contains word then .bool true
  else if falseWords.contains word then .bool false
  else
    let (negative, body) := takeSign s
    match natural? body with
    | some n => .int (if negative then -n else n)
    | none =>
      match double? s with
      | some x => .float x
      | none => .str word

end YamlText
end DeclScan
