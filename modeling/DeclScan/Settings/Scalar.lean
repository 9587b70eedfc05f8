import DeclScan.Json.Reader
import DeclScan.Path
import DeclScan.Settings.Fault

/-!
# DeclScan.Settings.Scalar

Reading the values of settings. Values come from files, where they have a kind, and from the
environment, where everything is a text; so a text that spells a number or a truth value is as good
as the value.

* `Scalar.integer`: whole numbers, and whole doubles.
* `Scalar.number`: doubles.
* `Scalar.boolean`: truth values.
-/

namespace DeclScan

/-- What can be wrong with a value. -/
inductive SettingProblem where
  | notSection (title : String)
  | notInteger
  | unreadableInteger
  | hugeInteger
  | fractionalInteger
  | notFinite
  | notNumber
  | unreadableNumber
  | notBoolean
  | unreadableBoolean
  | notExecutor
  | notList
  | notText
  | notAbove (bound : Nat)
  | below (bound : Nat)
  | above (bound : Nat)
  | refused (reason : String)
  deriving Repr, DecidableEq

def SettingProblem.code : SettingProblem → String
  | .notSection _ => "model_type"
  | .notInteger => "int_type"
  | .unreadableInteger => "int_parsing"
  | .hugeInteger => "int_parsing_size"
  | .fractionalInteger => "int_from_float"
  | .notFinite => "finite_number"
  | .notNumber => "float_type"
  | .unreadableNumber => "float_parsing"
  | .notBoolean => "bool_type"
  | .unreadableBoolean => "bool_parsing"
  | .notExecutor => "literal_error"
  | .notList => "list_type"
  | .notText => "string_type"
  | .notAbove _ => "greater_than"
  | .below _ => "greater_than_equal"
  | .above _ => "less_than_equal"
  | .refused _ => "value_error"

def SettingProblem.message : SettingProblem → String
  | .notSection title => s!"Input should be a valid dictionary or instance of {title}"
  | .notInteger => "Input should be a valid integer"
  | .unreadableInteger =>
    "Input should be a valid integer, unable to parse string as an integer"
  | .hugeInteger => "Unable to parse input string as an integer, exceeded maximum size"
  | .fractionalInteger =>
    "Input should be a valid integer, got a number with a fractional part"
  | .notFinite => "Input should be a finite number"
  | .notNumber => "Input should be a valid number"
  | .unreadableNumber => "Input should be a valid number, unable to parse string as a number"
  | .notBoolean => "Input should be a valid boolean"
  | .unreadableBoolean => "Input should be a valid boolean, unable to interpret input"
  | .notExecutor => "Input should be 'inline', 'thread' or 'process'"
  | .notList => "Input should be a valid list"
  | .notText => "Input should be a valid string"
  | .notAbove bound => s!"Input should be greater than {bound}"
  | .below bound => s!"Input should be greater than or equal to {bound}"
  | .above bound => s!"Input should be less than or equal to {bound}"
  | .refused reason => s!"Value error, {reason}"

/-- The fault that there is a problem behind some steps. -/
def SettingProblem.at (p : SettingProblem) (location : List SettingStep) : SettingFault :=
  ⟨location, p.code, p.message⟩

namespace Scalar

open Text

/-- White space around a value; the separators of information do not count. -/
def isPadding (c : Char) : Bool := isBlank c && !(0x1C ≤ c.toNat && c.toNat ≤ 0x1F)

def trimPadding (s : List Char) : List Char := trimMatches isPadding s

/-- The text without underscores, if it has any, and each stands alone between two characters. -/
def dropUnderscores? (s : List Char) : Option (List Char) :=
  if s.head? = some '_' || s.getLast? = some '_' || contains ['_', '_'] s || !s.contains '_' then
    none
  else some (s.filter (· ≠ '_'))

/-! ## Integers -/

/-- Drops the zeros in front, but leaves one digit before a point and at the end. A minus sign
behind them is left as well. `last` is the character before. -/
def dropZerosFrom (last : Char) : List Char → Option (List Char)
  | [] => some [last]
  | c :: s =>
    if c = '0' || c = '_' then dropZerosFrom c s
    else if ('1' ≤ c && c ≤ '9') || c = '-' then some (c :: s)
    else if c = '.' then some (last :: c :: s)
    else none

def dropZeros? : List Char → Option (List Char)
  | '0' :: s => dropZerosFrom '0' s
  | c :: s => if '1' ≤ c && c ≤ '9' then some (c :: s) else none
  | [] => none

/-- Drops a point that only zeros follow, at least one. -/
def dropZeroFraction (s : List Char) : List Char :=
  let (whole, fraction) := (s.takeWhile (· ≠ '.'), s.dropWhile (· ≠ '.'))
  match fraction with
  | '.' :: '0' :: zeros => if zeros.all (· = '0') then whole else s
  | _ => s

/-- The digits of a whole number: a zero alone, or digits that do not begin with one. -/
def wholeDigits? (s : List Char) : Option Nat :=
  match Json.takeWhole? s with
  | some (digits, []) => some (Json.natOfDigits digits)
  | _ => none

/-- Whether a minus sign stands in front, and what follows the sign. -/
def takeMinus : List Char → Bool × List Char
  | '-' :: s => (true, s)
  | s => (false, s)

/-- The sign of a number and its digits. The zeros in front of a minus sign do not count. -/
def signAndDigits? (s : List Char) : Option (Bool × List Char) :=
  let (negative, body) := match s with
    | '+' :: rest => (false, rest)
    | rest => takeMinus rest
  (dropZeros? body).map fun body =>
    let body := dropZeroFraction body
    let body := (dropUnderscores? body).getD body
    if negative then (true, body) else takeMinus body

/-- The length of the numeral that a text begins with: digits, of which the first is no zero, with
the minus sign in front of them. -/
def numeralLength (s : List Char) : Nat :=
  let (negative, body) := takeMinus s
  match body with
  | c :: _ =>
    if '1' ≤ c && c ≤ '9' then (body.takeWhile isAsciiDigit).length + (if negative then 1 else 0)
    else 0
  | [] => 0

/-- The integer that a sign and digits stand for, if they are no longer than is read. -/
def signedWhole? (negative : Bool) (digits : List Char) : Option Int :=
  match wholeDigits? digits with
  | none => none
  | some n =>
    if Json.maxDigits < digits.length + (if negative then 1 else 0) then none
    else some (if negative then -n else n)

/-- The integer that a text spells. A sign, zeros in front, underscores between digits and a
fraction of zeros are allowed. A text that begins with a numeral is told that this is too long; any
other text has to be put in order first, and is merely unreadable then. -/
def integerOfText (s : String) : Except SettingProblem Int :=
  if Json.maxDigits < numeralLength s.toList then .error .hugeInteger
  else
    match (signAndDigits? (trimPadding s.toList)).bind fun (negative, digits) =>
        signedWhole? negative digits with
    | some n => .ok n
    | none => .error .unreadableInteger

def integerOfFloat (x : Float) : Except SettingProblem Int :=
  match Binary64.decode x with
  | .nan | .infinity _ => .error .notFinite
  | .finite negative m q =>
    let (num, den) := Binary64.scaleTwo m 1 q
    if num % den ≠ 0 then .error .fractionalInteger
    else
      let n := num / den
      if powerOfTwo 63 ≤ n then .error .hugeInteger else .ok (if negative then -n else n)

def integer : Json → Except SettingProblem Int
  | .int n => .ok n
  | .bool b => .ok (if b then 1 else 0)
  | .float x => integerOfFloat x
  | .str s => integerOfText s
  | _ => .error .notInteger

def integerFrom (least : Nat) (j : Json) : Except SettingProblem Int :=
  match integer j with
  | .error p => .error p
  | .ok n => if n < least then .error (.below least) else .ok n

def integerBetween (least most : Nat) (j : Json) : Except SettingProblem Int :=
  match integer j with
  | .error p => .error p
  | .ok n =>
    if (most : Int) < n then .error (.above most)
    else if n < least then .error (.below least)
    else .ok n

/-! ## Numbers -/

/-- The double that a decimal numeral with a sign spells: digits, a point with digits before or
after it, an exponent. -/
def numeral? (s : List Char) : Option Float :=
  let (negative, body) := match s with
    | '-' :: r => (true, r)
    | '+' :: r => (false, r)
    | r => (false, r)
  let name := lower body
  if name = "inf".toList || name = "infinity".toList then
    some (if negative then -1.0 / 0.0 else 1.0 / 0.0)
  else if name = "nan".toList then some (0.0 / 0.0)
  else
    let whole := body.takeWhile isAsciiDigit
    let rest := body.dropWhile isAsciiDigit
    let (fraction, rest) := match rest with
      | '.' :: r => (r.takeWhile isAsciiDigit, r.dropWhile isAsciiDigit)
      | r => ([], r)
    let (exponent, rest) := Json.takeExponent rest
    if whole ++ fraction = [] || rest ≠ [] then none
    else
      some (Binary64.ofDecimal negative (Json.natOfDigits (whole ++ fraction))
        (exponent.getD 0 - fraction.length))

/-- The double that a text spells. Underscores may stand between digits. -/
def numberOfText (s : String) : Except SettingProblem Float :=
  match numeral? (trimPadding s.toList) with
  | some x => .ok x
  | none =>
    match (dropUnderscores? s.toList).bind numeral? with
    | some x => .ok x
    | none => .error .unreadableNumber

/-- The double nearest to an integer, if it is in range. -/
def numberOfInteger (n : Int) : Except SettingProblem Float :=
  match Binary64.decode (Binary64.ofInt n) with
  | .finite _ _ _ => .ok (Binary64.ofInt n)
  | _ => .error .notNumber

def number : Json → Except SettingProblem Float
  | .int n => numberOfInteger n
  | .bool b => .ok (if b then 1 else 0)
  | .float x => .ok x
  | .str s => numberOfText s
  | _ => .error .notNumber

def positiveNumber (j : Json) : Except SettingProblem Float :=
  match number j with
  | .error p => .error p
  | .ok x => if 0 < x then .ok x else .error (.notAbove 0)

/-! ## Truth values and texts -/

def falseWords : List String := ["0", "off", "f", "false", "n", "no"]

def trueWords : List String := ["1", "on", "t", "true", "y", "yes"]

/-- The truth value that a number of 64 bits stands for. -/
def booleanOfInteger (n : Int) : Except SettingProblem Bool :=
  if n = 0 then .ok false
  else if n = 1 then .ok true
  else if -(powerOfTwo 63 : Int) ≤ n ∧ n < powerOfTwo 63 then .error .unreadableBoolean
  else .error .notBoolean

def boolean : Json → Except SettingProblem Bool
  | .bool b => .ok b
  | .int n => booleanOfInteger n
  | .float x =>
    match integerOfFloat x with
    | .ok n => booleanOfInteger n
    | .error _ => .error .notBoolean
  | .str s =>
    let word := Path.lower s
    if falseWords.contains word then .ok false
    else if trueWords.contains word then .ok true
    else .error .unreadableBoolean
  | _ => .error .notBoolean

def text : Json → Except SettingProblem String
  | .str s => .ok s
  | _ => .error .notText

end Scalar
end DeclScan
