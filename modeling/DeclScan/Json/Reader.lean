import DeclScan.Json.Value
import DeclScan.Number.Binary64
import DeclScan.Text.Basic

/-!
# DeclScan.Json.Reader

Reading JSON texts. Beyond the standard, `NaN`, `Infinity` and `-Infinity` are numbers. Three
limits apply: a text may not begin with a byte order mark, a whole number has at most
`maxDigits` digits, and containers nest at most `maxDepth` deep.

`Json.read` answers with the document or with the cause of the failure and its place;
`ReadError.message` words it.
-/

namespace DeclScan
namespace Json

open Text

/-- What a text lacks at the place where reading stopped. -/
inductive Problem where
  | expectedValue
  | expectedName
  | expectedColon
  | expectedComma
  | extraData
  | unterminatedString
  | controlCharacter
  | badEscape
  | badUnicodeEscape
  | byteOrderMark
  deriving Repr, DecidableEq

def Problem.text : Problem → String
  | .expectedValue => "Expecting value"
  | .expectedName => "Expecting property name enclosed in double quotes"
  | .expectedColon => "Expecting ':' delimiter"
  | .expectedComma => "Expecting ',' delimiter"
  | .extraData => "Extra data"
  | .unterminatedString => "Unterminated string starting at"
  | .controlCharacter => "Invalid control character at"
  | .badEscape => "Invalid \\escape"
  | .badUnicodeEscape => "Invalid \\uXXXX escape"
  | .byteOrderMark => "Unexpected UTF-8 BOM (decode using utf-8-sig)"

/-- The two kinds of containers. -/
inductive Container where
  | array
  | object
  deriving Repr, DecidableEq

def Container.text : Container → String
  | .array => "array"
  | .object => "object"

/-- Why reading stopped. A place is given by the number of characters from it to the end of the
text. -/
inductive Failure where
  | problem (p : Problem) (remaining : Nat)
  | tooManyDigits (digits : Nat)
  | tooDeep (c : Container)
  deriving Repr, DecidableEq

/-- Why a text is not read. -/
inductive ReadError where
  | problem (p : Problem) (line column offset : Nat)
  | tooManyDigits (digits : Nat)
  | tooDeep (c : Container)
  deriving Repr, DecidableEq

def maxDigits : Nat := 4300

def maxDepth : Nat := 1000

def ReadError.message : ReadError → String
  | .problem p line column offset =>
    s!"{p.text}: line {line} column {column} (char {offset})"
  | .tooManyDigits digits =>
    s!"Exceeds the limit ({maxDigits} digits) for integer string conversion: value has {digits} " ++
      "digits; use sys.set_int_max_str_digits() to increase the limit"
  | .tooDeep c =>
    s!"maximum recursion depth exceeded while decoding a JSON {c.text} from a unicode string"

def failAt {α : Type} (p : Problem) (s : List Char) : Except Failure α :=
  .error (.problem p s.length)

def isSpace (c : Char) : Bool := c = ' ' || c = '\t' || c = '\n' || c = '\r'

def dropSpace (s : List Char) : List Char := s.dropWhile isSpace

/-! ## Strings -/

def hexValue? (c : Char) : Option Nat :=
  if isAsciiDigit c then some (c.toNat - '0'.toNat)
  else if 'a' ≤ c && c ≤ 'f' then some (c.toNat - 'a'.toNat + 10)
  else if 'A' ≤ c && c ≤ 'F' then some (c.toNat - 'A'.toNat + 10)
  else none

/-- The value of four hexadecimal digits and the text after them. -/
def takeHex? : List Char → Option (Nat × List Char)
  | a :: b :: c :: d :: s =>
    match hexValue? a, hexValue? b, hexValue? c, hexValue? d with
    | some a, some b, some c, some d => some (((a * 16 + b) * 16 + c) * 16 + d, s)
    | _, _, _, _ => none
  | _ => none

/-- Whether a code unit is the first of a surrogate pair. -/
def isHighSurrogate (n : Nat) : Bool := 0xD800 ≤ n && n ≤ 0xDBFF

/-- Whether a code unit is the second of a surrogate pair. -/
def isLowSurrogate (n : Nat) : Bool := 0xDC00 ≤ n && n ≤ 0xDFFF

def charOfUnit (n : Nat) : Char := if isHighSurrogate n || isLowSurrogate n then '\uFFFD' else Char.ofNat n

/-- The character behind the `u` of an escape, and the text after it. A surrogate pair is two
escapes. Something must follow the digits, if only the closing quote. -/
def unicodeEscape (s : List Char) : Except Failure (Char × List Char) :=
  let bad : Except Failure (Char × List Char) := .error (.problem .badUnicodeEscape (s.length + 1))
  if s.length < 5 then bad
  else
    match takeHex? s with
    | none => bad
    | some (first, rest) =>
      match rest with
      | '\\' :: 'u' :: digits =>
        if isHighSurrogate first && 6 < rest.length then
          match takeHex? digits with
          | none => .error (.problem .badUnicodeEscape (digits.length + 1))
          | some (second, rest') =>
            if isLowSurrogate second then
              .ok (Char.ofNat (0x10000 + (first - 0xD800) * 0x400 + (second - 0xDC00)), rest')
            else .ok (charOfUnit first, rest)
        else .ok (charOfUnit first, rest)
      | _ => .ok (charOfUnit first, rest)

def simpleEscape? : Char → Option Char
  | '"' => some '"'
  | '\\' => some '\\'
  | '/' => some '/'
  | 'b' => some '\x08'
  | 'f' => some '\x0c'
  | 'n' => some '\n'
  | 'r' => some '\r'
  | 't' => some '\t'
  | _ => none

/-- Reads a string up to its closing quote. `opening` is what is left of the text from the opening
quote on, `read` the characters so far, last first. -/
def readString (opening : Nat) : Nat → List Char → List Char → Except Failure (List Char × List Char)
  | 0, _, _ => .error (.problem .unterminatedString opening)
  | fuel + 1, read, s =>
    match s with
    | [] => .error (.problem .unterminatedString opening)
    | '"' :: rest => .ok (read.reverse, rest)
    | '\\' :: 'u' :: rest =>
      match unicodeEscape rest with
      | .error e => .error e
      | .ok (c, rest) => readString opening fuel (c :: read) rest
    | ['\\'] => .error (.problem .unterminatedString opening)
    | '\\' :: e :: rest =>
      match simpleEscape? e with
      | some c => readString opening fuel (c :: read) rest
      | none => .error (.problem .badEscape (rest.length + 2))
    | c :: rest =>
      if c.toNat < 32 then .error (.problem .controlCharacter (rest.length + 1))
      else readString opening fuel (c :: read) rest

/-! ## Numbers -/

def natOfDigits (digits : List Char) : Nat :=
  digits.foldl (fun n c => n * 10 + (c.toNat - '0'.toNat)) 0

/-- The digits of a fraction, if a point and a digit follow, and the text after them. -/
def takeFraction (s : List Char) : List Char × List Char :=
  match s with
  | '.' :: r =>
    let digits := r.takeWhile isAsciiDigit
    if digits = [] then ([], s) else (digits, r.dropWhile isAsciiDigit)
  | _ => ([], s)

/-- The exponent, if there is one with a digit, and the text after it. -/
def takeExponent (s : List Char) : Option Int × List Char :=
  match s with
  | e :: r =>
    if e = 'e' || e = 'E' then
      let (negative, r) := match r with
        | '-' :: t => (true, t)
        | '+' :: t => (false, t)
        | t => (false, t)
      let digits := r.takeWhile isAsciiDigit
      if digits = [] then (none, s)
      else
        let n : Int := natOfDigits digits
        (some (if negative then -n else n), r.dropWhile isAsciiDigit)
    else (none, s)
  | [] => (none, s)

/-- The whole part of a number: a zero, or digits that do not begin with one. -/
def takeWhole? : List Char → Option (List Char × List Char)
  | '0' :: s => some (['0'], s)
  | s =>
    let digits := s.takeWhile isAsciiDigit
    if digits = [] then none else some (digits, s.dropWhile isAsciiDigit)

/-- Reads a number: a whole number unless it has a fraction or an exponent. -/
def readNumber (s : List Char) : Except Failure (Json × List Char) :=
  let (negative, body) := match s with
    | '-' :: r => (true, r)
    | r => (false, r)
  match takeWhole? body with
  | none => failAt .expectedValue s
  | some (whole, rest) =>
    let (fraction, rest) := takeFraction rest
    let (exponent, rest) := takeExponent rest
    if fraction = [] && exponent.isNone then
      if maxDigits < whole.length then .error (.tooManyDigits whole.length)
      else
        let n : Int := natOfDigits whole
        .ok (.int (if negative then -n else n), rest)
    else
      .ok (.float (Binary64.ofDecimal negative (natOfDigits (whole ++ fraction))
        (exponent.getD 0 - fraction.length)), rest)

/-! ## Documents -/

def words : List (List Char × Json) :=
  [("null".toList, .null), ("true".toList, .bool true), ("false".toList, .bool false),
    ("NaN".toList, .float (0.0 / 0.0)), ("Infinity".toList, .float (1.0 / 0.0)),
    ("-Infinity".toList, .float (-1.0 / 0.0))]

def readScalar (s : List Char) : Except Failure (Json × List Char) :=
  match words.findSome? fun (word, value) => (dropLiteral word s).map fun rest => (value, rest) with
  | some found => .ok found
  | none => readNumber s

mutual

/-- Reads the value at the front of a text, with containers `depth` deep. -/
def readValue : Nat → Nat → List Char → Except Failure (Json × List Char)
  | 0, _, s => failAt .expectedValue s
  | fuel + 1, depth, s =>
    match s with
    | '"' :: rest =>
      match readString s.length s.length [] rest with
      | .error e => .error e
      | .ok (text, rest) => .ok (.str (String.ofList text), rest)
    | '[' :: rest =>
      if depth = 0 then .error (.tooDeep .array)
      else
        match dropSpace rest with
        | ']' :: rest => .ok (.arr [], rest)
        | rest => readItems fuel (depth - 1) [] rest
    | '\x7b' :: rest =>
      if depth = 0 then .error (.tooDeep .object)
      else
        match dropSpace rest with
        | '\x7d' :: rest => .ok (.obj [], rest)
        | rest => readMembers fuel (depth - 1) [] rest
    | s => readScalar s

/-- Reads the items of an array from the next one on; `items` are those so far, last first. -/
def readItems : Nat → Nat → List Json → List Char → Except Failure (Json × List Char)
  | 0, _, _, s => failAt .expectedValue s
  | fuel + 1, depth, items, s =>
    match readValue fuel depth s with
    | .error e => .error e
    | .ok (item, rest) =>
      match dropSpace rest with
      | ']' :: rest => .ok (.arr (item :: items).reverse, rest)
      | ',' :: rest => readItems fuel depth (item :: items) (dropSpace rest)
      | rest => failAt .expectedComma rest

/-- Reads the members of an object from the next one on; `members` are those so far, last
first. -/
def readMembers : Nat → Nat → List (String × Json) → List Char → Except Failure (Json × List Char)
  | 0, _, _, s => failAt .expectedName s
  | fuel + 1, depth, members, s =>
    match s with
    | '"' :: rest =>
      match readString s.length s.length [] rest with
      | .error e => .error e
      | .ok (key, rest) =>
        match dropSpace rest with
        | ':' :: rest =>
          match readValue fuel depth (dropSpace rest) with
          | .error e => .error e
          | .ok (value, rest) =>
            let members := (String.ofList key, value) :: members
            match dropSpace rest with
            | '\x7d' :: rest => .ok (.obj (Table.ofPairs members.reverse), rest)
            | ',' :: rest => readMembers fuel depth members (dropSpace rest)
            | rest => failAt .expectedComma rest
        | rest => failAt .expectedColon rest
    | s => failAt .expectedName s

end

/-- The failure with its place in the whole text: 1-based line and column, 0-based offset. -/
def Failure.locate (text : List Char) : Failure → ReadError
  | .tooManyDigits digits => .tooManyDigits digits
  | .tooDeep c => .tooDeep c
  | .problem p remaining =>
    let before := text.take (text.length - remaining)
    .problem p (before.count '\n' + 1) ((before.reverse.takeWhile (· ≠ '\n')).length + 1)
      before.length

/-- Reads a text that holds one document and white space around it. -/
def readWhole (s : List Char) : Except Failure Json :=
  match s with
  | '\uFEFF' :: _ => failAt .byteOrderMark s
  | _ =>
    match readValue (2 * s.length + 2) maxDepth (dropSpace s) with
    | .error e => .error e
    | .ok (value, rest) =>
      match dropSpace rest with
      | [] => .ok value
      | rest => failAt .extraData rest

def read (s : List Char) : Except ReadError Json :=
  match readWhole s with
  | .error e => .error (e.locate s)
  | .ok value => .ok value

end Json
end DeclScan
