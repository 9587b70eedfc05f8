import DeclScan.Log.Conversion
import DeclScan.Text.CharClass

/-!
# DeclScan.Log.Template

Messages with places for values. A place is a percent sign, in brackets the key of a value, marks of
style, a width, a point and a precision, and the letter of a conversion; all but the first and the
last may be left out. Two percent signs are one.

* `LogTemplate.read`: the parts of a template.
* `LogTemplate.fill`: the message, or why the values do not fit.

Places with keys take the values of a mapping, the others take values one after the other. What is
wrong is found from left to right: a template with a wrong place may fail by an earlier value.
-/

namespace DeclScan

/-- The key of a place. -/
inductive PlaceKey where
  | absent
  | named (key : String)
  | unclosed
  deriving Repr, DecidableEq

/-- A number in a place: written out, or the next value. -/
inductive PlaceAmount where
  | given (n : Nat)
  | fromValue
  deriving Repr, DecidableEq

/-- A place for a value. The letter has its index in the template, and is absent if the template
ends before it. -/
structure Place where
  key : PlaceKey
  style : ConversionStyle
  width : Option PlaceAmount
  precision : Option PlaceAmount
  letter : Option (Char × Nat)
  deriving Repr, DecidableEq

/-- A part of a template. -/
inductive TemplatePart where
  | char (c : Char)
  | place (p : Place)
  deriving Repr, DecidableEq

/-- Why a template cannot be filled with some values. -/
inductive TemplateFault where
  | noMapping
  | missingKey (key : String)
  | unclosedKey
  | unfinishedPlace
  | unknownLetter (letter : Char) (index : Nat)
  | hugeWidth
  | hugePrecision
  | tooFewValues
  | tooManyValues
  | wrongValue (fault : ConversionFault)
  deriving Repr, DecidableEq

/-- The wording of a fault of the template itself, or of a number that has no digits. -/
def TemplateFault.message? : TemplateFault → Option String
  | .unclosedKey => some "incomplete format key"
  | .unfinishedPlace => some "incomplete format"
  | .unknownLetter letter index =>
    let shown := if 31 ≤ letter.toNat && letter.toNat ≤ 126 then letter else '?'
    let code := String.ofList (Nat.toDigits 16 letter.toNat)
    some s!"unsupported format character '{shown}' (0x{code}) at index {index}"
  | .hugeWidth => some "width too big"
  | .hugePrecision => some "precision too big"
  | .wrongValue .notANumber => some "cannot convert float NaN to integer"
  | _ => none

namespace LogTemplate

/-! ## Reading -/

/-- The text before the bracket that closes an open one, within `depth` more, and what follows. -/
def takeKey (depth : Nat) : List Char → Option (List Char × List Char)
  | [] => none
  | c :: s =>
    if c = ')' && depth = 0 then some ([], s)
    else
      let depth := if c = '(' then depth + 1 else if c = ')' then depth - 1 else depth
      (takeKey depth s).map fun (key, rest) => (c :: key, rest)

def plainStyle : ConversionStyle := ⟨false, false, false, false, false⟩

def takeStyle (style : ConversionStyle) : List Char → ConversionStyle × List Char
  | '-' :: s => takeStyle { style with left := true } s
  | '+' :: s => takeStyle { style with plus := true } s
  | ' ' :: s => takeStyle { style with blank := true } s
  | '#' :: s => takeStyle { style with alternate := true } s
  | '0' :: s => takeStyle { style with zeros := true } s
  | s => (style, s)

def takeAmount : List Char → Option PlaceAmount × List Char
  | '*' :: s => (some .fromValue, s)
  | s =>
    let digits := s.takeWhile Text.isAsciiDigit
    let n := digits.foldl (fun n c => n * 10 + (c.toNat - '0'.toNat)) 0
    (if digits = [] then none else some (.given n), s.dropWhile Text.isAsciiDigit)

def takePrecision : List Char → Option PlaceAmount × List Char
  | '.' :: s =>
    let (amount, rest) := takeAmount s
    (some (amount.getD (.given 0)), rest)
  | s => (none, s)

/-- Drops a letter for the size of a number, which does not count. -/
def dropSize : List Char → List Char
  | 'h' :: s => s
  | 'l' :: s => s
  | 'L' :: s => s
  | s => s

/-- A place from behind its key. `size` is the length of the template. -/
def takePlace (size : Nat) (key : PlaceKey) (s : List Char) : Place × List Char :=
  let (style, s) := takeStyle plainStyle s
  let (width, s) := takeAmount s
  let (precision, s) := takePrecision s
  match dropSize s with
  | [] => (⟨key, style, width, precision, none⟩, [])
  | c :: rest => (⟨key, style, width, precision, some (c, size - (rest.length + 1))⟩, rest)

def readPlace (size : Nat) : List Char → Place × List Char
  | '(' :: s =>
    match takeKey 0 s with
    | none => (⟨.unclosed, plainStyle, none, none, none⟩, [])
    | some (key, rest) => takePlace size (.named (String.ofList key)) rest
  | s => takePlace size .absent s

/-- The parts of a template, read up to `fuel` characters. -/
def readFrom (size : Nat) : Nat → List Char → List TemplatePart
  | 0, _ => []
  | _, [] => []
  | fuel + 1, '%' :: '%' :: s => .char '%' :: readFrom size fuel s
  | fuel + 1, '%' :: s =>
    let (place, rest) := readPlace size s
    .place place :: readFrom size fuel rest
  | fuel + 1, c :: s => .char c :: readFrom size fuel s

def read (template : String) : List TemplatePart :=
  readFrom template.length template.length template.toList

/-! ## Values -/

/-- The values that are not used yet, and the one that keys are looked up in. If there is such a
one, no value has to be used. -/
structure Supply where
  mapping : Option Json
  values : List Json

/-- A single value. Lists and mappings are also what keys are looked up in. -/
def Supply.ofValue (value : Json) : Supply :=
  match value with
  | .arr _ | .obj _ => ⟨some value, [value]⟩
  | _ => ⟨none, [value]⟩

/-- Values one after the other; a mapping alone is for its members, unless it has none. -/
def Supply.ofValues : List Json → Supply
  | [.obj (m :: members)] => .ofValue (.obj (m :: members))
  | values => ⟨none, values⟩

def Supply.take (s : Supply) : Except TemplateFault (Json × Supply) :=
  match s.values with
  | [] => .error .tooFewValues
  | value :: rest => .ok (value, { s with values := rest })

def Supply.atKey (s : Supply) (key : PlaceKey) : Except TemplateFault Supply :=
  match key, s.mapping with
  | .absent, _ => .ok s
  | _, none => .error .noMapping
  | .unclosed, _ => .error .unclosedKey
  | .named key, some (.obj members) =>
    match Table.get? key members with
    | some value => .ok { s with values := [value] }
    | none => .error (.missingKey key)
  | .named _, some _ => .error .noMapping

/-! ## Filling -/

def maxWidth : Nat := powerOfTwo 63 - 1

def maxPrecision : Nat := powerOfTwo 31 - 1

def amountOf (limit : Nat) (huge : TemplateFault) (s : Supply) :
    Option PlaceAmount → Except TemplateFault (Option Int × Supply)
  | none => .ok (none, s)
  | some (.given n) => if limit < n then .error huge else .ok (some n, s)
  | some .fromValue =>
    match s.take with
    | .error fault => .error fault
    | .ok (value, s) =>
      match Conversion.integer? value with
      | none => .error (.wrongValue .wrongKind)
      | some n =>
        if (limit : Int) < n ∨ n < -(limit : Int) - 1 then .error (.wrongValue .outOfRange)
        else .ok (some n, s)

/-- The text at a place. A width below zero puts blanks behind the text. -/
def fillPlace (p : Place) (s : Supply) : Except TemplateFault (List Char × Supply) := do
  let s ← s.atKey p.key
  let (width, s) ← amountOf maxWidth .hugeWidth s p.width
  let (precision, s) ← amountOf maxPrecision .hugePrecision s p.precision
  match p.letter with
  | none => .error .unfinishedPlace
  | some (letter, index) =>
    let (value, s) ← s.take
    match Conversion.ofLetter? letter with
    | none => .error (.unknownLetter letter index)
    | some conversion =>
      match conversion.apply p.style.alternate (precision.map Int.toNat) value with
      | .error fault => .error (.wrongValue fault)
      | .ok converted =>
        let width := width.getD 0
        let style := { p.style with left := p.style.left || width < 0 }
        .ok (converted.frame style width.natAbs, s)

/-- The text of the parts of a template. Values that are left over are a fault. -/
def fillParts : List TemplatePart → Supply → Except TemplateFault (List Char)
  | [], s => if s.mapping.isNone && !s.values.isEmpty then .error .tooManyValues else .ok []
  | .char c :: parts, s => (fillParts parts s).map (c :: ·)
  | .place p :: parts, s =>
    match fillPlace p s with
    | .error fault => .error fault
    | .ok (text, s) => (fillParts parts s).map (text ++ ·)

def fill (template : String) (s : Supply) : Except TemplateFault String :=
  (fillParts (read template) s).map String.ofList

end LogTemplate
end DeclScan
