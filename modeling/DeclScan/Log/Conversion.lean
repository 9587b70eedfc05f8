import DeclScan.Json.Display
import DeclScan.Number.Significant

/-!
# DeclScan.Log.Conversion

The texts of values in messages. A conversion turns a value of some kinds into a text; numbers have
a sign and perhaps the mark of their base in front of their digits, so that the width of a text may
be made up by zeros between these.

* `Conversion.apply`: the parts of the text of a value.
* `Converted.frame`: the text, filled up to a width.
-/

namespace DeclScan

/-- How a value is shown in a message. Numbers may have their letters as capitals. -/
inductive Conversion where
  /-- Texts as they are. -/
  | shown
  /-- Texts in quotes. -/
  | quoted
  /-- Texts in quotes and in ASCII. -/
  | escaped
  /-- One character, or the number of one. -/
  | character
  | whole
  | octal
  | hexadecimal (capital : Bool)
  | fixed (capital : Bool)
  | scientific (capital : Bool)
  | general (capital : Bool)
  deriving Repr, DecidableEq

/-- Why a value has no text by some conversion. -/
inductive ConversionFault where
  | wrongKind
  | notANumber
  | outOfRange
  deriving Repr, DecidableEq

/-- How the text of a value is set. -/
structure ConversionStyle where
  /-- Blanks go behind the text. -/
  left : Bool
  /-- Numbers that are not negative have a plus sign. -/
  plus : Bool
  /-- Numbers that are not negative have a blank in place of a sign. -/
  blank : Bool
  /-- Numbers have the mark of their base, or always a point. -/
  alternate : Bool
  /-- Zeros are put between the sign of a number and its digits. -/
  zeros : Bool
  deriving Repr, DecidableEq

/-- The text of a value in parts. Texts that are no numbers have a body only. -/
structure Converted where
  numeric : Bool
  negative : Bool
  mark : List Char
  body : List Char
  deriving Repr, DecidableEq

namespace Converted

def text (s : List Char) : Converted := ⟨false, false, [], s⟩

def number (negative : Bool) (digits : List Char) : Converted := ⟨true, negative, [], digits⟩

def sign (style : ConversionStyle) (c : Converted) : List Char :=
  if !c.numeric then []
  else if c.negative then ['-']
  else if style.plus then ['+']
  else if style.blank then [' ']
  else []

def frame (style : ConversionStyle) (width : Nat) (c : Converted) : List Char :=
  let front := c.sign style ++ c.mark
  let missing := width - (front.length + c.body.length)
  if style.left then front ++ c.body ++ List.replicate missing ' '
  else if c.numeric && style.zeros then front ++ List.replicate missing '0' ++ c.body
  else List.replicate missing ' ' ++ front ++ c.body

/-- A text is at least as long as its width. -/
theorem le_length_frame (style : ConversionStyle) (width : Nat) (c : Converted) :
    width ≤ (c.frame style width).length := by
  simp only [frame]
  split
  · simp only [List.length_append, List.length_replicate]; omega
  · split <;> simp only [List.length_append, List.length_replicate] <;> omega

end Converted

namespace Conversion

def ofLetter? : Char → Option Conversion
  | 's' => some .shown
  | 'r' => some .quoted
  | 'a' => some .escaped
  | 'c' => some .character
  | 'd' | 'i' | 'u' => some .whole
  | 'o' => some .octal
  | 'x' => some (.hexadecimal false)
  | 'X' => some (.hexadecimal true)
  | 'f' => some (.fixed false)
  | 'F' => some (.fixed true)
  | 'e' => some (.scientific false)
  | 'E' => some (.scientific true)
  | 'g' => some (.general false)
  | 'G' => some (.general true)
  | _ => none

/-! ## Kinds of values -/

/-- The integer that a value is. Truth values are numbers too. -/
def integer? : Json → Option Int
  | .int n => some n
  | .bool b => some (if b then 1 else 0)
  | _ => none

def wholePart (value : Json) : Except ConversionFault Int :=
  match value with
  | .float x =>
    match Binary64.decode x with
    | .nan => .error .notANumber
    | .infinity _ => .error .outOfRange
    | .finite negative m q =>
      let (num, den) := Binary64.scaleTwo m 1 q
      let n : Int := num / den
      .ok (if negative then -n else n)
  | value =>
    match integer? value with
    | some n => .ok n
    | none => .error .wrongKind

def double (value : Json) : Except ConversionFault Binary64 :=
  match value with
  | .float x => .ok (Binary64.decode x)
  | value =>
    match integer? value with
    | none => .error .wrongKind
    | some n =>
      match Binary64.decode (Binary64.ofInt n) with
      | .finite negative m q => .ok (.finite negative m q)
      | _ => .error .outOfRange

/-- The character that a value is, by itself or by its number. -/
def characterOf (value : Json) : Except ConversionFault Char :=
  match value with
  | .str s =>
    match s.toList with
    | [c] => .ok c
    | _ => .error .wrongKind
  | value =>
    match integer? value with
    | none => .error .wrongKind
    | some n => if 0 ≤ n ∧ n ≤ 0x10FFFF then .ok (Char.ofNat n.toNat) else .error .outOfRange

/-! ## Texts -/

def inCase (capital : Bool) (s : List Char) : List Char := if capital then s.map Char.toUpper else s

def cut (precision : Option Nat) (s : List Char) : Converted :=
  .text (match precision with
    | none => s
    | some n => s.take n)

def asciiChar (c : Char) : List Char :=
  if c.toNat < 128 then [c] else Text.codeEscape c

/-- An integer in some base, with at least as many digits as are asked for. -/
def integerText (base : Nat) (mark : List Char) (precision : Option Nat) (n : Int) : Converted :=
  let digits := Nat.toDigits base n.natAbs
  ⟨true, n < 0, mark, List.replicate (precision.getD 0 - digits.length) '0' ++ digits⟩

/-- The number of digits after the point, or of all digits, when nothing is said. -/
def standardPrecision : Nat := 6

def ratioText (conversion : Conversion) (pointed : Bool) (precision num den : Nat) : List Char :=
  match conversion with
  | .scientific _ => (Significant.ofRatio (precision + 1) num den).scientificText pointed
  | .general _ => (Significant.ofRatio (max precision 1) num den).generalText pointed
  | _ =>
    let (digits, fraction) := fixedDigits precision num den
    if fraction = [] && !pointed then digits else digits ++ '.' :: fraction

def doubleText (conversion : Conversion) (capital pointed : Bool) (precision : Option Nat) :
    Binary64 → Converted
  | .nan => .number false (inCase capital ['n', 'a', 'n'])
  | .infinity negative => .number negative (inCase capital ['i', 'n', 'f'])
  | .finite negative m q =>
    let (num, den) := Binary64.scaleTwo m 1 q
    let precision := precision.getD standardPrecision
    .number negative (inCase capital (ratioText conversion pointed precision num den))

def apply (conversion : Conversion) (alternate : Bool) (precision : Option Nat) (value : Json) :
    Except ConversionFault Converted :=
  let integer (base : Nat) (mark : List Char) : Except ConversionFault Converted :=
    match integer? value with
    | none => .error .wrongKind
    | some n => .ok (integerText base (if alternate then mark else []) precision n)
  match conversion with
  | .shown => .ok (cut precision value.display.toList)
  | .quoted => .ok (cut precision value.displayQuoted.toList)
  | .escaped => .ok (cut precision (value.displayQuoted.toList.flatMap asciiChar))
  | .character => (characterOf value).map fun c => .text [c]
  | .whole => (wholePart value).map (integerText 10 [] precision)
  | .octal => integer 8 ['0', 'o']
  | .hexadecimal capital =>
    (integer 16 ['0', 'x']).map fun c =>
      { c with mark := inCase capital c.mark, body := inCase capital c.body }
  | .fixed capital | .scientific capital | .general capital =>
    (double value).map (doubleText conversion capital alternate precision)

end Conversion
end DeclScan
