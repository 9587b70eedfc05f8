/-!
# DeclScan.Text.Utf8

Decoding UTF-8. The longest start of a character that goes wrong is one fault; decoding either
stops at the first fault (`decode`) or puts one replacement character in its place
(`decodeLossy`). Reading a text also makes every line end a newline (`normalizeNewlines`).
-/

namespace DeclScan
namespace Utf8

/-- What is wrong with a sequence of bytes. -/
inductive Fault where
  | invalidStart
  | invalidContinuation
  | unexpectedEnd
  deriving Repr, DecidableEq

def Fault.text : Fault → String
  | .invalidStart => "invalid start byte"
  | .invalidContinuation => "invalid continuation byte"
  | .unexpectedEnd => "unexpected end of data"

/-- What the next bytes are: a character, or a fault that takes a number of bytes. -/
inductive Decoded where
  | char (c : Char) (length : Nat)
  | fault (f : Fault) (length : Nat)

/-- How a character that starts with a byte goes on: the number of bytes that follow, the bounds of
the first of them, and the bits that the start gives. -/
def shape? (b : Nat) : Option (Nat × Nat × Nat × Nat) :=
  if 0xC2 ≤ b && b ≤ 0xDF then some (1, 0x80, 0xBF, b - 0xC0)
  else if b = 0xE0 then some (2, 0xA0, 0xBF, 0)
  else if b = 0xED then some (2, 0x80, 0x9F, 0xD)
  else if 0xE1 ≤ b && b ≤ 0xEF then some (2, 0x80, 0xBF, b - 0xE0)
  else if b = 0xF0 then some (3, 0x90, 0xBF, 0)
  else if 0xF1 ≤ b && b ≤ 0xF3 then some (3, 0x80, 0xBF, b - 0xF0)
  else if b = 0xF4 then some (3, 0x80, 0x8F, 4)
  else none

/-- Takes the bytes that continue a character; `taken` bytes and `bits` are known already, and the
next byte has to lie between two bounds. -/
def continueChar (taken bits : Nat) : Nat → Nat → Nat → List UInt8 → Decoded
  | 0, _, _, _ => .char (Char.ofNat bits) taken
  | _ + 1, _, _, [] => .fault .unexpectedEnd taken
  | missing + 1, low, high, b :: bytes =>
    let n := b.toNat
    if low ≤ n && n ≤ high then
      continueChar (taken + 1) (bits * 64 + (n - 0x80)) missing 0x80 0xBF bytes
    else .fault .invalidContinuation taken

def nextUnit (b : UInt8) (bytes : List UInt8) : Decoded :=
  let n := b.toNat
  if n < 0x80 then .char (Char.ofNat n) 1
  else
    match shape? n with
    | none => .fault .invalidStart 1
    | some (missing, low, high, bits) => continueChar 1 bits missing low high bytes

/-- A place where bytes are not UTF-8. -/
structure DecodeError where
  fault : Fault
  start : Nat
  length : Nat
  /-- The first byte of the fault. -/
  byte : Nat
  deriving Repr, DecidableEq

def DecodeError.message (e : DecodeError) : String :=
  let digit (n : Nat) : Char := if n < 10 then Char.ofNat (48 + n) else Char.ofNat (87 + n)
  let byte := String.ofList [digit (e.byte / 16), digit (e.byte % 16)]
  if e.length = 1 then
    s!"'utf-8' codec can't decode byte 0x{byte} in position {e.start}: {e.fault.text}"
  else
    s!"'utf-8' codec can't decode bytes in position {e.start}-{e.start + e.length - 1}: " ++
      e.fault.text

/-- Decodes bytes from a position on, up to the first fault; `read` holds the characters so far,
last first. -/
def decodeFrom (position : Nat) : Nat → List Char → List UInt8 → Except DecodeError (List Char)
  | _, read, [] => .ok read.reverse
  | skip + 1, read, _ :: bytes => decodeFrom (position + 1) skip read bytes
  | 0, read, b :: bytes =>
    match nextUnit b bytes with
    | .char c length => decodeFrom (position + 1) (length - 1) (c :: read) bytes
    | .fault f length => .error ⟨f, position, length, b.toNat⟩

def decode (bytes : List UInt8) : Except DecodeError (List Char) := decodeFrom 0 0 [] bytes

/-- Decodes bytes, with a replacement character for each fault. -/
def decodeLossyFrom : Nat → List Char → List UInt8 → List Char
  | _, read, [] => read.reverse
  | skip + 1, read, _ :: bytes => decodeLossyFrom skip read bytes
  | 0, read, b :: bytes =>
    match nextUnit b bytes with
    | .char c length => decodeLossyFrom (length - 1) (c :: read) bytes
    | .fault _ length => decodeLossyFrom (length - 1) ('\uFFFD' :: read) bytes

/-- Decodes bytes, with a replacement character for each fault. -/
def decodeLossy (bytes : List UInt8) : List Char := decodeLossyFrom 0 [] bytes

/-- Makes a carriage return with a newline, and one without, a newline; `read` holds the characters
so far, last first. -/
def normalizeFrom : List Char → List Char → List Char
  | read, [] => read.reverse
  | read, '\r' :: '\n' :: s => normalizeFrom ('\n' :: read) s
  | read, '\r' :: s => normalizeFrom ('\n' :: read) s
  | read, c :: s => normalizeFrom (c :: read) s

def normalizeNewlines (s : List Char) : List Char := normalizeFrom [] s

end Utf8
end DeclScan
