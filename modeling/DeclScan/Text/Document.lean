import DeclScan.Text.Basic

/-!
# DeclScan.Text.Document

Coordinates of a text. A `Document` is a text together with its lines and the offset each line
starts at; it maps offsets to positions (0-based line and column) and back. Offsets and positions
outside the text are clamped to it. Lines end at a newline only: a carriage return belongs to the
line it stands in.
-/

namespace DeclScan

/-- A 0-based line and column. -/
structure Position where
  line : Nat
  character : Nat
  deriving Repr, DecidableEq, Inhabited

/-- A line without its newline, and the offset of its first character. -/
structure Line where
  start : Nat
  text : List Char
  deriving Repr, DecidableEq

/-- The lines of a text from an offset on; `piece` holds the characters of the line so far, last
first, and `start` is the offset of the first of them. -/
def Line.split (start offset : Nat) : List Char → List Char → List Line
  | piece, [] => [⟨start, piece.reverse⟩]
  | piece, c :: s =>
    if c = '\n' then ⟨start, piece.reverse⟩ :: Line.split (offset + 1) (offset + 1) [] s
    else Line.split start (offset + 1) (c :: piece) s

/-- A text with its lines. -/
structure Document where
  fileName : String
  text : List Char
  lines : List Line

namespace Document

def ofText (text : List Char) (fileName : String) : Document :=
  ⟨fileName, text, Line.split 0 0 [] text⟩

/-- The number of lines: one more than there are newlines. -/
def lineCount (d : Document) : Nat := d.lines.length

/-- The position of an offset, which is first clamped to the text. It is in the last line that
starts at or before the offset. -/
def positionAt (d : Document) (offset : Int) : Position :=
  let o := min offset.toNat d.text.length
  let before := d.lines.takeWhile fun l => l.start ≤ o
  match before.getLast? with
  | some l => ⟨before.length - 1, o - l.start⟩
  | none => ⟨0, 0⟩

/-- The offset of a line and column. The line is clamped to the lines of the document; the column
is counted from the start of that line and may lead past its end, but not past the text. -/
def offsetAt (d : Document) (line character : Int) : Int :=
  let index := min line.toNat (d.lineCount - 1)
  match d.lines[index]? with
  | some l => min (l.start + character) d.text.length
  | none => 0

/-- The text of a 0-based line without its newline, empty outside the document. -/
def lineAt (d : Document) (line : Int) : List Char :=
  if line < 0 then []
  else
    match d.lines[line.toNat]? with
    | some l => l.text
    | none => []

end Document
end DeclScan
