import DeclScan.Text.Document
import DeclScan.Text.Search
import DeclScan.Variable

/-!
# DeclScan.Occurrence

Textual occurrences of a name. An occurrence is delimited: neither the character before it nor the
one after it continues an identifier. Which characters do depends on the language
(`WordClass`).

* `Occurrence.recogniser`: the name at one place, delimited.
* `Occurrence.references`: every occurrence in a text as a `Reference`.
* `Occurrence.count`: how many there are.
-/

namespace DeclScan

/-- A class of characters that continue an identifier. -/
structure WordClass where
  mem : Char → Bool

namespace WordClass

/-- Word characters alone, or with the dollar sign or the hyphen. -/
def plain : WordClass := ⟨Text.isWord⟩
def dollar : WordClass := ⟨fun c => Text.isWord c || c = '$'⟩
def hyphen : WordClass := ⟨fun c => Text.isWord c || c = '-'⟩

instance : Inhabited WordClass := ⟨plain⟩

end WordClass

namespace Occurrence

open Text

/-- Whether an identifier may end or start beside this character. -/
def isBoundary (w : WordClass) : Option Char → Bool
  | none => true
  | some c => !w.mem c

def recogniser (w : WordClass) (name : List Char) : Recogniser Unit := fun before s =>
  if isBoundary w before then
    match dropLiteral name s with
    | some rest => if isBoundary w rest.head? then some ((), name.length) else none
    | none => none
  else none

/-- How many characters a reference shows on either side of the name. -/
def contextRadius : Nat := 20

/-- The reference for the occurrence of a name of `length` characters at an offset. -/
def reference (d : Document) (length : Nat) (lineOffset : Int) (offset : Nat) : Reference :=
  let position := d.positionAt offset
  let first := position.character - contextRadius
  let last := position.character + length + contextRadius
  { line := position.line + 1 + lineOffset
    character := position.character
    context := String.ofList (((d.lineAt position.line).take last).drop first) }

/-- Every occurrence of `name`, in text order. `lineOffset` is added to each line, for a text cut
out of a larger one. The empty name does not occur. -/
def references (content name : List Char) (w : WordClass) (lineOffset : Int) : List Reference :=
  if name = [] then []
  else
    let d := Document.ofText content ""
    (Search.all (recogniser w name) content).map fun found =>
      reference d name.length lineOffset found.offset

/-- The number of occurrences of `name`; the empty name is counted at every place between two
characters that do not continue an identifier. -/
def count (content name : List Char) (w : WordClass) : Nat :=
  (Search.all (recogniser w name) content).length

end Occurrence
end DeclScan
