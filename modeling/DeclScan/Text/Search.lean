import DeclScan.Text.Basic

/-!
# DeclScan.Text.Search

Searching a text from left to right for occurrences that do not overlap.

A *recogniser* looks at one place of a text: it is given the character before the place, if there
is one, and the text from the place on, and answers with what it found and how many characters
that takes. `Search.all` tries the recogniser at every offset in turn and continues behind each
occurrence, `Search.first?` stops at the first.
-/

namespace DeclScan
namespace Text

/-- What stands at a place of a text, given the character before it and the text from it on; the
number is the length of the occurrence. -/
abbrev Recogniser (α : Type) := Option Char → List Char → Option (α × Nat)

/-- An occurrence and the offset it starts at. -/
structure Found (α : Type) where
  offset : Nat
  value : α

namespace Search

/-- All occurrences from one place on; `skip` characters still belong to the last occurrence. -/
def allFrom {α : Type} (m : Recogniser α) : Option Char → Nat → Nat → List Char → List (Found α)
  | before, offset, skip, [] =>
    if skip = 0 then
      match m before [] with
      | some (a, _) => [⟨offset, a⟩]
      | none => []
    else []
  | before, offset, skip, c :: s =>
    if skip = 0 then
      match m before (c :: s) with
      | some (a, length) => ⟨offset, a⟩ :: allFrom m (some c) (offset + 1) (length - 1) s
      | none => allFrom m (some c) (offset + 1) 0 s
    else allFrom m (some c) (offset + 1) (skip - 1) s

/-- The occurrences in a text, from left to right and without overlap. -/
def all {α : Type} (m : Recogniser α) (s : List Char) : List (Found α) := allFrom m none 0 0 s

def firstFrom? {α : Type} (m : Recogniser α) : Option Char → Nat → List Char → Option (Found α)
  | before, offset, [] => (m before []).map fun (a, _) => ⟨offset, a⟩
  | before, offset, c :: s =>
    match m before (c :: s) with
    | some (a, _) => some ⟨offset, a⟩
    | none => firstFrom? m (some c) (offset + 1) s

def first? {α : Type} (m : Recogniser α) (s : List Char) : Option (Found α) := firstFrom? m none 0 s

end Search
end Text
end DeclScan
