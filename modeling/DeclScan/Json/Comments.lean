import DeclScan.Text.Search

/-!
# DeclScan.Json.Comments

Removing the comments of a JSON text. Comments run from `//` to the end of the line or from a
slash and a star to the next star and slash; within a string literal these marks mean nothing, and
within a comment a quote means nothing.
-/

namespace DeclScan
namespace Json

open Text

/-- The length of a string literal behind its opening quote, the closing quote included. A
backslash takes the next character with it, unless that is a newline. -/
def literalTail? : Nat → List Char → Option Nat
  | _, [] => none
  | n, '"' :: _ => some (n + 1)
  | n, '\\' :: c :: s => if c = '\n' then none else literalTail? (n + 2) s
  | _, ['\\'] => none
  | n, _ :: s => literalTail? (n + 1) s

/-- The length of a block comment behind its opening mark, the closing mark included. -/
def blockTail? : Nat → List Char → Option Nat
  | _, [] => none
  | n, '*' :: '/' :: _ => some (n + 2)
  | n, _ :: s => blockTail? (n + 1) s

/-- A stretch of text that is kept or removed as a whole. -/
inductive Piece where
  | literal
  | comment
  deriving Repr, DecidableEq

/-- The string literal or comment that starts here, with its length. -/
def piece? : List Char → Option (Piece × Nat)
  | '"' :: s => (literalTail? 1 s).map fun n => (.literal, n)
  | '/' :: '/' :: s => some (.comment, 2 + (s.takeWhile (· ≠ '\n')).length)
  | '/' :: '*' :: s => (blockTail? 2 s).map fun n => (.comment, n)
  | _ => none

/-- Copies a text without its comments onto `out`, which holds what is kept so far, last first;
`skip` characters belong to a piece that is dealt with. -/
def stripFrom : List Char → Nat → List Char → List Char
  | out, _, [] => out.reverse
  | out, skip + 1, _ :: s => stripFrom out skip s
  | out, 0, c :: s =>
    match piece? (c :: s) with
    | some (.literal, n) => stripFrom (((c :: s).take n).reverse ++ out) (n - 1) s
    | some (.comment, n) => stripFrom out (n - 1) s
    | none => stripFrom (c :: out) 0 s

def stripComments (s : List Char) : List Char := stripFrom [] 0 s

end Json
end DeclScan
