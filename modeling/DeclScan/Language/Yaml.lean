import DeclScan.Text.Basic
import DeclScan.Variable

/-!
# DeclScan.Language.Yaml

Keys of YAML mappings, one `key: value` line at a time. The scope of a key is its level: two
columns of indentation make one.
-/

namespace DeclScan
namespace Yaml

open Text

/-- Whether a text is a decimal fraction: optional digits, a point, digits. -/
def isFraction (s : List Char) : Bool :=
  match s.dropWhile isDigit with
  | '.' :: r => r ≠ [] && r.all isDigit
  | _ => false

/-- The label of a scalar or inline collection, by the shape of its text. -/
def inferType (value : List Char) : String :=
  let enclosed (first last : Char) : Bool :=
    value.head? = some first && value.getLast? = some last
  if value = [] then "null"
  else if value = "true".toList || value = "false".toList then "boolean"
  else if value.all isDigit then "number"
  else if isFraction value then "float"
  else if enclosed '[' ']' then "array"
  else if enclosed '\x7b' '\x7d' then "object"
  else "string"

def isKeyRest (c : Char) : Bool := isNameRest c || c = '-'

/-- A key line: the width of the indentation, the key, and the value without blanks around it. -/
structure Entry where
  indent : Nat
  key : List Char
  value : List Char
  deriving Repr, DecidableEq

/-- Reads a line as indentation, a key, a colon and an optional value that a blank sets apart.
Carriage returns at the end of the line do not count. -/
def entryOfLine? (line : List Char) : Option Entry :=
  let line := (line.reverse.dropWhile (· = '\r')).reverse
  let body := trimStart line
  match body with
  | [] => none
  | c :: r =>
    if isNameStart c then
      let key := c :: r.takeWhile isKeyRest
      match trimStart (r.dropWhile isKeyRest) with
      | [':'] => some ⟨line.length - body.length, key, []⟩
      | ':' :: b :: value =>
        if isBlank b then some ⟨line.length - body.length, key, trim value⟩ else none
      | _ => none
    else none

def indentUnit : Nat := 2

def Entry.toVariable (filePath : String) (line : Nat) (e : Entry) : Variable :=
  { name := String.ofList e.key
    type := inferType e.value
    declaredAs := "property"
    line := line
    character := e.indent
    filePath := filePath
    scope := s!"level-{e.indent / indentUnit}"
    value := some (String.ofList e.value)
    references := [] }

/-- The variables of lines that start with the 1-based line `n`. -/
def variablesFrom (filePath : String) : Nat → List (List Char) → List Variable
  | _, [] => []
  | n, line :: lines =>
    ((entryOfLine? line).map (·.toVariable filePath n)).toList ++ variablesFrom filePath (n + 1) lines

def extract (content : List Char) (filePath : String) : List Variable :=
  variablesFrom filePath 1 (splitOn '\n' content)

end Yaml
end DeclScan
