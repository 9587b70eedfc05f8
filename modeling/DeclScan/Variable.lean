/-!
# DeclScan.Variable

What extraction produces: variables with the place of their declaration, imports, and references.
Lines are 1-based (0 in formats whose declarations have no position), columns are 0-based.
-/

namespace DeclScan

/-- An occurrence of a name, with the part of its line around it. -/
structure Reference where
  line : Int
  character : Int
  context : String
  deriving Repr, DecidableEq, Inhabited

/-- The form of an import. -/
inductive ImportKind where
  | importStatement
  | requireCall
  | fromStatement
  deriving Repr, DecidableEq, Inhabited

def ImportKind.label : ImportKind → String
  | .importStatement => "import"
  | .requireCall => "require"
  | .fromStatement => "from"

/-- One name that an import brings in. Paths are not resolved. -/
structure Import where
  name : String
  path : String
  line : Int
  character : Int
  kind : ImportKind
  deriving Repr, DecidableEq, Inhabited

/-- A declaration.

* `type`: the label inferred from what is declared (`string`, `int`, …).
* `declaredAs`: how it is declared (`const`, `property`, …).
* `scope`: a label of the surroundings (`root`, `level-1`, `template`, …).
* `value`: the text of the value, where the extractor keeps one.
-/
structure Variable where
  name : String
  type : String
  declaredAs : String
  line : Int
  character : Int
  filePath : String
  scope : String
  value : Option String
  references : List Reference
  deriving Repr, DecidableEq, Inhabited

def Variable.isFunction (v : Variable) : Bool := v.type = "function"

/-- What an editor can offer to do with a variable of some language. -/
inductive Refactoring where
  | rename
  | extract
  | convert
  | inlineValue
  | move
  | split
  deriving Repr, DecidableEq, Inhabited

def Refactoring.label : Refactoring → String
  | .rename => "rename"
  | .extract => "extract"
  | .convert => "convert"
  | .inlineValue => "inline"
  | .move => "move"
  | .split => "split"

end DeclScan
